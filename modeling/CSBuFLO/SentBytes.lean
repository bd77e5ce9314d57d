/-
# The count of bytes sent

After `packet_write_poll` a slot computes how much was sent from the bytes buffered before the
call, the padding the call added, and what remains.  The padding is read from a counter that the
call clears only past its time gate.  A call that finds its gate closed writes nothing, and the
counter still holds the padding of an earlier call: that padding is counted a second time.

The loop asks for the connection by its own copy of the time to write.  It can find the gate of the
poll closed when a packet handler has called `packet_write_wait` in between, which moves the time
of the packet layer only.  So runs include these calls.

The log of a run keeps the number of bytes that the slots put on the wire since the loop last set
its total to zero.
-/
import CSBuFLO.Padding

namespace CSBuFLO

variable {σ β : Type}

/-! ## One call -/

variable {c : Codec σ β} {e e' : Endpoint σ β}

/-- What is buffered and what is on the wire grows by the padding counted. -/
theorem balance_packetWritePollOneWrite {g g' : Globals} {ori ori' : ℤ} {k : Kernel}
    {p p' : PacketState σ β} (h : packetWritePollOneWrite c g ori k p = some (ori', g', p')) :
    (p'.outputLen : ℤ) + p'.wire.length + g.paddedJunk =
      p.outputLen + p.wire.length + g'.paddedJunk := by
  obtain ⟨-, -, rfl, rfl⟩ | ⟨aw, p1, acc, -, -, hp1, hacc, -, rfl, rfl⟩ :=
    packetWritePollOneWrite_cases h
  · rfl
  · have hlen := outputLen_padOutput hp1
    have hpadded : aw ≤ p.outputLen → p1.outputLen = p.outputLen := by
      intro hle
      rw [hlen]
      exact if_pos hle
    have haim : aw ≤ p1.outputLen := by
      rw [hlen]
      exact le_paddedLength c.blockSize_eq c.macLen aw p.outputLen
    have hhanded := handedLength_le g aw p.outputLen p1.outputLen haim
    have htaken : acc ≤ p1.output.length := (WriteResult.taken_le hacc).trans hhanded
    have hwire : p1.wire = p.wire := by rw [padOutput_frame hp1]
    have hwritten : ((p1.handOver (handedLength g aw p.outputLen p1.outputLen)).consume
        acc).wire.length = p.wire.length + acc := by
      simp only [PacketState.consume, PacketState.handOver, List.length_append, List.length_take,
        hwire, Nat.min_eq_left htaken]
    have htaken' : acc ≤ p1.outputLen := htaken
    rw [paddedJunk_afterWrite, paddedJunk_padJunk g hpadded, outputLen_consume_handOver, hwritten]
    omega

/-- **What the loop computes around a poll**: the bytes written, if the gate was open, and the
padding of an earlier call otherwise. -/
theorem sentBytes_packetWritePoll {inp : PollInput} {g g' : Globals} {p p' : PacketState σ β}
    (h : packetWritePoll c inp g p = .returned (g', p')) (e : Endpoint σ β) :
    sentBytes p.outputLen { e with g := g', pkt := p' } =
      (p'.wire.length : ℤ) - p.wire.length +
        if p.packetTimeToWrite ≤ inp.now then 0 else g.paddedJunk := by
  unfold sentBytes
  dsimp only
  by_cases hgate : p.packetTimeToWrite ≤ inp.now
  · rw [if_pos hgate]
    obtain ⟨g1, p1, hwrites, heq⟩ := packetWritePoll_eq_returned h hgate
    have hinv := inv_pollWrites (c := c)
      (J := fun g2 p2 => (p2.outputLen : ℤ) + p2.wire.length =
        p.outputLen + p.wire.length + g2.paddedJunk)
      (fun g2 g3 ori ori' k p2 p3 hJ hone => by
        have := balance_packetWritePollOneWrite hone
        omega) inp.kernel { g with paddedJunk := 0 } p (by simp)
    rw [hwrites] at hinv
    have hjunk : g'.paddedJunk = g1.paddedJunk ∧ p'.outputLen = p1.outputLen ∧
        p'.wire = p1.wire := by
      cases heq
      refine ⟨?_, rfl, rfl⟩
      split <;> rfl
    have hbalance : (p1.outputLen : ℤ) + p1.wire.length =
        p.outputLen + p.wire.length + g1.paddedJunk := hinv
    rw [hjunk.1, hjunk.2.1, hjunk.2.2]
    omega
  · rw [if_neg hgate]
    unfold packetWritePoll at h
    rw [if_pos (by omega)] at h
    cases h
    omega

/-! ## Runs -/

/-- Whether the decision of a slot sets the total to zero: it changes from transcript to csbuflo
mode, or it ends a csbuflo page. -/
def resetsTotal (c : Codec σ β) (T : Tables) (r : Role) (inp : SlotInput) (e : Endpoint σ β) :
    Bool :=
  let n := e.pkt.outputLen
  match if e.g.stmode = .supertrace then transcriptSlot c T r inp n e else some e with
  | none => false
  | some e1 =>
    (decide (e.g.stmode = .supertrace) && decide (e1.g.stmode = .csbuflo)) ||
      (csbufloIdle inp n e1 && pageOver r n e1.loop)

theorem totalSentBytes_decideSlot {T : Tables} {r : Role} {inp : SlotInput}
    (h : decideSlot c T r inp e = some e') :
    e'.loop.totalSentBytes = (if resetsTotal c T r inp e then 0 else e.loop.totalSentBytes) := by
  obtain ⟨e1, h1, h2⟩ := Option.bind_eq_some_iff.mp h
  have htotal := (totals_csbufloSlot h2).2
  have hreset : resetsTotal c T r inp e =
      ((decide (e.g.stmode = .supertrace) && decide (e1.g.stmode = .csbuflo)) ||
        (csbufloIdle inp e.pkt.outputLen e1 && pageOver r e.pkt.outputLen e1.loop)) := by
    unfold resetsTotal
    dsimp only
    rw [h1]
  rw [htotal, hreset]
  cases csbufloIdle inp e.pkt.outputLen e1 && pageOver r e.pkt.outputLen e1.loop with
  | true => simp
  | false =>
    rw [Bool.or_false, if_neg Bool.false_ne_true]
    by_cases hmode : e.g.stmode = .supertrace
    · rw [if_pos hmode] at h1
      have htranscript : e1.loop.totalSentBytes =
          if e1.g.stmode = .csbuflo then 0 else e.loop.totalSentBytes :=
        congrArg Prod.fst (totals_transcriptSlot h1 hmode)
      rw [htranscript, decide_eq_true hmode, Bool.true_and]
      simp only [decide_eq_true_eq]
    · rw [if_neg hmode] at h1
      obtain rfl := Option.some.inj h1
      rw [decide_eq_false hmode, Bool.false_and, if_neg Bool.false_ne_true]

/-- The number of bytes taken since the last reset, after an event: a slot that polls adds what
its poll put on the wire. -/
def sentLog (c : Codec σ β) (T : Tables) (r : Role) (e : Endpoint σ β) (ev : LoopEvent)
    (e' : Endpoint σ β) (n : ℤ) : ℤ :=
  match ev with
  | .endpoint (.slot inp) =>
    let e0 := unloadStep inp.now e
    if shouldSend r inp e0 then
      match decideSlot c T r inp e0 with
      | none => n
      | some e1 =>
        (if resetsTotal c T r inp e0 then 0 else n) +
          ((e'.pkt.wire.length : ℤ) - e1.pkt.wire.length)
    else n
  | _ => n

/-- A slot that polls finds the gate of the poll open, or no padding counted. -/
def OpenOrClean (c : Codec σ β) (T : Tables) (r : Role) (x : Endpoint σ β × ℤ)
    (ev : LoopEvent) (_ : Endpoint σ β × ℤ) : Prop :=
  ∀ inp e1, ev = .endpoint (.slot inp) → shouldSend r inp (unloadStep inp.now x.1) = true →
    decideSlot c T r inp (unloadStep inp.now x.1) = some e1 →
      e1.pkt.packetTimeToWrite ≤ inp.poll.now ∨ e1.g.paddedJunk = 0

/-- `OpenOrClean`, computed. -/
def openOrClean (c : Codec σ β) (T : Tables) (r : Role) (x : Endpoint σ β × ℤ)
    (ev : LoopEvent) (_ : Endpoint σ β × ℤ) : Bool :=
  match ev with
  | .endpoint (.slot inp) =>
    match decideSlot c T r inp (unloadStep inp.now x.1) with
    | none => true
    | some e1 => decide (e1.pkt.packetTimeToWrite ≤ inp.poll.now ∨ e1.g.paddedJunk = 0)
  | _ => true

theorem openOrClean_sound {T : Tables} {r : Role} {x x' : Endpoint σ β × ℤ} {ev : LoopEvent}
    (h : openOrClean c T r x ev x' = true) : OpenOrClean c T r x ev x' := by
  rintro inp e1 rfl - hdec
  unfold openOrClean at h
  dsimp only at h
  rw [hdec] at h
  exact of_decide_eq_true h

/-- The accounting after a write leaves the wire alone. -/
theorem wire_accountSent (r : Role) (inp : SlotInput) (n : ℕ) (incoming : ℤ) (before : ℕ)
    (e : Endpoint σ β) : (accountSent r inp n incoming before e).pkt.wire = e.pkt.wire := by
  obtain ⟨_, _, _, _, _, _, _, pkt, heq, hpkt⟩ := accountSent_eq r inp n incoming before e
  rw [heq]
  rcases hpkt with rfl | rfl <;> rfl

/-- **A slot counts what it writes**, if it meets the condition. -/
theorem totalSentBytes_slot {T : Tables} {r : Role} {inp : SlotInput} {n : ℤ}
    (hs : slot c T r inp e = .returned e')
    (hG : OpenOrClean c T r (e, n) (.endpoint (.slot inp)) (e', n))
    (h : e.loop.totalSentBytes = n) :
    e'.loop.totalSentBytes = sentLog c T r e (.endpoint (.slot inp)) e' n := by
  have hunload : (unloadStep inp.now e).loop.totalSentBytes = e.loop.totalSentBytes :=
    congrArg Prod.fst (totals_unloadStep inp.now e)
  unfold sentLog
  dsimp only
  rcases slot_eq_returned hs with ⟨hsend, rfl⟩ | ⟨hsend, e1, g, p, incoming, hdec, hpoll, rfl⟩
  · rw [if_neg (by rw [hsend]; decide)]
    have hskip : (skipSlot (unloadStep inp.now e)).loop.totalSentBytes =
        (unloadStep inp.now e).loop.totalSentBytes := by
      unfold skipSlot
      split <;> rfl
    rw [hskip, hunload, h]
  · have hsent := sentBytes_packetWritePoll hpoll e1
    have hcond : (if e1.pkt.packetTimeToWrite ≤ inp.poll.now then 0 else e1.g.paddedJunk) = 0 := by
      rcases hG inp e1 rfl hsend hdec with hopen | hclean
      · rw [if_pos hopen]
      · rw [hclean, ite_self]
    have htotals := totals_accountSent r inp (unloadStep inp.now e).pkt.outputLen incoming
      e1.pkt.outputLen { e1 with g := g, pkt := p }
    have htotal := totalSentBytes_decideSlot hdec
    rw [hcond, add_zero] at hsent
    rw [if_pos hsend, hdec]
    dsimp only
    rw [wire_accountSent, ← h, ← hunload, ← htotal]
    exact (congrArg Prod.fst htotals).trans (congrArg (e1.loop.totalSentBytes + ·) hsent)

/-- An event of the loop that meets the condition keeps the total equal to the log. -/
theorem totalSentBytes_endpointStep {T : Tables} {r : Role} {ev : EndpointEvent} {n : ℤ}
    (hs : endpointStep c T r e ev = some e')
    (hG : OpenOrClean c T r (e, n) (.endpoint ev) (e', sentLog c T r e (.endpoint ev) e' n))
    (h : e.loop.totalSentBytes = n) :
    e'.loop.totalSentBytes = sentLog c T r e (.endpoint ev) e' n := by
  rcases endpointStep_cases hs with ⟨inp, rfl, hslot⟩ | ⟨hno, hflag⟩ | ⟨hpage, hev⟩
  · exact totalSentBytes_slot hslot hG h
  · have hlog : sentLog c T r e (.endpoint ev) e' n = n := by
      cases ev with
      | slot inp => exact absurd rfl (hno inp)
      | _ => rfl
    rw [hlog, hflag.loop, h]
  · obtain ⟨p, -, rfl⟩ | ⟨ts, payload, beyond, u, rfl, -⟩ := hev
    · rw [hpage.loop]
      exact h
    · rw [hpage.loop]
      exact h

/-- A handler that waits for its output leaves the total of the loop alone. -/
theorem totalSentBytes_loopStep {T : Tables} {r : Role} {ev : LoopEvent} {n : ℤ}
    (hs : loopStep c T r e ev = some e')
    (hG : OpenOrClean c T r (e, n) ev (e', sentLog c T r e ev e' n))
    (h : e.loop.totalSentBytes = n) : e'.loop.totalSentBytes = sentLog c T r e ev e' n := by
  cases ev with
  | endpoint ev => exact totalSentBytes_endpointStep hs hG h
  | writeWait polls =>
    obtain ⟨t, -, rfl⟩ := Option.map_eq_some_iff.mp hs
    exact h

/-- **Bytes sent are counted exactly where the gate is open.**  What the loop computes around a
poll is the number of bytes written just when the gate of the poll is open or no padding of an
earlier poll is counted.  In every run whose slots meet this condition, with any peer, clock and
kernel and with waits of the packet handlers, the total is the number of bytes the slots have
written since its last reset. -/
theorem sent_bytes_counted (c : Codec σ β) :
    (∀ (inp : PollInput) (g g' : Globals) (p p' : PacketState σ β) (e : Endpoint σ β),
      packetWritePoll c inp g p = .returned (g', p') →
        (sentBytes p.outputLen { e with g := g', pkt := p' } =
            (p'.wire.length : ℤ) - p.wire.length ↔
          p.packetTimeToWrite ≤ inp.now ∨ g.paddedJunk = 0)) ∧
    ∀ (T : Tables) (r : Role) (snd : σ) (evs : List LoopEvent) (x : Endpoint σ β × ℤ),
      Transition.Along (Transition.logStep (loopStep c T r) (sentLog c T r))
        (OpenOrClean c T r) ({ pkt := { snd := snd } }, 0) evs →
      Transition.run (Transition.logStep (loopStep c T r) (sentLog c T r))
        ({ pkt := { snd := snd } }, 0) evs = some x →
      x.1.loop.totalSentBytes = x.2 := by
  constructor
  · intro inp g g' p p' e hpoll
    rw [sentBytes_packetWritePoll hpoll e]
    by_cases hgate : p.packetTimeToWrite ≤ inp.now
    · simp [hgate]
    · simp [hgate]
  · intro T r snd evs x hG hrun
    refine Transition.inv_run_of_along (G := OpenOrClean c T r)
      (I := fun x => x.1.loop.totalSentBytes = x.2) ?_ hG hrun rfl
    rintro ⟨e, n⟩ ev ⟨e', n'⟩ hi hg hlog
    obtain ⟨hs, rfl⟩ := Transition.logStep_eq_some.mp hlog
    exact totalSentBytes_loopStep hs hg hi

/-- A server without tables, with the log: every page is sent in csbuflo mode. -/
abbrev countedStep :
    Endpoint (SendState Unit) UInt8 × ℤ → LoopEvent →
      Option (Endpoint (SendState Unit) UInt8 × ℤ) :=
  Transition.logStep (loopStep plainCodec noTables .server) (sentLog plainCodec noTables .server)

/-- A page with 100 bytes of data, sent and padded in one slot. -/
def paddedData : List LoopEvent :=
  [.packet 0 (urlPayload [97, space] []) fun _ => 0, .data 0 (94 :: List.replicate 100 0),
    .slot (shutSlot 50000), .slot (openSlot 100000)].map .endpoint

/-- The reply to a global request, sent at 0.2 seconds; the next time to write is drawn. -/
def globalReply : List LoopEvent :=
  [.endpoint (.data 0 [82]), .writeWait [⟨200000, 100, [⟨0, .accepted 16384⟩]⟩]]

/-- The data is counted with its padding, and what the reply put on the wire is left out. -/
theorem sent_bytes_counted_globalReply :
    ∃ x, Transition.run countedStep (plainEndpoint, 0) (paddedData ++ globalReply) = some x ∧
      x.1.g.paddedJunk ≠ 0 ∧ x.1.pkt.wire.length = 1104 ∧ x.1.loop.totalSentBytes = x.2 ∧
      x.2 = 552 := by
  obtain ⟨x, hx, hjunk, hwire, htally⟩ : ∃ x, Transition.run countedStep (plainEndpoint, 0)
      (paddedData ++ globalReply) = some x ∧
      x.1.g.paddedJunk ≠ 0 ∧ x.1.pkt.wire.length = 1104 ∧ x.2 = 552 := by
    decide +kernel
  have hguard : Transition.Along countedStep (OpenOrClean plainCodec noTables .server)
      (plainEndpoint, 0) (paddedData ++ globalReply) :=
    Transition.Along.imp
      (P := fun x ev x' => openOrClean plainCodec noTables .server x ev x' = true)
      (fun _ _ _ => openOrClean_sound) (by decide +kernel)
  exact ⟨x, hx, hjunk, hwire, (sent_bytes_counted plainCodec).2 _ _ _ _ x hguard hx, htally⟩

/-- **Padding counted twice.**  By its own time to write the loop asks for the connection one
microsecond after the reply.  The poll of the slot finds its gate closed, moved by the reply, and
writes nothing; the padding of the reply is added to the total. -/
theorem sent_bytes_miscounted :
    ∃ x x', Transition.run countedStep (plainEndpoint, 0) (paddedData ++ globalReply) = some x ∧
      countedStep x (.endpoint (.slot (openSlot 200001))) = some x' ∧
      Transition.Along countedStep (fun x ev _ => ev.asked x.1 = true) (plainEndpoint, 0)
        (paddedData ++ globalReply ++ [.endpoint (.slot (openSlot 200001))]) ∧
      x'.1.pkt.wire.length = x.1.pkt.wire.length ∧ x'.2 = 552 ∧
      x'.1.loop.totalSentBytes = 552 + x.1.g.paddedJunk ∧ x.1.g.paddedJunk = 536 :=
  Transition.exists_run_step (by decide +kernel)

end CSBuFLO
