/-
# Extended data and the end of the file (`channels.c`)

A peer that gets extended data behind `EOF` closes the connection.  `channel_output_poll` looks at
`CHAN_EOF_SENT` before it sends extended data, and so it does not come to this: one event only
sends extended data when no `EOF` has been sent, and then none is sent in it
(`Channel.EofStep`).

`receive_isSome` is what follows for whole runs: the next message of an open channel is accepted.
-/
import CSBuFLO.ChannelClose

namespace CSBuFLO

open Transition

/-- **What one event does to the end of the file.** -/
structure Channel.EofStep (c c' : Channel) (ms : List ChanMsg) : Prop where
  sent : c.eofSent = true → c'.eofSent = true
  eof : .eof ∈ ms → c'.eofSent = true
  extended : ∀ bytes, .extendedData bytes ∈ ms → c'.eofSent = false
  rcvd : c'.eofRcvd = c.eofRcvd

variable {ms : List ChanMsg}

namespace Channel

variable {c c' c'' : Channel} {ms ms' : List ChanMsg}

/-- An event that neither ends the file nor sends extended data. -/
theorem EofStep.keep (hs : c'.eofSent = c.eofSent) (hr : c'.eofRcvd = c.eofRcvd)
    (heof : .eof ∉ ms) (hext : ∀ bytes, .extendedData bytes ∉ ms) : c.EofStep c' ms where
  sent h := hs.trans h
  eof h := absurd h heof
  extended bytes h := absurd h (hext bytes)
  rcvd := hr

theorem EofStep.silent (hs : c'.eofSent = c.eofSent) (hr : c'.eofRcvd = c.eofRcvd) :
    c.EofStep c' [] :=
  .keep hs hr List.not_mem_nil fun _ => List.not_mem_nil

/-- One part after the other, when extended data is the last thing that is sent. -/
theorem EofStep.trans (h : c.EofStep c' ms) (h' : c'.EofStep c'' ms')
    (hext : ∀ bytes, .extendedData bytes ∉ ms) : c.EofStep c'' (ms ++ ms') where
  sent hc := h'.sent (h.sent hc)
  eof hm := by
    rcases List.mem_append.mp hm with hm | hm
    · exact h'.sent (h.eof hm)
    · exact h'.eof hm
  extended bytes hm := by
    rcases List.mem_append.mp hm with hm | hm
    · exact absurd hm (hext bytes)
    · exact h'.extended bytes hm
  rcvd := h'.rcvd.trans h.rcvd

/-- A silent part before another. -/
theorem EofStep.after (h : c.EofStep c' []) (h' : c'.EofStep c'' ms) : c.EofStep c'' ms :=
  h.trans h' fun _ => List.not_mem_nil

section Functions

variable (c)

theorem eofStep_readFailed : c.EofStep c.readFailed [] := by
  unfold readFailed
  split
  · exact .silent rfl rfl
  · exact .silent rfl rfl

theorem eofStep_sendEof2 : c.EofStep c.sendEof2.1 c.sendEof2.2 := by
  unfold sendEof2
  split
  · exact ⟨fun _ => rfl, fun _ => rfl, fun bytes h => by simp at h, rfl⟩
  · exact .silent rfl rfl

theorem no_extended_sendEof2 (bytes : List UInt8) : .extendedData bytes ∉ c.sendEof2.2 := by
  unfold sendEof2
  split <;> simp

theorem eofStep_ibufEmpty : c.EofStep c.ibufEmpty.1 c.ibufEmpty.2 ∧
    ∀ bytes, .extendedData bytes ∉ c.ibufEmpty.2 := by
  unfold ibufEmpty
  split
  · exact ⟨.silent rfl rfl, fun _ => List.not_mem_nil⟩
  split
  · cases c.closeSent with
    | true => exact ⟨.silent rfl rfl, fun _ => List.not_mem_nil⟩
    | false =>
      have h := c.eofStep_sendEof2
      exact ⟨⟨h.sent, h.eof, h.extended, h.rcvd⟩, c.no_extended_sendEof2⟩
  · exact ⟨.silent rfl rfl, fun _ => List.not_mem_nil⟩

theorem eofStep_obufEmpty : c.EofStep c.obufEmpty [] := by
  unfold obufEmpty
  split
  · exact .silent rfl rfl
  split
  · exact .silent rfl rfl
  · exact .silent rfl rfl

theorem eofStep_writeFailed2 : c.EofStep c.writeFailed2.1 c.writeFailed2.2 := by
  unfold writeFailed2
  split
  · exact .silent rfl rfl
  · dsimp only
    split
    · unfold sendEow2
      split
      · exact .silent rfl rfl
      · exact .keep rfl rfl (by simp) (by simp)
    · exact .silent rfl rfl

theorem eofStep_rcvdClose2 : c.EofStep c.rcvdClose2.1 c.rcvdClose2.2 := by
  unfold rcvdClose2
  dsimp only
  set d : Channel := if c.ostate = .opened then { c with closeRcvd := true, ostate := .waitDrain }
    else { c with closeRcvd := true } with hd
  have hsilent : c.EofStep d [] := by
    rw [hd]
    split
    · exact .silent rfl rfl
    · exact .silent rfl rfl
  refine hsilent.after ?_
  split
  · exact .silent rfl rfl
  · have h := d.eofStep_sendEof2
    exact ⟨h.sent, h.eof, h.extended, h.rcvd⟩
  · exact .silent rfl rfl

theorem eofStep_rcvdEow : c.EofStep c.rcvdEow [] := by
  unfold rcvdEow
  split
  · exact .silent rfl rfl
  · exact .silent rfl rfl

theorem eofStep_preOpen : c.EofStep c.preOpen [] := by
  unfold preOpen
  split
  · exact c.eofStep_obufEmpty
  · exact .silent rfl rfl

theorem eofStep_handleRfd (r : FdRead) : c.EofStep (c.handleRfd r) [] := by
  unfold handleRfd
  split
  · exact .silent rfl rfl
  · split
    · exact c.eofStep_readFailed
    · exact .silent rfl rfl
  · split
    · exact c.eofStep_readFailed
    · exact .silent rfl rfl
  · split
    · exact .silent rfl rfl
    · exact .silent rfl rfl

variable {r : Channel × List ChanMsg}

theorem eofStep_handleWfd {w : FdWrite} (h : c.handleWfd w = some r) : c.EofStep r.1 r.2 := by
  have hfailed : ∀ rest : List UInt8, c.EofStep (writeFailed2 { c with output := rest }).1
      (writeFailed2 { c with output := rest }).2 := fun rest => by
    have h := eofStep_writeFailed2 { c with output := rest }
    exact ⟨h.sent, h.eof, h.extended, h.rcvd⟩
  unfold handleWfd at h
  split at h
  · obtain rfl := Option.some.inj h
    exact .silent rfl rfl
  split at h
  · obtain ⟨x, -, rfl⟩ := Option.map_eq_some_iff.mp h
    cases w with
    | again => exact .silent rfl rfl
    | failed => exact hfailed x.2
    | wrote n =>
      cases n with
      | zero => exact hfailed x.2
      | succ n => exact .silent rfl rfl
  · obtain rfl := Option.some.inj h
    cases w with
    | again => exact .silent rfl rfl
    | failed => exact c.eofStep_writeFailed2
    | wrote n =>
      cases n with
      | zero => exact c.eofStep_writeFailed2
      | succ n => exact .silent rfl rfl

theorem eofStep_writeEfd (w : FdWrite) : c.EofStep (c.writeEfd w) [] := by
  unfold writeEfd
  split <;> exact .silent rfl rfl

theorem eofStep_readEfd (r : FdRead) : c.EofStep (c.readEfd r) [] := by
  unfold readEfd
  split
  · exact .silent rfl rfl
  · exact .silent rfl rfl
  · exact .silent rfl rfl
  · split
    · exact .silent rfl rfl
    · exact .silent rfl rfl

theorem eofStep_handleEfd (w : FdWrite) (r : FdRead) : c.EofStep (c.handleEfd w r) [] := by
  unfold handleEfd
  split
  · exact .silent rfl rfl
  split
  · split
    · exact .silent rfl rfl
    · exact c.eofStep_writeEfd w
  · exact c.eofStep_readEfd r

theorem eofStep_checkWindow : c.EofStep c.checkWindow.1 c.checkWindow.2 := by
  unfold checkWindow
  split
  · exact .keep rfl rfl (by simp) (by simp)
  · exact .silent rfl rfl

/-- Extended data is sent before the end of the file only. -/
theorem eofStep_pollExtended : c.EofStep c.pollExtended.1 c.pollExtended.2 := by
  unfold pollExtended
  split
  · rename_i h
    exact ⟨id, fun hm => by simp at hm, fun _ _ => h.1, rfl⟩
  · exact .silent rfl rfl

theorem eofStep_outputPoll (h : c.outputPoll = some r) : c.EofStep r.1 r.2 := by
  have hstream : c.EofStep c.pollStream.1 c.pollStream.2 ∧
      ∀ bytes, .extendedData bytes ∉ c.pollStream.2 := by
    unfold pollStream
    dsimp only
    split
    · exact ⟨.silent rfl rfl, fun _ => List.not_mem_nil⟩
    · exact ⟨.keep rfl rfl (by simp) (by simp), by simp⟩
  have hempty : c.EofStep c.pollEmpty.1 c.pollEmpty.2 ∧
      ∀ bytes, .extendedData bytes ∉ c.pollEmpty.2 := by
    unfold pollEmpty
    split
    · exact c.eofStep_ibufEmpty
    · exact ⟨.silent rfl rfl, fun _ => List.not_mem_nil⟩
  unfold outputPoll at h
  split at h
  · obtain rfl := Option.some.inj h
    exact .silent rfl rfl
  split at h
  · split at h
    · obtain ⟨x, -, rfl⟩ := Option.map_eq_some_iff.mp h
      dsimp only
      split
      · exact .silent rfl rfl
      · exact .keep rfl rfl (by simp) (by simp)
    · obtain rfl := Option.some.inj h
      exact hstream.1.trans (eofStep_pollExtended _) hstream.2
  · obtain rfl := Option.some.inj h
    exact hempty.1.trans (eofStep_pollExtended _) hempty.2

/-- An event of a channel that stays. -/
theorem eofStep_act {e : ChanEvent} {d : Channel} (h : c.act e = some (some d, ms)) :
    c.EofStep d ms := by
  cases e with
  | handleRfd r =>
    obtain ⟨⟨⟩, ⟨⟩⟩ := Prod.mk.inj (Option.some.inj h)
    exact c.eofStep_handleRfd r
  | handleWfd w =>
    obtain ⟨x, hx, h⟩ := Option.map_eq_some_iff.mp h
    obtain ⟨hd, rfl⟩ := Prod.mk.inj h
    obtain rfl := Option.some.inj hd
    exact c.eofStep_handleWfd hx
  | handleEfd w r =>
    obtain ⟨⟨⟩, ⟨⟩⟩ := Prod.mk.inj (Option.some.inj h)
    exact c.eofStep_handleEfd w r
  | checkWindow =>
    obtain ⟨⟨⟩, ⟨⟩⟩ := Prod.mk.inj (Option.some.inj h)
    exact c.eofStep_checkWindow
  | preOpen =>
    obtain ⟨⟨⟩, ⟨⟩⟩ := Prod.mk.inj (Option.some.inj h)
    exact c.eofStep_preOpen
  | outputPoll =>
    obtain ⟨x, hx, h⟩ := Option.map_eq_some_iff.mp h
    obtain ⟨hd, rfl⟩ := Prod.mk.inj h
    obtain rfl := Option.some.inj hd
    exact c.eofStep_outputPoll hx
  | garbageCollect cancels =>
    have h : c.garbageCollect cancels = (some d, ms) := Option.some.inj h
    rcases c.garbageCollect_cases cancels with hc | ⟨-, -, -, hc⟩ | ⟨-, hc⟩
    · obtain ⟨hd, rfl⟩ := Prod.mk.inj (hc.symm.trans h)
      obtain rfl := Option.some.inj hd
      exact .silent rfl rfl
    · obtain ⟨hd, rfl⟩ := Prod.mk.inj (hc.symm.trans h)
      obtain rfl := Option.some.inj hd
      exact .keep rfl rfl (by simp) (by simp)
    · cases (Prod.mk.inj (hc.symm.trans h)).1

/-- A freed channel has sent `CLOSE` at most. -/
theorem no_extended_of_freed {e : ChanEvent} (h : c.act e = some (none, ms)) (bytes : List UInt8) :
    .extendedData bytes ∉ ms := by
  cases e with
  | garbageCollect cancels =>
    have h : c.garbageCollect cancels = (none, ms) := Option.some.inj h
    rcases c.garbageCollect_cases cancels with hc | ⟨-, -, -, hc⟩ | ⟨-, hc⟩
    · cases (Prod.mk.inj (hc.symm.trans h)).1
    · cases (Prod.mk.inj (hc.symm.trans h)).1
    · obtain rfl := (Prod.mk.inj (hc.symm.trans h)).2
      split <;> simp
  | handleRfd r => cases (Prod.mk.inj (Option.some.inj h)).1
  | handleEfd w r => cases (Prod.mk.inj (Option.some.inj h)).1
  | checkWindow => cases (Prod.mk.inj (Option.some.inj h)).1
  | preOpen => cases (Prod.mk.inj (Option.some.inj h)).1
  | handleWfd w =>
    obtain ⟨x, -, h⟩ := Option.map_eq_some_iff.mp h
    cases (Prod.mk.inj h).1
  | outputPoll =>
    obtain ⟨x, -, h⟩ := Option.map_eq_some_iff.mp h
    cases (Prod.mk.inj h).1

/-- A channel that has received `m`, as far as the end of the file is concerned. -/
def rcvdMark (m : ChanMsg) : Channel := { c with eofRcvd := c.eofRcvd || m = .eof }

theorem rcvdMark_of_ne {m : ChanMsg} (h : m ≠ .eof) : c.rcvdMark m = c := by
  simp [rcvdMark, h]

theorem eofStep_rcvdIeof : EofStep { c with eofRcvd := true } c.rcvdIeof [] := by
  have h2 : EofStep { c with eofRcvd := true } c.rcvdEof2 [] := by
    unfold rcvdEof2
    dsimp only
    split
    · exact .silent rfl rfl
    · exact .silent rfl rfl
  unfold rcvdIeof
  dsimp only
  split
  · exact h2.after c.rcvdEof2.eofStep_obufEmpty
  · exact h2

/-- A message for a channel that is open. -/
theorem eofStep_receive {m : ChanMsg} (h : c.receive m = some r) :
    (c.rcvdMark m).EofStep r.1 r.2 := by
  cases m with
  | data bytes =>
    rw [rcvdMark_of_ne c (by simp)]
    obtain rfl := Option.some.inj h
    show c.EofStep (c.inputData bytes) []
    unfold inputData
    split
    · exact .silent rfl rfl
    split
    · exact .silent rfl rfl
    · exact .silent rfl rfl
  | extendedData bytes =>
    rw [rcvdMark_of_ne c (by simp)]
    obtain ⟨d, hd, rfl⟩ := Option.map_eq_some_iff.mp h
    unfold inputExtendedData at hd
    split at hd
    · cases hd
    split at hd
    · cases hd
      exact .silent rfl rfl
    split at hd
    · cases hd
      exact .silent rfl rfl
    · cases hd
      exact .silent rfl rfl
  | windowAdjust n =>
    rw [rcvdMark_of_ne c (by simp)]
    obtain rfl := Option.some.inj h
    exact .silent rfl rfl
  | eof =>
    obtain rfl := Option.some.inj h
    have hmark : c.rcvdMark .eof = { c with eofRcvd := true } := by simp [rcvdMark]
    rw [hmark]
    unfold inputIeof
    dsimp only
    refine c.eofStep_rcvdIeof.after ?_
    split
    · split
      · have h := (eofStep_ibufEmpty { c.rcvdIeof with istate := .waitDrain }).1
        exact ⟨h.sent, h.eof, h.extended, h.rcvd⟩
      · exact .silent rfl rfl
    · exact .silent rfl rfl
  | close =>
    rw [rcvdMark_of_ne c (by simp)]
    obtain rfl := Option.some.inj h
    exact c.eofStep_rcvdClose2
  | eow =>
    rw [rcvdMark_of_ne c (by simp)]
    obtain rfl := Option.some.inj h
    exact c.eofStep_rcvdEow

end Functions

end Channel

/-! ## Whole runs -/

/-- **The end of the file seen from the end `p`.** -/
structure EndEof (p q : ChanEnd) : Prop where
  taken : p.taken ≤ q.sent.length
  /-- Extended data is ahead of `EOF`. -/
  order : ∀ (i j : ℕ) (bytes : List UInt8),
    p.sent[i]? = some .eof → p.sent[j]? = some (.extendedData bytes) → j < i
  sent : ∀ c, p.state = some c → .eof ∈ p.sent → c.eofSent = true
  rcvd : ∀ c, p.state = some c → c.eofRcvd = true → .eof ∈ q.sent.take p.taken

namespace EndEof

variable {p q : ChanEnd}

/-- The peer's view when `p` sends something. -/
theorem sends {p' : ChanEnd} (h : EndEof q p) (hp' : p'.sent = p.sent ++ ms) :
    EndEof q p' where
  taken := by
    rw [hp', List.length_append]
    exact h.taken.trans (Nat.le_add_right _ _)
  order := h.order
  sent := h.sent
  rcvd c hc hr := by
    rw [hp', List.take_append_of_le_length h.taken]
    exact h.rcvd c hc hr

/-- More messages keep the order: extended data needs that no `EOF` has been sent. -/
theorem order_append {sent : List ChanMsg}
    (h : ∀ (i j : ℕ) (bytes : List UInt8),
      sent[i]? = some .eof → sent[j]? = some (.extendedData bytes) → j < i)
    (hms : ∀ bytes, .extendedData bytes ∈ ms → .eof ∉ sent ++ ms) (i j : ℕ) (bytes : List UInt8)
    (hi : (sent ++ ms)[i]? = some .eof) (hj : (sent ++ ms)[j]? = some (.extendedData bytes)) :
    j < i := by
  have hmem := List.mem_of_getElem? hi
  rw [List.getElem?_append] at hi hj
  split at hj
  · split at hi
    · exact h i j bytes hi hj
    · omega
  · exact absurd hmem (hms bytes (List.mem_of_getElem? hj))

/-- The end `p` takes a message. -/
theorem takes {m : ChanMsg} {c : Channel} (h : EndEof p q) (hm : q.sent[p.taken]? = some m)
    (hc : p.state = some c) : EndEof { p.take with state := some (c.rcvdMark m) } q where
  taken := (List.getElem?_eq_some_iff.mp hm).1
  order := h.order
  sent := by
    rintro _ ⟨⟩
    exact h.sent c hc
  rcvd := by
    rintro _ ⟨⟩ hr
    show .eof ∈ q.sent.take (p.taken + 1)
    rw [List.take_add_one, hm, List.mem_append]
    rcases Bool.or_eq_true_iff.mp hr with hr | hr
    · exact .inl (h.rcvd c hc hr)
    · exact .inr (List.mem_singleton.mpr (of_decide_eq_true hr).symm)

/-- The invariant and an event after which the channel stays. -/
theorem stays {c c' : Channel} (h : EndEof p q) (hc : p.state = some c) (hs : c.EofStep c' ms) :
    EndEof (p.after (some c', ms)) q where
  taken := h.taken
  order := order_append h.order fun bytes hm hmem => by
    have hnone := hs.extended bytes hm
    rcases List.mem_append.mp hmem with hmem | hmem
    · rw [hs.sent (h.sent c hc hmem)] at hnone
      cases hnone
    · rw [hs.eof hmem] at hnone
      cases hnone
  sent := by
    rintro _ ⟨⟩ hm
    rcases List.mem_append.mp hm with hm | hm
    · exact hs.sent (h.sent c hc hm)
    · exact hs.eof hm
  rcvd := by
    rintro _ ⟨⟩ hr
    exact h.rcvd c hc (hs.rcvd.symm.trans hr)

/-- The invariant when the channel is freed. -/
theorem freed (h : EndEof p q) (hms : ∀ bytes, .extendedData bytes ∉ ms) :
    EndEof (p.after (none, ms)) q where
  taken := h.taken
  order := order_append h.order fun bytes hm => absurd hm (hms bytes)
  sent c hc := by cases hc
  rcvd c hc := by cases hc

/-- **Step lemma.**  A move of `p` keeps the invariant for both ends. -/
theorem move {p' : ChanEnd} {o : Option ChanEvent} (hclosing : EndClosing p q)
    (hclosing' : EndClosing q p) (h : EndEof p q) (hq : EndEof q p)
    (hm : Duplex.Move channelMachine p q o p') : EndEof p' q ∧ EndEof q p' := by
  cases hm with
  | @act e r hact =>
    obtain ⟨c, hc, hact⟩ := Option.bind_eq_some_iff.mp hact
    refine ⟨?_, hq.sends rfl⟩
    obtain ⟨d, ms⟩ := r
    cases d with
    | none => exact h.freed (c.no_extended_of_freed hact)
    | some d => exact h.stays hc (c.eofStep_act hact)
  | @receive m r hm hrecv =>
    rcases hp : p.state with _ | c
    · have hnil := hclosing.incoming_eq_nil hclosing' hp
      rw [Duplex.incoming_take hm] at hnil
      cases hnil
    · rw [hp] at hrecv
      obtain ⟨x, hx, rfl⟩ := Option.map_eq_some_iff.mp hrecv
      exact ⟨(h.takes hm hp).stays rfl (c.eofStep_receive hx), hq.sends rfl⟩

end EndEof

/-- **Run lemma.** -/
theorem eof_run {c : Bool → Channel} (hc : ∀ b, (c b).Fresh)
    {es : List (Duplex.Event ChanEvent)} {s : Bool → ChanEnd}
    (h : run chanStep (established c) es = some s) : ∀ b, EndEof (s b) (s !b) := by
  have hstart : run chanStep (established c) [] = some (established c) := rfl
  have hrun : (∀ b, EndClosing (s b) (s !b)) ∧ ∀ b, EndEof (s b) (s !b) := by
    refine inv_run (I := fun s => (∀ b, EndClosing (s b) (s !b)) ∧ ∀ b, EndEof (s b) (s !b))
      (fun s e s' hs hstep => ⟨Duplex.inv_step (fun h hq => h.move hq) hstep hs.1, ?_⟩) h
      ⟨closing_run hc hstart, fun b => ?_⟩
    · refine Duplex.inv_step (fun h hq hm => EndEof.move (hs.1 _) ?_ h hq hm) hstep hs.2
      have := hs.1 !e.side
      rwa [Bool.not_not] at this
    · exact {
        taken := Nat.zero_le _
        order := fun i j bytes hi => absurd hi (by simp [established])
        sent := fun d _ hm => absurd hm List.not_mem_nil
        rcvd := by
          rintro _ ⟨⟩ hr
          exact absurd hr (by rw [(hc b).eofRcvd]; exact Bool.false_ne_true) }
  exact hrun.2

/-- **The next message of a channel is accepted.** -/
theorem receive_isSome {c : Bool → Channel} (hc : ∀ b, (c b).Fresh)
    {es : List (Duplex.Event ChanEvent)} {s : Bool → ChanEnd}
    (h : run chanStep (established c) es = some s) {b : Bool} {m : ChanMsg}
    (hm : (s !b).sent[(s b).taken]? = some m) :
    ∃ d r, (s b).state = some d ∧ d.receive m = some r := by
  have hclosing := closing_run hc h
  have heof := eof_run hc h
  rcases hstate : (s b).state with _ | d
  · have hpeer := hclosing !b
    rw [Bool.not_not] at hpeer
    have hnil := (hclosing b).incoming_eq_nil hpeer hstate
    rw [Duplex.incoming_take hm] at hnil
    cases hnil
  refine ⟨d, ?_⟩
  cases m with
  | data bytes => exact ⟨_, rfl, rfl⟩
  | windowAdjust n => exact ⟨_, rfl, rfl⟩
  | eof => exact ⟨_, rfl, rfl⟩
  | close => exact ⟨_, rfl, rfl⟩
  | eow => exact ⟨_, rfl, rfl⟩
  | extendedData bytes =>
    have hopen : d.eofRcvd = false := by
      rw [Bool.eq_false_iff]
      intro hr
      obtain ⟨i, hi⟩ := List.mem_iff_getElem?.mp ((heof b).rcvd d hstate hr)
      rw [List.getElem?_take] at hi
      split at hi
      · have := (heof !b).order i (s b).taken bytes hi hm
        omega
      · cases hi
    have hsome : ∃ d', d.inputExtendedData bytes = some d' := by
      unfold Channel.inputExtendedData
      rw [hopen, if_neg Bool.false_ne_true]
      split
      · exact ⟨_, rfl⟩
      split
      · exact ⟨_, rfl⟩
      · exact ⟨_, rfl⟩
    obtain ⟨d', hd'⟩ := hsome
    exact ⟨(d', []), rfl, by rw [Channel.receive, hd']; rfl⟩

end CSBuFLO
