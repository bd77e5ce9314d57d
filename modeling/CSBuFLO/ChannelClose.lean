/-
# The close handshake (`nchan.c`)

Both ends of an open channel run `nchan.c`; local reads and writes may fail, buffers drain and
messages arrive in any order of events.  One event can do three things to a channel
(`Channel.Handshake`): keep it going (`Channel.Stays`), send `CLOSE`, or free it.  Only
`channel_garbage_collect` does the last two.

`close_handshake` is what follows for whole runs: each end sends at most one `EOF` and at most one
`CLOSE`, nothing after `CLOSE`, and frees the channel only when `CLOSE` has gone both ways, so
that nothing can arrive for a freed channel.
-/
import CSBuFLO.Channel

namespace CSBuFLO

open Transition

/-! ## What one event does to the handshake -/

/-- **A step that does not close the channel.**  A closed half stays closed; an `EOF` is sent at
most once, and closes the input half; a channel that has sent `CLOSE` sends nothing. -/
structure Channel.Stays (c c' : Channel) (ms : List ChanMsg) : Prop where
  istate : c.istate = .closed → c'.istate = .closed
  ostate : c.ostate = .closed → c'.ostate = .closed
  closeSent : c'.closeSent = c.closeSent
  closeRcvd : c'.closeRcvd = c.closeRcvd
  noClose : .close ∉ ms
  eof : .eof ∈ ms → c.istate ≠ .closed ∧ c'.istate = .closed
  eofOnce : ms.count .eof ≤ 1
  quiet : c.closeSent = true → c.istate = .closed → c.ostate = .closed → ms = []

/-- **What one event does**: the channel goes on, sends `CLOSE`, or is freed. -/
inductive Channel.Handshake (c : Channel) : Option Channel × List ChanMsg → Prop where
  | stays {c' : Channel} {ms : List ChanMsg} (h : c.Stays c' ms) : Handshake c (some c', ms)
  | close {c' : Channel} (hsent : c.closeSent = false) (hsent' : c'.closeSent = true)
      (hrcvd : c'.closeRcvd = c.closeRcvd) (hi : c'.istate = .closed) (ho : c'.ostate = .closed) :
      Handshake c (some c', [.close])
  | free (hrcvd : c.closeRcvd = true) :
      Handshake c (none, if c.closeSent then [] else [.close])

/-- Two lists with at most one `a` each, and not both. -/
theorem count_append_le_one {μ : Type} [DecidableEq μ] {a : μ} {l m : List μ}
    (hl : l.count a ≤ 1) (hm : m.count a ≤ 1) (h : a ∈ l → a ∉ m) : (l ++ m).count a ≤ 1 := by
  rw [List.count_append]
  by_cases ha : a ∈ l
  · rw [List.count_eq_zero_of_not_mem (h ha)]
    exact hl
  · rw [List.count_eq_zero_of_not_mem ha, zero_add]
    exact hm

namespace Channel

variable {c c' c'' : Channel} {ms ms' : List ChanMsg}

/-- Steps that send nothing. -/
theorem Stays.silent (hi : c.istate = .closed → c'.istate = .closed)
    (ho : c.ostate = .closed → c'.ostate = .closed)
    (hs : c'.closeSent = c.closeSent) (hr : c'.closeRcvd = c.closeRcvd) : c.Stays c' [] where
  istate := hi
  ostate := ho
  closeSent := hs
  closeRcvd := hr
  noClose := List.not_mem_nil
  eof h := absurd h List.not_mem_nil
  eofOnce := Nat.zero_le 1
  quiet _ _ _ := rfl

theorem Stays.refl (c : Channel) : c.Stays c [] := .silent id id rfl rfl

/-- Steps that leave the handshake alone and send a message before `CLOSE`. -/
theorem Stays.send {m : ChanMsg} (hi : c'.istate = c.istate) (ho : c'.ostate = c.ostate)
    (hs : c'.closeSent = c.closeSent) (hr : c'.closeRcvd = c.closeRcvd)
    (hopen : c.closeSent = false) (hclose : m ≠ .close) (heof : m ≠ .eof) : c.Stays c' [m] where
  istate h := hi.trans h
  ostate h := ho.trans h
  closeSent := hs
  closeRcvd := hr
  noClose h := hclose (List.mem_singleton.mp h).symm
  eof h := absurd (List.mem_singleton.mp h).symm heof
  eofOnce := List.count_le_length
  quiet h := absurd h (by rw [hopen]; exact Bool.false_ne_true)

theorem Stays.trans (h : c.Stays c' ms) (h' : c'.Stays c'' ms') : c.Stays c'' (ms ++ ms') where
  istate hi := h'.istate (h.istate hi)
  ostate ho := h'.ostate (h.ostate ho)
  closeSent := h'.closeSent.trans h.closeSent
  closeRcvd := h'.closeRcvd.trans h.closeRcvd
  noClose hm := (List.mem_append.mp hm).elim h.noClose h'.noClose
  eof hm := by
    rcases List.mem_append.mp hm with hm | hm
    · exact ⟨(h.eof hm).1, h'.istate (h.eof hm).2⟩
    · exact ⟨fun hi => (h'.eof hm).1 (h.istate hi), (h'.eof hm).2⟩
  eofOnce := count_append_le_one h.eofOnce h'.eofOnce fun hm hm' => (h'.eof hm').1 (h.eof hm).2
  quiet hs hi ho := by
    rw [h.quiet hs hi ho, h'.quiet (h.closeSent.trans hs) (h.istate hi) (h.ostate ho)]
    rfl

/-- A silent step before another. -/
theorem Stays.after (h : c.Stays c' []) (h' : c'.Stays c'' ms) : c.Stays c'' ms := h.trans h'

variable (c)

/-! ### `nchan.c` -/

theorem stays_readFailed : c.Stays c.readFailed [] := by
  unfold readFailed
  split
  · rename_i hi
    exact .silent (fun h => absurd (hi.symm.trans h) (by decide)) id rfl rfl
  · exact .refl c

/-- An `EOF` that closes the input half. -/
theorem stays_sendEof2 (hi : c.istate = .waitDrain) :
    c.Stays { c.sendEof2.1 with istate := .closed } c.sendEof2.2 := by
  have hne : c.istate ≠ .closed := by
    rw [hi]
    decide
  have hsend : c.sendEof2 = ({ c with eofSent := true }, [.eof]) := by
    unfold sendEof2
    split
    · rfl
    · contradiction
  rw [hsend]
  exact {
    istate := fun _ => rfl
    ostate := id
    closeSent := rfl
    closeRcvd := rfl
    noClose := by simp
    eof := fun _ => ⟨hne, rfl⟩
    eofOnce := by simp
    quiet := fun _ h => absurd h hne }

theorem stays_ibufEmpty : c.Stays c.ibufEmpty.1 c.ibufEmpty.2 := by
  unfold ibufEmpty
  split
  · exact .refl c
  · split
    · rename_i hi
      dsimp only
      split
      · exact .silent (fun _ => rfl) id rfl rfl
      · exact c.stays_sendEof2 hi
    · exact .refl c

theorem stays_obufEmpty : c.Stays c.obufEmpty [] := by
  unfold obufEmpty
  split
  · exact .refl c
  · split
    · exact .silent id (fun _ => rfl) rfl rfl
    · exact .refl c

/-- `eow` is sent only by the step that closes the output half. -/
theorem stays_writeFailed2 : c.Stays c.writeFailed2.1 c.writeFailed2.2 := by
  unfold writeFailed2
  split
  · exact .refl c
  · rename_i ho
    have heow : c.shutdownWrite.sendEow2 = [.eow] := if_neg ho
    dsimp only
    rw [heow]
    split
    · exact {
        istate := id
        ostate := fun _ => rfl
        closeSent := rfl
        closeRcvd := rfl
        noClose := by decide
        eof := fun h => absurd h (by decide)
        eofOnce := by decide
        quiet := fun _ _ h => absurd h ho }
    · exact .silent id (fun _ => rfl) rfl rfl

/-- `CLOSE` received: the input half is closed, with the `EOF` it may still owe. -/
theorem stays_rcvdClose2 :
    Stays { c with closeRcvd := true } c.rcvdClose2.1 c.rcvdClose2.2 := by
  unfold rcvdClose2
  dsimp only
  set d : Channel := if c.ostate = .opened then { c with closeRcvd := true, ostate := .waitDrain }
    else { c with closeRcvd := true } with hd
  have hsilent : Stays { c with closeRcvd := true } d [] := by
    rw [hd]
    split
    · rename_i ho
      exact .silent id (fun h => absurd (ho.symm.trans h) (by decide)) rfl rfl
    · exact .refl _
  refine hsilent.after ?_
  split
  · exact .silent (fun _ => rfl) id rfl rfl
  · rename_i hi
    exact d.stays_sendEof2 hi
  · exact .refl d

theorem stays_rcvdEow : c.Stays c.rcvdEow [] := by
  unfold rcvdEow
  split
  · exact .silent (fun _ => rfl) id rfl rfl
  · exact .refl c

theorem stays_rcvdEof2 : c.Stays c.rcvdEof2 [] := by
  unfold rcvdEof2
  dsimp only
  split
  · rename_i ho
    exact .silent id (fun h => absurd (ho.symm.trans h) (by decide)) rfl rfl
  · exact .silent id id rfl rfl

theorem stays_rcvdIeof : c.Stays c.rcvdIeof [] := by
  unfold rcvdIeof
  dsimp only
  split
  · exact c.stays_rcvdEof2.after c.rcvdEof2.stays_obufEmpty
  · exact c.stays_rcvdEof2

/-! ### `channels.c` -/

theorem stays_preOpen : c.Stays c.preOpen [] := by
  unfold preOpen
  split
  · exact c.stays_obufEmpty
  · exact .refl c

theorem stays_handleRfd (r : FdRead) : c.Stays (c.handleRfd r) [] := by
  unfold handleRfd
  split
  · exact .refl c
  · split
    · exact c.stays_readFailed
    · exact .refl c
  · split
    · exact c.stays_readFailed
    · exact .refl c
  · split
    · exact .silent id id rfl rfl
    · exact .refl c

variable {r : Channel × List ChanMsg}

theorem stays_handleWfd {w : FdWrite} (h : c.handleWfd w = some r) : c.Stays r.1 r.2 := by
  unfold handleWfd at h
  split at h
  · obtain rfl := Option.some.inj h
    exact .refl c
  split at h
  · obtain ⟨x, -, rfl⟩ := Option.map_eq_some_iff.mp h
    -- The datagram has left the buffer, whatever the write returned.
    have hout : c.Stays { c with output := x.2 } [] := .silent id id rfl rfl
    split
    · exact hout
    · exact hout.after (stays_writeFailed2 _)
    · exact hout.after (stays_writeFailed2 _)
    · exact .silent id id rfl rfl
  · obtain rfl := Option.some.inj h
    split
    · exact .refl c
    · exact c.stays_writeFailed2
    · exact c.stays_writeFailed2
    · exact .silent id id rfl rfl

theorem stays_handleEfd (w : FdWrite) (r : FdRead) : c.Stays (c.handleEfd w r) [] := by
  unfold handleEfd
  split
  · exact .refl c
  split
  · split
    · exact .refl c
    · unfold writeEfd
      split <;> exact .silent id id rfl rfl
  · unfold readEfd
    split
    · exact .refl c
    · exact .silent id id rfl rfl
    · exact .silent id id rfl rfl
    · split
      · exact .refl c
      · exact .silent id id rfl rfl

theorem stays_checkWindow : c.Stays c.checkWindow.1 c.checkWindow.2 := by
  unfold checkWindow
  split
  · rename_i h
    exact .send rfl rfl rfl rfl h.1 (by simp) (by simp)
  · exact .refl c

theorem stays_pollExtended (hopen : c.closeSent = false) :
    c.Stays c.pollExtended.1 c.pollExtended.2 := by
  unfold pollExtended
  split
  · exact .send rfl rfl rfl rfl hopen (by simp) (by simp)
  · exact .refl c

theorem stays_pollDatagram (hopen : c.closeSent = false) (h : c.pollDatagram = some r) :
    c.Stays r.1 r.2 := by
  obtain ⟨x, -, rfl⟩ := Option.map_eq_some_iff.mp h
  dsimp only
  split
  · exact .silent id id rfl rfl
  · exact .send rfl rfl rfl rfl hopen (by simp) (by simp)

theorem stays_pollStream (hopen : c.closeSent = false) :
    c.Stays c.pollStream.1 c.pollStream.2 := by
  unfold pollStream
  dsimp only
  split
  · exact .refl c
  · exact .send rfl rfl rfl rfl hopen (by simp) (by simp)

theorem stays_pollEmpty : c.Stays c.pollEmpty.1 c.pollEmpty.2 := by
  unfold pollEmpty
  split
  · exact c.stays_ibufEmpty
  · exact .refl c

theorem stays_outputPoll (h : c.outputPoll = some r) : c.Stays r.1 r.2 := by
  unfold outputPoll at h
  split at h
  · obtain rfl := Option.some.inj h
    exact .refl c
  rename_i hflags
  have hopen : c.closeSent = false := Bool.eq_false_iff.mpr fun hs => hflags (.inl hs)
  split at h
  · split at h
    · exact c.stays_pollDatagram hopen h
    · obtain rfl := Option.some.inj h
      have hstream := c.stays_pollStream hopen
      exact hstream.trans (stays_pollExtended _ (hstream.closeSent.trans hopen))
  · obtain rfl := Option.some.inj h
    have hempty := c.stays_pollEmpty
    exact hempty.trans (stays_pollExtended _ (hempty.closeSent.trans hopen))

theorem stays_inputData (bytes : List UInt8) : c.Stays (c.inputData bytes) [] := by
  unfold inputData
  split
  · exact .silent id id rfl rfl
  split
  · exact .refl c
  · exact .silent id id rfl rfl

theorem stays_inputExtendedData {bytes : List UInt8} {d : Channel}
    (h : c.inputExtendedData bytes = some d) : c.Stays d [] := by
  unfold inputExtendedData at h
  split at h
  · cases h
  split at h
  · obtain rfl := Option.some.inj h
    exact .refl c
  split at h
  · obtain rfl := Option.some.inj h
    exact .refl c
  · obtain rfl := Option.some.inj h
    exact .silent id id rfl rfl

/-- The forced drain only moves an open input half. -/
theorem stays_inputIeof : c.Stays c.inputIeof.1 c.inputIeof.2 := by
  unfold inputIeof
  dsimp only
  refine c.stays_rcvdIeof.after ?_
  set d := c.rcvdIeof
  split
  · rename_i hforce
    have hdrain : d.Stays { d with istate := .waitDrain } [] :=
      .silent (fun h => absurd (hforce.2.symm.trans h) (by decide)) id rfl rfl
    split
    · exact hdrain.after (stays_ibufEmpty _)
    · exact hdrain
  · exact .refl d

/-- Only the garbage collector sends `CLOSE` and frees the channel. -/
theorem handshake_garbageCollect (cancels : Bool) :
    c.Handshake (c.garbageCollect cancels) := by
  rcases c.garbageCollect_cases cancels with hgc | ⟨hi, ho, hs, hgc⟩ | ⟨hr, hgc⟩
  · rw [hgc]
    exact .stays (.refl c)
  · rw [hgc]
    exact .close hs rfl rfl hi ho
  · rw [hgc]
    exact .free hr

/-! ### Events and messages -/

/-- **Step lemma** for the local events. -/
theorem handshake_act {e : ChanEvent} {r : Option Channel × List ChanMsg}
    (h : c.act e = some r) : c.Handshake r := by
  cases e with
  | handleRfd r => exact Option.some.inj h ▸ .stays (c.stays_handleRfd r)
  | handleWfd w =>
    obtain ⟨x, hx, rfl⟩ := Option.map_eq_some_iff.mp h
    exact .stays (c.stays_handleWfd hx)
  | handleEfd w r => exact Option.some.inj h ▸ .stays (c.stays_handleEfd w r)
  | checkWindow => exact Option.some.inj h ▸ .stays c.stays_checkWindow
  | preOpen => exact Option.some.inj h ▸ .stays c.stays_preOpen
  | outputPoll =>
    obtain ⟨x, hx, rfl⟩ := Option.map_eq_some_iff.mp h
    exact .stays (c.stays_outputPoll hx)
  | garbageCollect cancels => exact Option.some.inj h ▸ c.handshake_garbageCollect cancels

/-- A channel that has received `m`, as far as the handshake is concerned. -/
def rcvd (m : ChanMsg) : Channel := { c with closeRcvd := c.closeRcvd || m = .close }

/-- **Step lemma** for the messages of the peer. -/
theorem stays_receive {m : ChanMsg} (h : c.receive m = some r) : (c.rcvd m).Stays r.1 r.2 := by
  have hother : m ≠ .close → c.rcvd m = c := by
    intro hm
    simp [rcvd, hm]
  cases m with
  | data bytes =>
    rw [hother (by simp)]
    exact Option.some.inj h ▸ c.stays_inputData bytes
  | extendedData bytes =>
    rw [hother (by simp)]
    obtain ⟨d, hd, rfl⟩ := Option.map_eq_some_iff.mp h
    exact c.stays_inputExtendedData hd
  | windowAdjust n =>
    rw [hother (by simp)]
    exact Option.some.inj h ▸ .silent id id rfl rfl
  | eof =>
    rw [hother (by simp)]
    exact Option.some.inj h ▸ c.stays_inputIeof
  | close =>
    have hclose : c.rcvd .close = { c with closeRcvd := true } := by simp [rcvd]
    rw [hclose]
    exact Option.some.inj h ▸ c.stays_rcvdClose2
  | eow =>
    rw [hother (by simp)]
    exact Option.some.inj h ▸ c.stays_rcvdEow

end Channel

/-! ## Whole runs -/

/-- **What an end sends in all**: at most one `EOF`, at most one `CLOSE`, and nothing after it. -/
structure OrderlyClose (sent : List ChanMsg) : Prop where
  eofOnce : sent.count .eof ≤ 1
  closeOnce : sent.count .close ≤ 1
  closeLast : ∀ i, sent[i]? = some .close → i + 1 = sent.length

theorem OrderlyClose.nil : OrderlyClose [] where
  eofOnce := Nat.zero_le 1
  closeOnce := Nat.zero_le 1
  closeLast i hi := absurd hi (by simp)

/-- More messages keep the log orderly: none after `CLOSE`, no second `EOF`, and `CLOSE` alone. -/
theorem OrderlyClose.append {sent ms : List ChanMsg} (h : OrderlyClose sent)
    (hquiet : .close ∈ sent → ms = []) (heof : .eof ∈ sent → .eof ∉ ms)
    (honce : ms.count .eof ≤ 1) (hclose : .close ∉ ms ∨ ms = [.close]) :
    OrderlyClose (sent ++ ms) := by
  by_cases hsent : .close ∈ sent
  · rw [hquiet hsent, List.append_nil]
    exact h
  · refine ⟨count_append_le_one h.eofOnce honce heof,
      count_append_le_one h.closeOnce ?_ fun hm => absurd hm hsent, fun i hi => ?_⟩
    · rcases hclose with hclose | rfl
      · rw [List.count_eq_zero_of_not_mem hclose]
        exact Nat.zero_le 1
      · exact List.count_le_length
    · rw [List.getElem?_append] at hi
      split at hi
      · exact absurd (List.mem_of_getElem? hi) hsent
      · rcases hclose with hclose | rfl
        · exact absurd (List.mem_of_getElem? hi) hclose
        · have hlt := (List.getElem?_eq_some_iff.mp hi).1
          rw [List.length_append, List.length_singleton] at *
          omega

/-- **The handshake seen from the end `p`**: what `p` has sent and taken agrees with the flags of
its channel. -/
structure EndClosing (p q : ChanEnd) : Prop where
  taken : p.taken ≤ q.sent.length
  log : OrderlyClose p.sent
  eofSent : ∀ c, p.state = some c → .eof ∈ p.sent → c.istate = .closed
  closeSent : ∀ c, p.state = some c → (c.closeSent = true ↔ .close ∈ p.sent)
  closed : ∀ c, p.state = some c → c.closeSent = true → c.istate = .closed ∧ c.ostate = .closed
  closeRcvd : ∀ c, p.state = some c → c.closeRcvd = true → .close ∈ q.sent.take p.taken
  freed : p.state = none → .close ∈ p.sent ∧ .close ∈ q.sent.take p.taken

namespace EndClosing

variable {p q : ChanEnd}

/-- The peer's view when `p` sends something. -/
theorem sends {p' : ChanEnd} {ms : List ChanMsg} (h : EndClosing q p)
    (hp' : p'.sent = p.sent ++ ms) : EndClosing q p' := by
  have hmem : .close ∈ p.sent.take q.taken → .close ∈ p'.sent.take q.taken := by
    intro hm
    rw [hp', List.take_append_of_le_length h.taken]
    exact hm
  exact { h with
    taken := by
      rw [hp', List.length_append]
      exact h.taken.trans (Nat.le_add_right _ _)
    closeRcvd := fun c hc hr => hmem (h.closeRcvd c hc hr)
    freed := fun hq => ⟨(h.freed hq).1, hmem (h.freed hq).2⟩ }

/-- The end `p` takes a message. -/
theorem takes {m : ChanMsg} {c : Channel} (h : EndClosing p q) (hm : q.sent[p.taken]? = some m)
    (hc : p.state = some c) : EndClosing { p.take with state := some (c.rcvd m) } q := by
  have htake : q.sent.take (p.taken + 1) = q.sent.take p.taken ++ [m] :=
    List.take_add_one.trans (by rw [hm]; rfl)
  exact {
    taken := (List.getElem?_eq_some_iff.mp hm).1
    log := h.log
    eofSent := by
      rintro _ ⟨⟩
      exact h.eofSent c hc
    closeSent := by
      rintro _ ⟨⟩
      exact h.closeSent c hc
    closed := by
      rintro _ ⟨⟩
      exact h.closed c hc
    closeRcvd := by
      rintro _ ⟨⟩ hr
      show .close ∈ q.sent.take (p.taken + 1)
      rw [htake, List.mem_append, List.mem_singleton]
      rcases Bool.or_eq_true_iff.mp hr with hr | hr
      · exact .inl (h.closeRcvd c hc hr)
      · exact .inr (of_decide_eq_true hr).symm
    freed := fun hnone => absurd hnone (by simp) }

/-- The invariant and a step that does not close the channel. -/
theorem stays {c c' : Channel} {ms : List ChanMsg} (h : EndClosing p q) (hc : p.state = some c)
    (hs : c.Stays c' ms) : EndClosing (p.after (some c', ms)) q where
  taken := h.taken
  log := by
    refine h.log.append (fun hm => ?_) (fun hm hm' => (hs.eof hm').1 (h.eofSent c hc hm))
      hs.eofOnce (.inl hs.noClose)
    have hsent := (h.closeSent c hc).mpr hm
    obtain ⟨hi, ho⟩ := h.closed c hc hsent
    exact hs.quiet hsent hi ho
  eofSent := by
    rintro _ ⟨⟩ hm
    rcases List.mem_append.mp hm with hm | hm
    · exact hs.istate (h.eofSent c hc hm)
    · exact (hs.eof hm).2
  closeSent := by
    rintro _ ⟨⟩
    rw [hs.closeSent, h.closeSent c hc]
    exact ⟨List.mem_append_left _, fun hm => (List.mem_append.mp hm).resolve_right hs.noClose⟩
  closed := by
    rintro _ ⟨⟩ hsent
    obtain ⟨hi, ho⟩ := h.closed c hc (hs.closeSent.symm.trans hsent)
    exact ⟨hs.istate hi, hs.ostate ho⟩
  closeRcvd := by
    rintro _ ⟨⟩ hr
    exact h.closeRcvd c hc (hs.closeRcvd.symm.trans hr)
  freed hnone := absurd hnone (by simp [Duplex.Party.after])

/-- **The invariant and one event** of a live channel. -/
theorem handshake {c : Channel} {r : Option Channel × List ChanMsg} (h : EndClosing p q)
    (hc : p.state = some c) (hr : c.Handshake r) : EndClosing (p.after r) q := by
  have hsent : c.closeSent = false → .close ∉ p.sent := by
    intro hs hm
    rw [(h.closeSent c hc).mpr hm] at hs
    cases hs
  have hclose : c.closeSent = false → OrderlyClose (p.sent ++ [.close]) := fun hs =>
    h.log.append (fun hm => absurd hm (hsent hs)) (fun _ => by decide) (by decide) (.inr rfl)
  cases hr with
  | stays hstays => exact h.stays hc hstays
  | @close c' hs hs' hrcvd hi ho =>
    exact {
      taken := h.taken
      log := hclose hs
      eofSent := by
        rintro _ ⟨⟩ _
        exact hi
      closeSent := by
        rintro _ ⟨⟩
        exact ⟨fun _ => List.mem_append_right _ List.mem_cons_self, fun _ => hs'⟩
      closed := by
        rintro _ ⟨⟩ _
        exact ⟨hi, ho⟩
      closeRcvd := by
        rintro _ ⟨⟩ hr
        exact h.closeRcvd c hc (hrcvd.symm.trans hr)
      freed := fun hnone => absurd hnone (by simp [Duplex.Party.after]) }
  | free hrcvd =>
    have hlog : OrderlyClose (p.sent ++ if c.closeSent then [] else [.close]) ∧
        .close ∈ p.sent ++ if c.closeSent then [] else [.close] := by
      rcases hs : c.closeSent
      · exact ⟨hclose hs, List.mem_append_right _ List.mem_cons_self⟩
      · exact ⟨(List.append_nil p.sent).symm ▸ h.log,
          List.mem_append_left _ ((h.closeSent c hc).mp hs)⟩
    exact {
      taken := h.taken
      log := hlog.1
      eofSent := fun d hd => absurd hd (by simp [Duplex.Party.after])
      closeSent := fun d hd => absurd hd (by simp [Duplex.Party.after])
      closed := fun d hd => absurd hd (by simp [Duplex.Party.after])
      closeRcvd := fun d hd => absurd hd (by simp [Duplex.Party.after])
      freed := fun _ => ⟨hlog.2, h.closeRcvd c hc hrcvd⟩ }

/-- When `CLOSE` has been taken, nothing is left on its way. -/
theorem incoming_eq_nil (h : EndClosing p q) (hq : EndClosing q p) (hp : p.state = none) :
    p.incoming q = [] := by
  obtain ⟨i, hi⟩ := List.mem_iff_getElem?.mp (h.freed hp).2
  rw [List.getElem?_take] at hi
  split at hi
  · rename_i hlt
    have hlast := hq.log.closeLast i hi
    exact List.drop_eq_nil_of_le (by omega)
  · cases hi

/-- **Step lemma.**  A move of `p` keeps the invariant for both ends. -/
theorem move {p' : ChanEnd} {o : Option ChanEvent} (h : EndClosing p q) (hq : EndClosing q p)
    (hm : Duplex.Move channelMachine p q o p') : EndClosing p' q ∧ EndClosing q p' := by
  cases hm with
  | @act e r hact =>
    obtain ⟨c, hc, hact⟩ := Option.bind_eq_some_iff.mp hact
    exact ⟨h.handshake hc (c.handshake_act hact), hq.sends rfl⟩
  | @receive m r hm hrecv =>
    rcases hp : p.state with _ | c
    · -- A freed channel has nothing left to receive.
      have hnil := h.incoming_eq_nil hq hp
      rw [Duplex.incoming_take hm] at hnil
      cases hnil
    · rw [hp] at hrecv
      obtain ⟨x, hx, rfl⟩ := Option.map_eq_some_iff.mp hrecv
      exact ⟨(h.takes hm hp).stays rfl (c.stays_receive hx), hq.sends rfl⟩

end EndClosing

/-- **Run lemma.**  Every reachable pair of ends satisfies the invariant. -/
theorem closing_run {c : Bool → Channel} (hc : ∀ b, (c b).Fresh)
    {es : List (Duplex.Event ChanEvent)} {s : Bool → ChanEnd}
    (h : run chanStep (established c) es = some s) : ∀ b, EndClosing (s b) (s !b) := by
  refine inv_run (I := fun s => ∀ b, EndClosing (s b) (s !b))
    (fun s e s' hs hstep => Duplex.inv_step (fun h hq => h.move hq) hstep hs) h fun b => ?_
  exact {
    taken := Nat.zero_le _
    log := .nil
    eofSent := fun d _ hm => absurd hm List.not_mem_nil
    closeSent := by
      rintro _ ⟨⟩
      rw [(hc b).closeSent]
      exact ⟨fun h => absurd h Bool.false_ne_true, fun hm => absurd hm List.not_mem_nil⟩
    closed := by
      rintro _ ⟨⟩ hs
      exact absurd hs (by rw [(hc b).closeSent]; exact Bool.false_ne_true)
    closeRcvd := by
      rintro _ ⟨⟩ hr
      exact absurd hr (by rw [(hc b).closeRcvd]; exact Bool.false_ne_true)
    freed := fun hnone => absurd hnone (by simp [established]) }

/-- **The close handshake.**  In every run of an open channel each end sends at most one `EOF`, at
most one `CLOSE` and nothing after it; it frees the channel only after `CLOSE` was both sent and
received, and then no message is on its way to it. -/
theorem close_handshake {c : Bool → Channel} (hc : ∀ b, (c b).Fresh)
    {es : List (Duplex.Event ChanEvent)} {s : Bool → ChanEnd}
    (h : run chanStep (established c) es = some s) (b : Bool) :
    OrderlyClose (s b).sent ∧
      ((s b).state = none → .close ∈ (s b).sent ∧ .close ∈ (s !b).sent.take (s b).taken) ∧
      ((s b).state = none → (s b).incoming (s !b) = []) := by
  have hinv := closing_run hc h
  have hpeer := hinv !b
  rw [Bool.not_not] at hpeer
  exact ⟨(hinv b).log, (hinv b).freed, (hinv b).incoming_eq_nil hpeer⟩

/-- One end reads the end of its file, the other sends two bytes more; both are freed. -/
def closeEvents : List (Duplex.Event ChanEvent) :=
  [.act false (.handleRfd .failed), .act false .outputPoll, .deliver true,
   .act true (.handleRfd (.data [1, 2])), .act true .outputPoll,
   .act true (.handleRfd (.data [])), .act true .outputPoll, .act true (.garbageCollect false),
   .deliver false, .act false (.handleWfd (.wrote 2)), .deliver false, .deliver false,
   .act false (.garbageCollect false), .deliver true, .act true (.garbageCollect false)]

theorem close_handshake_closeEvents :
    ((run chanStep (established fun _ => openChannel 100) closeEvents).map fun s =>
        ((s false).state, (s false).sent, (s true).state, (s true).sent)) =
      some (none, [.eof, .close], none, [.data [1, 2], .eof, .close]) ∧
    ∀ s, run chanStep (established fun _ => openChannel 100) closeEvents = some s → ∀ b,
      OrderlyClose (s b).sent ∧
        ((s b).state = none → .close ∈ (s b).sent ∧ .close ∈ (s !b).sent.take (s b).taken) ∧
        ((s b).state = none → (s b).incoming (s !b) = []) :=
  ⟨by decide +kernel, fun _ h b => close_handshake (fun _ => fresh_openChannel 100) h b⟩

end CSBuFLO
