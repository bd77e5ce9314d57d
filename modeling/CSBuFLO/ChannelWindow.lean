/-
# The channel windows (`channels.c`)

The sender counts what it may still send in `remote_window`, the receiver what it still accepts
in `local_window`; the difference is on its way, as data or as window adjustments.  The receiver's
credit is in `local_window`, `local_consumed` and the bytes it has not written yet
(`Channel.held`), and one event only moves it (`Channel.Flow`).

A datagram is charged with four bytes for its header on both sides, but `channel_output_poll` tests
its length without them, so that `remote_window` can wrap.  `window_safe_iff` says that this is the
only way to overrun a window: a run is safe exactly if every datagram that is sent fits with its
header.
-/
import CSBuFLO.Channel

namespace CSBuFLO

open Transition

/-! ## Charges and credits -/

/-- What a message takes from the window. -/
def ChanMsg.charge (datagram : Bool) : ChanMsg → ℕ
  | .data bytes => bytes.length + if datagram then 4 else 0
  | .extendedData bytes => bytes.length
  | _ => 0

/-- What a message gives back. -/
def ChanMsg.credit : ChanMsg → ℕ
  | .windowAdjust n => n
  | _ => 0

/-- What a list of messages takes from the window. -/
def charges (datagram : Bool) (ms : List ChanMsg) : ℕ := (ms.map (ChanMsg.charge datagram)).sum

/-- What a list of messages gives back. -/
def credits (ms : List ChanMsg) : ℕ := (ms.map ChanMsg.credit).sum

@[simp] theorem charges_nil (datagram : Bool) : charges datagram [] = 0 := rfl

@[simp] theorem credits_nil : credits [] = 0 := rfl

@[simp] theorem charges_cons (datagram : Bool) (m : ChanMsg) (ms : List ChanMsg) :
    charges datagram (m :: ms) = m.charge datagram + charges datagram ms := List.sum_cons

@[simp] theorem credits_cons (m : ChanMsg) (ms : List ChanMsg) :
    credits (m :: ms) = m.credit + credits ms := List.sum_cons

/-- Charges add up over messages. -/
@[simp] theorem charges_append (datagram : Bool) (ms ms' : List ChanMsg) :
    charges datagram (ms ++ ms') = charges datagram ms + charges datagram ms' := by
  unfold charges
  rw [List.map_append, List.sum_append]

/-- Credits add up over messages. -/
@[simp] theorem credits_append (ms ms' : List ChanMsg) :
    credits (ms ++ ms') = credits ms + credits ms' := by
  unfold credits
  rw [List.map_append, List.sum_append]

/-! ## What one event does to the windows -/

/-- The bytes of `extended` that were charged to the window. -/
def Channel.extendedHeld (c : Channel) : ℕ :=
  if c.extendedUsage = .write then c.extended.length else 0

/-- The receiver's credit: what it still accepts and what it will give back. -/
def Channel.held (c : Channel) : ℕ :=
  c.localWindow + c.localConsumed + c.output.length + c.extendedHeld

/-- The windows of a channel are `u_int`s, with all its credit. -/
structure Channel.Bounded (c : Channel) : Prop where
  held : c.held < 2 ^ 32
  remote : c.remoteWindow < 2 ^ 32

/-- **What one event does to the windows** when the channel takes the messages `inc` and sends
`ms`: the local window grows by what `ms` gives back and shrinks by at most what `inc` takes, and
the other way round for the remote window. -/
structure Channel.Flow (c : Channel) (inc : List ChanMsg) (c' : Channel) (ms : List ChanMsg) :
    Prop where
  datagram : c'.datagram = c.datagram
  window : c.localWindow + credits ms ≤ c'.localWindow + charges c.datagram inc
  remote : c'.remoteWindow + charges c.datagram ms ≤ c.remoteWindow + credits inc
  bounded : c'.Bounded

variable {m : ChanMsg}

namespace Channel

variable {c c' c'' : Channel} {ms ms' : List ChanMsg}

/-- Bytes that leave the buffers are not held any more. -/
theorem held_le_of_eq (hw : c'.localWindow = c.localWindow)
    (hl : c'.localConsumed = c.localConsumed) (ho : c'.output.length ≤ c.output.length)
    (he : c'.extendedHeld ≤ c.extendedHeld) : c'.held ≤ c.held := by
  unfold held
  omega

/-- Events that leave the windows alone. -/
theorem Flow.keep (hc : c.Bounded) (hd : c'.datagram = c.datagram)
    (hw : c'.localWindow = c.localWindow) (hr : c'.remoteWindow = c.remoteWindow)
    (hheld : c'.held ≤ c.held) (hcharge : charges c.datagram ms = 0) (hcredit : credits ms = 0) :
    c.Flow [] c' ms where
  datagram := hd
  window := by rw [hw, hcredit]; exact Nat.le_refl _
  remote := by rw [hr, hcharge]; exact Nat.le_refl _
  bounded := ⟨hheld.trans_lt hc.held, hr ▸ hc.remote⟩

/-- An end that does nothing keeps its account. -/
theorem Flow.refl (hc : c.Bounded) : c.Flow [] c [] :=
  .keep hc rfl rfl rfl (Nat.le_refl _) rfl rfl

/-- Two parts of one step, one after the other. -/
theorem Flow.trans {inc : List ChanMsg} (h : c.Flow inc c' ms) (h' : c'.Flow [] c'' ms') :
    c.Flow inc c'' (ms ++ ms') where
  datagram := h'.datagram.trans h.datagram
  window := by
    have h1 := h.window
    have h2 := h'.window
    rw [charges_nil] at h2
    rw [credits_append]
    omega
  remote := by
    have h1 := h.remote
    have h2 := h'.remote
    rw [h.datagram, credits_nil] at h2
    rw [charges_append]
    omega
  bounded := h'.bounded

/-- A message that neither takes nor gives. -/
theorem Flow.takes (h : c.Flow [] c' ms) : c.Flow [m] c' ms where
  datagram := h.datagram
  window := h.window.trans (Nat.le_add_right _ _)
  remote := h.remote.trans (Nat.le_add_right _ _)
  bounded := h.bounded

/-! ### `nchan.c` -/

variable (c)

/-- Shutting the output down drops what is buffered. -/
theorem shutdownWrite_held_le : c.shutdownWrite.held ≤ c.held :=
  held_le_of_eq rfl rfl (Nat.zero_le _) (Nat.le_refl _)

/-- A read that fails costs nothing of the window. -/
theorem flow_readFailed (hc : c.Bounded) : c.Flow [] c.readFailed [] := by
  unfold readFailed
  split
  · exact .keep hc rfl rfl rfl (Nat.le_refl _) rfl rfl
  · exact .refl hc

/-- The `EOF` that a half which drains may owe. -/
theorem flow_sendEof2 (hc : c.Bounded) :
    c.Flow [] { c.sendEof2.1 with istate := .closed } c.sendEof2.2 := by
  unfold sendEof2
  split <;> exact .keep hc rfl rfl rfl (Nat.le_refl _) rfl rfl

/-- End of input costs nothing of the window. -/
theorem flow_ibufEmpty (hc : c.Bounded) : c.Flow [] c.ibufEmpty.1 c.ibufEmpty.2 := by
  unfold ibufEmpty
  split
  · exact .refl hc
  · split
    · dsimp only
      split
      · exact .keep hc rfl rfl rfl (Nat.le_refl _) rfl rfl
      · exact c.flow_sendEof2 hc
    · exact .refl hc

theorem flow_obufEmpty (hc : c.Bounded) : c.Flow [] c.obufEmpty [] := by
  unfold obufEmpty
  split
  · exact .refl hc
  · split
    · exact .keep hc rfl rfl rfl c.shutdownWrite_held_le rfl rfl
    · exact .refl hc

/-- A write that fails gives the buffered bytes up; they are not credited. -/
theorem flow_writeFailed2 (hc : c.Bounded) : c.Flow [] c.writeFailed2.1 c.writeFailed2.2 := by
  unfold writeFailed2
  split
  · exact .refl hc
  · dsimp only [sendEow2]
    refine .keep hc rfl rfl rfl c.shutdownWrite_held_le ?_ ?_
    · split_ifs <;> rfl
    · split_ifs <;> rfl

/-- `CLOSE` costs nothing of the window, and answers with nothing that does. -/
theorem flow_rcvdClose2 (hc : c.Bounded) : c.Flow [] c.rcvdClose2.1 c.rcvdClose2.2 := by
  unfold rcvdClose2
  dsimp only
  set d : Channel := if c.ostate = .opened then { c with closeRcvd := true, ostate := .waitDrain }
    else { c with closeRcvd := true } with hd
  have hsilent : c.Flow [] d [] := by
    rw [hd]
    split <;> exact .keep hc rfl rfl rfl (Nat.le_refl _) rfl rfl
  refine hsilent.trans ?_
  split
  · exact .keep hsilent.bounded rfl rfl rfl (Nat.le_refl _) rfl rfl
  · exact d.flow_sendEof2 hsilent.bounded
  · exact .refl hsilent.bounded

theorem flow_rcvdEow (hc : c.Bounded) : c.Flow [] c.rcvdEow [] := by
  unfold rcvdEow
  split
  · exact .keep hc rfl rfl rfl (Nat.le_refl _) rfl rfl
  · exact .refl hc

theorem flow_rcvdIeof (hc : c.Bounded) : c.Flow [] c.rcvdIeof [] := by
  have heof : c.Flow [] c.rcvdEof2 [] := by
    unfold rcvdEof2
    dsimp only
    split <;> exact .keep hc rfl rfl rfl (Nat.le_refl _) rfl rfl
  unfold rcvdIeof
  dsimp only
  split
  · exact heof.trans (flow_obufEmpty _ heof.bounded)
  · exact heof

/-! ### Local events -/

theorem flow_preOpen (hc : c.Bounded) : c.Flow [] c.preOpen [] := by
  unfold preOpen
  split
  · exact c.flow_obufEmpty hc
  · exact .refl hc

/-- Input that is read from the descriptor waits in its buffer: it is charged when it is sent. -/
theorem flow_handleRfd (hc : c.Bounded) (r : FdRead) : c.Flow [] (c.handleRfd r) [] := by
  unfold handleRfd
  split
  · exact .refl hc
  · split
    · exact c.flow_readFailed hc
    · exact .refl hc
  · split
    · exact c.flow_readFailed hc
    · exact .refl hc
  · split
    · exact .keep hc rfl rfl rfl (Nat.le_refl _) rfl rfl
    · exact .refl hc

/-- Written bytes turn into consumed ones. -/
theorem flow_consumeOutput (hc : c.Bounded) {rest : List UInt8}
    (hrest : rest.length ≤ c.output.length) : c.Flow [] (c.consumeOutput rest) [] := by
  refine .keep hc rfl rfl rfl ?_ rfl rfl
  have hmod : addU32 c.localConsumed (c.output.length - rest.length) ≤
      c.localConsumed + (c.output.length - rest.length) := Nat.mod_le _ _
  show c.localWindow + addU32 c.localConsumed (c.output.length - rest.length) + rest.length +
    c.extendedHeld ≤ c.held
  unfold held
  omega

variable {r : Channel × List ChanMsg}

/-- Output that is written to the descriptor has been consumed. -/
theorem flow_handleWfd (hc : c.Bounded) {w : FdWrite} (h : c.handleWfd w = some r) :
    c.Flow [] r.1 r.2 := by
  unfold handleWfd at h
  split at h
  · obtain rfl := Option.some.inj h
    exact .refl hc
  split at h
  · obtain ⟨x, hx, rfl⟩ := Option.map_eq_some_iff.mp h
    have hrest : x.2.length ≤ c.output.length := by
      have hlen := length_getString hx
      omega
    -- A datagram that could not be written is lost, and its credit with it.
    have hout : c.Flow [] { c with output := x.2 } [] :=
      .keep hc rfl rfl rfl (held_le_of_eq rfl rfl hrest (Nat.le_refl _)) rfl rfl
    split
    · exact hout
    · exact hout.trans (flow_writeFailed2 _ hout.bounded)
    · exact hout.trans (flow_writeFailed2 _ hout.bounded)
    · exact c.flow_consumeOutput hc hrest
  · obtain rfl := Option.some.inj h
    split
    · exact .refl hc
    · exact c.flow_writeFailed2 hc
    · exact c.flow_writeFailed2 hc
    · exact c.flow_consumeOutput hc (List.drop_sublist _ _).length_le

/-- Extended data that is written has been consumed. -/
theorem flow_writeEfd (hc : c.Bounded) (hwrite : c.extendedUsage = .write) (w : FdWrite) :
    c.Flow [] (c.writeEfd w) [] := by
  unfold writeEfd
  split
  · exact .refl hc
  · exact .keep hc rfl rfl rfl (Nat.le_refl _) rfl rfl
  · exact .keep hc rfl rfl rfl (Nat.le_refl _) rfl rfl
  · rename_i n _
    refine .keep hc rfl rfl rfl ?_ rfl rfl
    have hmod : addU32 c.localConsumed (c.extended.length - (c.extended.drop n).length) ≤
        c.localConsumed + (c.extended.length - (c.extended.drop n).length) := Nat.mod_le _ _
    have hdrop : (c.extended.drop n).length ≤ c.extended.length := (List.drop_sublist _ _).length_le
    simp only [held, extendedHeld, hwrite, if_true]
    omega

/-- Extended data that is read waits in its buffer. -/
theorem flow_readEfd (hc : c.Bounded) (hread : c.extendedUsage ≠ .write) (r : FdRead) :
    c.Flow [] (c.readEfd r) [] := by
  unfold readEfd
  split
  · exact .refl hc
  · exact .keep hc rfl rfl rfl (Nat.le_refl _) rfl rfl
  · exact .keep hc rfl rfl rfl (Nat.le_refl _) rfl rfl
  · split
    · exact .refl hc
    · refine .keep hc rfl rfl rfl (held_le_of_eq rfl rfl (Nat.le_refl _) ?_) rfl rfl
      unfold extendedHeld
      rw [if_neg hread, if_neg hread]

theorem flow_handleEfd (hc : c.Bounded) (w : FdWrite) (r : FdRead) :
    c.Flow [] (c.handleEfd w r) [] := by
  unfold handleEfd
  split
  · exact .refl hc
  split
  · rename_i hwrite
    split
    · exact .refl hc
    · exact c.flow_writeEfd hc hwrite w
  · rename_i hread
    exact c.flow_readEfd hc hread r

/-- A window adjustment gives back what was consumed. -/
theorem flow_checkWindow (hc : c.Bounded) : c.Flow [] c.checkWindow.1 c.checkWindow.2 := by
  unfold checkWindow
  split
  · have hheld := hc.held
    have hadd : addU32 c.localWindow c.localConsumed = c.localWindow + c.localConsumed := by
      refine addU32_of_lt ?_
      unfold held at hheld
      omega
    dsimp only
    rw [hadd]
    refine ⟨rfl, Nat.le_refl _, Nat.le_refl _, ⟨?_, hc.remote⟩⟩
    refine lt_of_le_of_lt ?_ hheld
    show c.localWindow + c.localConsumed + 0 + c.output.length + c.extendedHeld ≤ c.held
    unfold held
    omega
  · exact .refl hc

/-- Sending within the window. -/
theorem flow_send (hc : c.Bounded) {n : ℕ} (hn : n ≤ c.remoteWindow) (hd : c'.datagram = c.datagram)
    (hw : c'.localWindow = c.localWindow) (hr : c'.remoteWindow = subU32 c.remoteWindow n)
    (hheld : c'.held ≤ c.held) (hcharge : m.charge c.datagram = n) (hcredit : m.credit = 0) :
    c.Flow [] c' [m] := by
  have hsub : c'.remoteWindow = c.remoteWindow - n := hr.trans (subU32_of_le hc.remote hn)
  have hlt := hc.remote
  refine ⟨hd, ?_, ?_, ⟨hheld.trans_lt hc.held, ?_⟩⟩
  · rw [credits_cons, hcredit, hw]
    exact Nat.le_refl _
  · rw [charges_cons, hcharge, hsub, charges_nil, credits_nil]
    omega
  · omega

/-- No packet is longer than the window of the peer. -/
theorem sendable_le (n : ℕ) : c.sendable n ≤ c.remoteWindow :=
  (Nat.min_le_left _ _).trans (Nat.min_le_right _ _)

theorem length_take_sendable (bytes : List UInt8) :
    (bytes.take (c.sendable bytes.length)).length = c.sendable bytes.length := by
  rw [List.length_take]
  exact Nat.min_eq_left ((Nat.min_le_left _ _).trans (Nat.min_le_left _ _))

/-- **Extended data** is charged with its length. -/
theorem flow_pollExtended (hc : c.Bounded) : c.Flow [] c.pollExtended.1 c.pollExtended.2 := by
  unfold pollExtended
  split
  · rename_i h
    refine c.flow_send hc (c.sendable_le _) rfl rfl rfl
      (held_le_of_eq rfl rfl (Nat.le_refl _) ?_) (c.length_take_sendable _) rfl
    unfold extendedHeld
    rw [if_neg (by simp [h.2.2.2])]
    exact Nat.zero_le _
  · exact .refl hc

/-- **Data of a stream** is charged with its length. -/
theorem flow_pollStream (hc : c.Bounded) (hstream : c.datagram = false) :
    c.Flow [] c.pollStream.1 c.pollStream.2 := by
  unfold pollStream
  dsimp only
  split
  · exact .refl hc
  · refine c.flow_send hc (c.sendable_le _) rfl rfl rfl (Nat.le_refl _) ?_ rfl
    rw [hstream]
    exact c.length_take_sendable _

theorem flow_pollEmpty (hc : c.Bounded) : c.Flow [] c.pollEmpty.1 c.pollEmpty.2 := by
  unfold pollEmpty
  split
  · exact c.flow_ibufEmpty hc
  · exact .refl hc

/-- **The test that `channel_output_poll` lacks**: a datagram that it sends fits in the window
with its header. -/
def HeaderFits : Prop :=
  c.datagram = true → c.closeSent = false → c.closeRcvd = false → c.istate ≠ .closed →
    ∀ r, getString c.input = some r → r.1.length ≤ c.remoteWindow →
      r.1.length ≤ c.remoteMaxpacket → r.1.length + 4 ≤ c.remoteWindow

/-- What `channel_output_poll` sends does not exceed `remote_window`. -/
def NoWrap : Prop :=
  ∀ r, c.outputPoll = some r → charges c.datagram r.2 ≤ c.remoteWindow

/-- **A datagram** is charged with its length and that of its header, if the window has room for
both. -/
theorem flow_pollDatagram (hc : c.Bounded) (hdatagram : c.datagram = true)
    (hfits : ∀ r, getString c.input = some r → r.1.length ≤ c.remoteWindow →
      r.1.length ≤ c.remoteMaxpacket → r.1.length + 4 ≤ c.remoteWindow)
    (h : c.pollDatagram = some r) : c.Flow [] r.1 r.2 := by
  obtain ⟨x, hx, rfl⟩ := Option.map_eq_some_iff.mp h
  dsimp only
  split
  · exact .keep hc rfl rfl rfl (Nat.le_refl _) rfl rfl
  · rename_i hbig
    push Not at hbig
    refine c.flow_send hc (hfits x hx hbig.1 hbig.2) rfl rfl rfl (Nat.le_refl _) ?_ rfl
    rw [hdatagram]
    rfl

/-- **`channel_output_poll`** charges the window of the peer with what it sends. -/
theorem flow_outputPoll (hc : c.Bounded) (hfits : c.HeaderFits) (h : c.outputPoll = some r) :
    c.Flow [] r.1 r.2 := by
  unfold outputPoll at h
  split at h
  · obtain rfl := Option.some.inj h
    exact .refl hc
  rename_i hflags
  push Not at hflags
  obtain ⟨hsent, hrcvd⟩ := hflags
  split at h
  · rename_i hinput
    split at h
    · rename_i hdatagram
      exact c.flow_pollDatagram hc hdatagram
        (hfits hdatagram (Bool.eq_false_iff.mpr hsent) (Bool.eq_false_iff.mpr hrcvd) hinput.1) h
    · rename_i hstream
      obtain rfl := Option.some.inj h
      have hdata := c.flow_pollStream hc (Bool.eq_false_iff.mpr hstream)
      exact hdata.trans (flow_pollExtended _ hdata.bounded)
  · obtain rfl := Option.some.inj h
    have hempty := c.flow_pollEmpty hc
    exact hempty.trans (flow_pollExtended _ hempty.bounded)

/-- A window that does not wrap has room for the header. -/
theorem headerFits_of_noWrap (hwrap : c.NoWrap) : c.HeaderFits := by
  intro hdatagram hsent hrcvd hi r hr hwindow hmax
  have hinput : c.input ≠ [] := by
    intro hnil
    rw [hnil] at hr
    cases hr
  have hpoll : c.outputPoll =
      some ({ c with input := r.2, remoteWindow := subU32 c.remoteWindow (r.1.length + 4) },
        [.data r.1]) := by
    unfold outputPoll pollDatagram
    rw [if_neg (by simp [hsent, hrcvd]), if_pos ⟨hi, hinput⟩, if_pos hdatagram, hr]
    exact congrArg some (if_neg (not_or.mpr ⟨Nat.not_lt.mpr hwindow, Nat.not_lt.mpr hmax⟩))
  have hle := hwrap _ hpoll
  rw [hdatagram] at hle
  exact hle

/-- A window with room for the header does not wrap. -/
theorem noWrap_of_headerFits (hc : c.Bounded) (hfits : c.HeaderFits) : c.NoWrap := fun _ hr =>
  (Nat.le_add_left _ _).trans (c.flow_outputPoll hc hfits hr).remote

/-- A stream channel needs no guard. -/
theorem headerFits_of_stream (hstream : c.datagram = false) : c.HeaderFits := by
  intro hdatagram
  rw [hstream] at hdatagram
  cases hdatagram

/-! ### Messages of the peer -/

/-- The branches "rcvd too much data" and "rcvd too much extended_data". -/
def TooMuch : ChanMsg → Prop
  | .data bytes => c.ostate = .opened ∧ c.localWindow < c.winLen bytes
  | .extendedData bytes =>
    c.eofRcvd = false ∧ c.efd = true ∧ c.extendedUsage = .write ∧ c.localWindow < bytes.length
  | _ => False

/-- Data that fits the window is accepted. -/
theorem not_tooMuch (h : m.charge c.datagram ≤ c.localWindow) : ¬c.TooMuch m := by
  cases m with
  | data bytes => exact fun hmuch => absurd hmuch.2 (Nat.not_lt.mpr h)
  | extendedData bytes => exact fun hmuch => absurd hmuch.2.2.2 (Nat.not_lt.mpr h)
  | _ => exact id

theorem localWindow_lt (hc : c.Bounded) : c.localWindow < 2 ^ 32 := by
  have hheld := hc.held
  unfold held at hheld
  omega

/-- Receiving within the window. -/
theorem flow_take (hc : c.Bounded) {n : ℕ} (hn : n ≤ c.localWindow) (hd : c'.datagram = c.datagram)
    (hw : c'.localWindow = subU32 c.localWindow n) (hr : c'.remoteWindow = c.remoteWindow)
    (hheld : c'.held ≤ c.held) (hcharge : m.charge c.datagram = n) : c.Flow [m] c' [] := by
  have hsub : c'.localWindow = c.localWindow - n :=
    hw.trans (subU32_of_le (c.localWindow_lt hc) hn)
  refine ⟨hd, ?_, ?_, ⟨hheld.trans_lt hc.held, hr ▸ hc.remote⟩⟩
  · rw [charges_cons, hcharge, hsub, charges_nil, credits_nil]
    omega
  · rw [hr, charges_nil]
    exact Nat.le_add_right _ _

/-- **Data that arrives** is taken off the window and held. -/
theorem flow_inputData (hc : c.Bounded) {bytes : List UInt8}
    (hfits : c.winLen bytes ≤ c.localWindow) : c.Flow [.data bytes] (c.inputData bytes) [] := by
  have hsub := subU32_of_le (c.localWindow_lt hc) hfits
  unfold inputData
  split
  · -- The output half is no longer open: the data counts as consumed at once.
    have hmod : addU32 c.localConsumed (c.winLen bytes) ≤ c.localConsumed + c.winLen bytes :=
      Nat.mod_le _ _
    refine c.flow_take hc hfits rfl rfl rfl ?_ rfl
    unfold held
    dsimp only [extendedHeld]
    rw [hsub]
    omega
  rw [if_neg (Nat.not_lt.mpr hfits)]
  have hlen : (c.output ++ if c.datagram then putString bytes else bytes).length =
      c.output.length + c.winLen bytes := by
    rw [List.length_append]
    unfold winLen
    split
    · rw [length_putString]
    · rfl
  refine c.flow_take hc hfits rfl rfl rfl ?_ rfl
  unfold held
  dsimp only [extendedHeld]
  rw [hsub, hlen]
  omega

/-- **Extended data that arrives** is taken off the window and held. -/
theorem flow_inputExtendedData (hc : c.Bounded) {bytes : List UInt8} {d : Channel}
    (hfits : bytes.length ≤ c.localWindow) (h : c.inputExtendedData bytes = some d) :
    c.Flow [.extendedData bytes] d [] := by
  unfold inputExtendedData at h
  split at h
  · cases h
  split at h
  · obtain rfl := Option.some.inj h
    exact (Flow.refl hc).takes
  rename_i huse
  push Not at huse
  rw [if_neg (Nat.not_lt.mpr hfits)] at h
  obtain rfl := Option.some.inj h
  have hsub := subU32_of_le (c.localWindow_lt hc) hfits
  refine c.flow_take hc hfits rfl rfl rfl ?_ rfl
  unfold held
  dsimp only [extendedHeld]
  rw [hsub, if_pos huse.2, if_pos huse.2, List.length_append]
  omega

/-- **A window adjustment** is added to what may be sent. -/
theorem flow_inputWindowAdjust (hc : c.Bounded) (n : ℕ) :
    c.Flow [.windowAdjust n] (c.inputWindowAdjust n) [] := by
  have hmod : addU32 c.remoteWindow n ≤ c.remoteWindow + n := Nat.mod_le _ _
  have hlt : addU32 c.remoteWindow n < 2 ^ 32 := Nat.mod_lt _ (Nat.two_pow_pos 32)
  exact ⟨rfl, Nat.le_refl _, hmod, ⟨hc.held, hlt⟩⟩

theorem flow_inputIeof (hc : c.Bounded) : c.Flow [] c.inputIeof.1 c.inputIeof.2 := by
  have heof := c.flow_rcvdIeof hc
  unfold inputIeof
  dsimp only
  set d := c.rcvdIeof
  refine heof.trans ?_
  split
  · have hdrain : d.Flow [] { d with istate := .waitDrain } [] :=
      .keep heof.bounded rfl rfl rfl (Nat.le_refl _) rfl rfl
    split
    · exact hdrain.trans (flow_ibufEmpty _ hdrain.bounded)
    · exact hdrain
  · exact .refl heof.bounded

/-! ### Events and messages -/

/-- The garbage collector sends nothing that is charged, and may free the channel. -/
theorem flow_garbageCollect (hc : c.Bounded) (cancels : Bool) :
    (∃ d, (c.garbageCollect cancels).1 = some d ∧ c.Flow [] d (c.garbageCollect cancels).2) ∨
      ((c.garbageCollect cancels).1 = none ∧
        charges c.datagram (c.garbageCollect cancels).2 = 0) := by
  rcases c.garbageCollect_cases cancels with hgc | ⟨-, -, -, hgc⟩ | ⟨-, hgc⟩
  · rw [hgc]
    exact .inl ⟨c, rfl, .refl hc⟩
  · rw [hgc]
    exact .inl ⟨_, rfl, .keep hc rfl rfl rfl (Nat.le_refl _) rfl rfl⟩
  · rw [hgc]
    refine .inr ⟨rfl, ?_⟩
    dsimp only
    split <;> rfl

/-- **Step lemma** for the local events. -/
theorem flow_act (hc : c.Bounded) {e : ChanEvent} {r : Option Channel × List ChanMsg}
    (hfits : e = .outputPoll → c.HeaderFits) (h : c.act e = some r) :
    (∃ d, r.1 = some d ∧ c.Flow [] d r.2) ∨ (r.1 = none ∧ charges c.datagram r.2 = 0) := by
  cases e with
  | handleRfd x => exact Option.some.inj h ▸ .inl ⟨_, rfl, c.flow_handleRfd hc x⟩
  | handleWfd w =>
    obtain ⟨x, hx, rfl⟩ := Option.map_eq_some_iff.mp h
    exact .inl ⟨_, rfl, c.flow_handleWfd hc hx⟩
  | handleEfd w x => exact Option.some.inj h ▸ .inl ⟨_, rfl, c.flow_handleEfd hc w x⟩
  | checkWindow => exact Option.some.inj h ▸ .inl ⟨_, rfl, c.flow_checkWindow hc⟩
  | preOpen => exact Option.some.inj h ▸ .inl ⟨_, rfl, c.flow_preOpen hc⟩
  | outputPoll =>
    obtain ⟨x, hx, rfl⟩ := Option.map_eq_some_iff.mp h
    exact .inl ⟨_, rfl, c.flow_outputPoll hc (hfits rfl) hx⟩
  | garbageCollect cancels => exact Option.some.inj h ▸ c.flow_garbageCollect hc cancels

/-- **Step lemma** for the messages of the peer. -/
theorem flow_receive (hc : c.Bounded) (hfits : m.charge c.datagram ≤ c.localWindow)
    (h : c.receive m = some r) : c.Flow [m] r.1 r.2 := by
  cases m with
  | data bytes => exact Option.some.inj h ▸ c.flow_inputData hc hfits
  | extendedData bytes =>
    obtain ⟨d, hd, rfl⟩ := Option.map_eq_some_iff.mp h
    exact c.flow_inputExtendedData hc hfits hd
  | windowAdjust n => exact Option.some.inj h ▸ c.flow_inputWindowAdjust hc n
  | eof => exact Option.some.inj h ▸ (c.flow_inputIeof hc).takes
  | close => exact Option.some.inj h ▸ (c.flow_rcvdClose2 hc).takes
  | eow => exact Option.some.inj h ▸ (c.flow_rcvdEow hc).takes

end Channel

/-! ## Whole runs -/

/-- What an end may still send; a freed channel sends nothing. -/
def remote : Option Channel → ℕ
  | none => 0
  | some c => c.remoteWindow

/-- **The windows seen from the receiver `p`**: what its peer may still send, what is on its way and
the adjustments on their way back fit in the local window. -/
structure EndWindow (datagram : Bool) (p q : ChanEnd) : Prop where
  taken : p.taken ≤ q.sent.length
  kind : ∀ c, p.state = some c → c.datagram = datagram
  bounded : ∀ c, p.state = some c → c.Bounded
  window : ∀ c, p.state = some c →
    remote q.state + charges datagram (p.incoming q) + credits (q.incoming p) ≤ c.localWindow

namespace EndWindow

variable {datagram : Bool} {p q p' : ChanEnd} {c : Channel} {inc ms : List ChanMsg}

/-- The peer's view, when `p` takes `inc`, sends `ms` and has not more left to send than before. -/
theorem sends (hq : EndWindow datagram q p) (hin : p.incoming q = inc ++ p'.incoming q)
    (hsent : p'.sent = p.sent ++ ms)
    (hremote : remote p'.state + charges datagram ms ≤ remote p.state + credits inc) :
    EndWindow datagram q p' where
  taken := by
    rw [hsent, List.length_append]
    exact hq.taken.trans (Nat.le_add_right _ _)
  kind := hq.kind
  bounded := hq.bounded
  window := by
    intro x hx
    have hwin := hq.window x hx
    rw [hin, credits_append] at hwin
    unfold Duplex.Party.incoming at hwin ⊢
    rw [hsent, List.drop_append_of_le_length hq.taken, charges_append]
    omega

/-- A channel that takes `inc` and sends `ms` keeps the windows of both ends. -/
theorem flow {c' : Channel} (h : EndWindow datagram p q) (hq : EndWindow datagram q p)
    (hc : p.state = some c) (hc' : p'.state = some c') (hflow : c.Flow inc c' ms)
    (htaken : p'.taken ≤ q.sent.length) (hin : p.incoming q = inc ++ p'.incoming q)
    (hsent : p'.sent = p.sent ++ ms) :
    EndWindow datagram p' q ∧ EndWindow datagram q p' := by
  obtain rfl := h.kind c hc
  have hlive : ∀ {d}, p'.state = some d → d = c' := fun hd => Option.some.inj (hd.symm.trans hc')
  refine ⟨⟨htaken, ?_, ?_, ?_⟩, hq.sends hin hsent ?_⟩
  · intro d hd
    obtain rfl := hlive hd
    exact hflow.datagram
  · intro d hd
    obtain rfl := hlive hd
    exact hflow.bounded
  · intro d hd
    obtain rfl := hlive hd
    have hwin := h.window c hc
    have hmove := hflow.window
    rw [hin, charges_append] at hwin
    unfold Duplex.Party.incoming at hwin ⊢
    rw [hsent, List.drop_append_of_le_length hq.taken, credits_append]
    omega
  · rw [hc, hc']
    exact hflow.remote

/-- A freed channel keeps the window of its peer. -/
theorem free (hq : EndWindow datagram q p) (hp' : p'.state = none)
    (htaken : p'.taken ≤ q.sent.length) (hin : p.incoming q = inc ++ p'.incoming q)
    (hsent : p'.sent = p.sent ++ ms) (hcharge : charges datagram ms = 0) :
    EndWindow datagram p' q ∧ EndWindow datagram q p' := by
  have hfreed : ∀ {d : Channel}, p'.state ≠ some d := by
    intro d hd
    rw [hp'] at hd
    cases hd
  refine ⟨⟨htaken, fun d hd => absurd hd hfreed, fun d hd => absurd hd hfreed,
    fun d hd => absurd hd hfreed⟩, hq.sends hin hsent ?_⟩
  rw [hp', hcharge]
  exact Nat.zero_le _

/-- The first message in line fits in the window. -/
theorem charge_le (h : EndWindow datagram p q) (hc : p.state = some c)
    (hm : q.sent[p.taken]? = some m) : m.charge c.datagram ≤ c.localWindow := by
  have hwin := h.window c hc
  rw [Duplex.incoming_take hm, charges_cons, ← h.kind c hc] at hwin
  omega

/-- **Step lemma.**  A move of `p` keeps the windows of both ends, if its datagrams fit. -/
theorem move {o : Option ChanEvent} (h : EndWindow datagram p q) (hq : EndWindow datagram q p)
    (hfits : o = some .outputPoll → ∀ c, p.state = some c → c.HeaderFits)
    (hm : Duplex.Move channelMachine p q o p') :
    EndWindow datagram p' q ∧ EndWindow datagram q p' := by
  cases hm with
  | @act e r hact =>
    obtain ⟨c, hc, hact⟩ := Option.bind_eq_some_iff.mp hact
    have hpoll : e = .outputPoll → c.HeaderFits := fun he => hfits (congrArg some he) c hc
    rcases c.flow_act (h.bounded c hc) hpoll hact with ⟨d, hd, hflow⟩ | ⟨hnone, hcharge⟩
    · exact h.flow hq hc hd hflow h.taken rfl rfl
    · rw [h.kind c hc] at hcharge
      exact hq.free hnone h.taken (List.nil_append _).symm rfl hcharge
  | @receive m r hm hrecv =>
    have htaken : p.taken + 1 ≤ q.sent.length := (List.getElem?_eq_some_iff.mp hm).1
    have hin : p.incoming q = [m] ++ p.take.incoming q := Duplex.incoming_take hm
    rcases hp : p.state with _ | c
    · -- The messages that a freed channel still accepts are not answered.
      rw [hp] at hrecv
      have hr : r = (none, []) := by
        cases m <;> first | exact (Option.some.inj hrecv).symm | cases hrecv
      subst hr
      exact hq.free rfl htaken hin rfl rfl
    · rw [hp] at hrecv
      obtain ⟨x, hx, rfl⟩ := Option.map_eq_some_iff.mp hrecv
      have hflow := c.flow_receive (h.bounded c hp) (h.charge_le hp hm) hx
      exact h.flow hq hp rfl hflow htaken hin rfl

end EndWindow

/-- **A step within the windows**: the sender's window does not wrap, and the receiver does not
take a "rcvd too much" branch. -/
def WindowSafe (s : Bool → ChanEnd) (ev : Duplex.Event ChanEvent) (_ : Bool → ChanEnd) : Prop :=
  match ev with
  | .act b .outputPoll => ∀ c, (s b).state = some c → c.NoWrap
  | .act _ _ => True
  | .deliver b =>
    ∀ c m, (s b).state = some c → (s !b).sent[(s b).taken]? = some m → ¬c.TooMuch m

/-- A step that does not send a datagram without room for its header. -/
def PollFits (s : Bool → ChanEnd) (ev : Duplex.Event ChanEvent) (_ : Bool → ChanEnd) : Prop :=
  match ev with
  | .act b .outputPoll => ∀ c, (s b).state = some c → c.HeaderFits
  | _ => True

/-- The two ends of a channel that has just been opened: of one kind, each with the window that its
peer has announced. -/
structure WindowsAgree (c : Bool → Channel) : Prop where
  datagram : (c false).datagram = (c true).datagram
  window : ∀ b, (c b).remoteWindow ≤ (c !b).localWindow
  held : ∀ b, (c b).held < 2 ^ 32

/-- The accounts at the start: nothing is held or on its way. -/
theorem endWindow_established {c : Bool → Channel} (hc : WindowsAgree c) (b : Bool) :
    EndWindow (c false).datagram (established c b) (established c !b) where
  taken := Nat.zero_le _
  kind := by
    rintro _ ⟨⟩
    cases b
    · rfl
    · exact hc.datagram.symm
  bounded := by
    rintro _ ⟨⟩
    have hwin := hc.window b
    have hheld := hc.held !b
    refine ⟨hc.held b, ?_⟩
    unfold Channel.held at hheld
    omega
  window := by
    rintro _ ⟨⟩
    have hwin := hc.window !b
    rw [Bool.not_not] at hwin
    exact hwin

/-- **Step lemma.**  With both ends within their windows, a step whose datagrams fit is safe and
leads to such a state again. -/
theorem endWindow_step {datagram : Bool} {s s' : Bool → ChanEnd} {ev : Duplex.Event ChanEvent}
    (hs : ∀ b, EndWindow datagram (s b) (s !b)) (hfits : PollFits s ev s')
    (h : chanStep s ev = some s') :
    (∀ b, EndWindow datagram (s' b) (s' !b)) ∧ WindowSafe s ev s' := by
  constructor
  · refine Duplex.inv_step (fun hp hq => hp.move hq fun hpoll => ?_) h hs
    cases ev with
    | act b e =>
      obtain rfl := Option.some.inj hpoll
      exact hfits
    | deliver b => cases hpoll
  · cases ev with
    | act b e =>
      cases e with
      | outputPoll =>
        exact fun c hc => c.noWrap_of_headerFits ((hs b).bounded c hc) (hfits c hc)
      | _ => trivial
    | deliver b => exact fun c m hc hm => c.not_tooMuch ((hs b).charge_le hc hm)

/-- **When the windows are not overrun.**  In every run of an open channel, the sender's window
never wraps and the receiver never gets too much, exactly if every datagram that is sent fits in
the window with its header. -/
theorem window_safe_iff {c : Bool → Channel} (hc : WindowsAgree c)
    (es : List (Duplex.Event ChanEvent)) :
    Along chanStep WindowSafe (established c) es ↔ Along chanStep PollFits (established c) es := by
  constructor
  · intro hsafe
    refine along_of_inv (I := fun _ => True) (fun s ev s' _ hstep _ => ⟨trivial, ?_⟩) hsafe trivial
    cases ev with
    | act b e =>
      cases e with
      | outputPoll => exact fun d hd => d.headerFits_of_noWrap (hstep d hd)
      | _ => trivial
    | deliver b => trivial
  · intro hfits
    refine along_of_inv (I := fun s => ∀ b, EndWindow (c false).datagram (s b) (s !b)) ?_ hfits
      (endWindow_established hc)
    exact fun s ev s' hs hG hstep => endWindow_step hs hG hstep

/-- **Stream channels.**  No run of a stream channel overruns a window. -/
theorem stream_window_safe {c : Bool → Channel} (hc : WindowsAgree c)
    (hstream : (c false).datagram = false) (es : List (Duplex.Event ChanEvent)) :
    Along chanStep WindowSafe (established c) es := by
  refine along_of_inv (G := fun _ _ _ => True)
    (I := fun s => ∀ b, EndWindow (c false).datagram (s b) (s !b)) ?_
    (along_of_forall (fun _ _ _ _ => trivial) _) (endWindow_established hc)
  intro s ev s' hs _ hstep
  refine endWindow_step hs ?_ hstep
  cases ev with
  | act b e =>
    cases e with
    | outputPoll =>
      exact fun d hd => d.headerFits_of_stream (((hs b).kind d hd).trans hstream)
    | _ => trivial
  | deliver b => trivial

/-! ## A datagram without room for its header -/

/-- An open datagram channel. -/
def tunChannel (window : ℕ) : Channel := { openChannel window with datagram := true }

theorem windowsAgree_tunChannel : WindowsAgree fun _ => tunChannel 100 where
  datagram := rfl
  window _ := Nat.le_refl _
  held _ := by decide

/-- A datagram is read, sent and delivered. -/
def tunEvents (length : ℕ) : List (Duplex.Event ChanEvent) :=
  [.act false (.handleRfd (.data (List.replicate length 0))), .act false .outputPoll, .deliver true]

/-- A datagram with room for its header. -/
theorem window_safe_iff_tunChannel :
    Along chanStep WindowSafe (established fun _ => tunChannel 100) (tunEvents 96) := by
  refine (window_safe_iff windowsAgree_tunChannel _).mpr fun s1 h1 =>
    ⟨trivial, fun s2 _ => ⟨?_, fun s3 _ => ⟨trivial, trivial⟩⟩⟩
  obtain rfl := Option.some.inj h1
  rintro c ⟨⟩ - - - - r hr - -
  have hlen : (getString (putString (List.replicate 96 0))).map (fun r => r.1.length) =
      some 96 := by
    decide +kernel
  have hr : getString (putString (List.replicate 96 0)) = some r := hr
  rw [hr] at hlen
  have hlen : r.1.length = 96 := Option.some.inj hlen
  show r.1.length + 4 ≤ 100
  omega

/-- **A window that wraps.**  With 100 bytes of window a datagram of 98 bytes is sent; the sender's
window becomes `2^32 - 2`, and the receiver, which counts 102 bytes, drops the datagram. -/
theorem window_overrun :
    WindowsAgree (fun _ => tunChannel 100) ∧
      ((run chanStep (established fun _ => tunChannel 100) (tunEvents 98)).map fun s =>
          ((s false).state.map (·.remoteWindow),
            (s true).state.map fun c => (c.localWindow, c.output))) =
        some (some (2 ^ 32 - 2), some (100, [])) ∧
      ¬Along chanStep WindowSafe (established fun _ => tunChannel 100) (tunEvents 98) := by
  refine ⟨windowsAgree_tunChannel, by decide +kernel, fun hsafe => ?_⟩
  have hrun : ((run chanStep (established fun _ => tunChannel 100) ((tunEvents 98).take 2)).map
      fun s => ((s true).state, (s true).taken, (s false).sent)) =
        some (some (tunChannel 100), 0, [.data (List.replicate 98 0)]) := by
    decide +kernel
  obtain ⟨s, hs, hvalue⟩ := Option.map_eq_some_iff.mp hrun
  obtain ⟨hstate, htaken, hsent⟩ : (s true).state = some (tunChannel 100) ∧ (s true).taken = 0 ∧
      (s false).sent = [.data (List.replicate 98 0)] := by
    simpa using hvalue
  have hfirst : (s false).sent[(s true).taken]? = some (.data (List.replicate 98 0)) := by
    rw [htaken, hsent]
    rfl
  have hreceive : channelMachine.receive (s true).state (.data (List.replicate 98 0)) =
      some (some ((tunChannel 100).inputData (List.replicate 98 0)), []) := by
    rw [hstate]
    rfl
  have hlast := Along.last hsafe hs (Duplex.step_deliver (b := true) hfirst hreceive)
  exact hlast _ _ hstate hfirst ⟨rfl, by decide⟩

end CSBuFLO
