/-
# The close handshake of protocol 1.5 (`nchan.c`)

The two halves of a channel move apart from each other.  Every event is described by what it does
to the input half (`Channel1.InputStep`) and to the output half (`Channel1.OutputStep`); `act_step`
and `receive_step` say so for the local events and for the messages, and nothing below looks at the
functions of the source again.

What one end knows is stated over all the messages it has sent and taken (`Channel1.Own`).  The
messages an end takes are the first ones its peer has sent, so that two facts about the sender are
enough for the receiver: nothing of the forward direction follows `INPUT_EOF` (`Own.ieof_last`),
and `OUTPUT_CLOSE` is sent once (`Own.oclose_once`).

`close_handshake_ssh1` says what holds in every run of two ends: `error` is never called, each end
sends data, then at most one `INPUT_EOF`, and at most one `OUTPUT_CLOSE`; no message arrives for a
freed channel; and what is written on one side was read on the other, all of it when the half is
closed and no write has failed.
-/
import CSBuFLO.ChannelSsh1

namespace CSBuFLO

open Transition

/-! ## What an end has said and heard -/

/-- Messages of the direction an end sends its data in. -/
def Channel1Msg.isForward : Channel1Msg → Bool
  | .data _ => true
  | .ieof => true
  | .oclose => false

/-- The bytes of a message. -/
def Channel1Msg.bytes : Channel1Msg → List UInt8
  | .data bytes => bytes
  | _ => []

open Channel1Msg (isForward)

/-- All the data of some messages. -/
def dataBytes (ms : List Channel1Msg) : List UInt8 := ms.flatMap Channel1Msg.bytes

@[simp] theorem dataBytes_nil : dataBytes [] = [] := rfl

@[simp] theorem dataBytes_append (ms ns : List Channel1Msg) :
    dataBytes (ms ++ ns) = dataBytes ms ++ dataBytes ns := List.flatMap_append

theorem dataBytes_filter (ms : List Channel1Msg) :
    dataBytes (ms.filter isForward) = dataBytes ms := by
  induction ms with
  | nil => rfl
  | cons m ms ih =>
    unfold dataBytes at ih ⊢
    cases m with
    | data bytes =>
      rw [List.filter_cons_of_pos rfl, List.flatMap_cons, List.flatMap_cons, ih]
    | ieof => rw [List.filter_cons_of_pos rfl, List.flatMap_cons, List.flatMap_cons, ih]
    | oclose => exact ih

variable {c' : Channel1} {got : Option Channel1Msg} {ms : List Channel1Msg}

namespace Channel1

/-- `INPUT_EOF` has been sent. -/
def sentIeof (c : Channel1) : Bool := c.istate = .waitOclose || c.istate = .closed

/-- `OUTPUT_CLOSE` has been received. -/
def gotOclose (c : Channel1) : Bool := c.istate = .closed

/-- `INPUT_EOF` has been received. -/
def gotIeof (c : Channel1) : Bool := c.ostate = .waitDrain || c.ostate = .closed

/-- `OUTPUT_CLOSE` has been sent. -/
def sentOclose (c : Channel1) : Bool := c.ostate = .waitIeof || c.ostate = .closed

/-- **What an event does to the input half**, where `got` is the message that it took. -/
inductive InputStep (c c' : Channel1) (ms : List Channel1Msg) : Option Channel1Msg → Prop where
  /-- Some bytes are read, or nothing happens. -/
  | keep {got : Option Channel1Msg} (bytes : List UInt8) (hgot : got ≠ some .oclose)
      (hms : ms.filter isForward = []) (hsent : c'.sentIeof = c.sentIeof)
      (hclosed : c'.gotOclose = c.gotOclose) (hopen : c.sentIeof = true → bytes = [])
      (hin : c'.input = c.input ++ bytes) (hread : c'.bytesRead = c.bytesRead ++ bytes) :
      InputStep c c' ms got
  /-- Data is sent. -/
  | data (bytes : List UInt8) (hms : ms.filter isForward = [.data bytes])
      (hsent : c.sentIeof = false) (hsent' : c'.sentIeof = false)
      (hin : c.input = bytes ++ c'.input) (hread : c'.bytesRead = c.bytesRead) :
      InputStep c c' ms none
  /-- Everything has been sent, and `INPUT_EOF` follows. -/
  | ieof {got : Option Channel1Msg} (hgot : got ≠ some .oclose)
      (hms : ms.filter isForward = [.ieof]) (hsent : c.sentIeof = false)
      (hsent' : c'.sentIeof = true) (hclosed' : c'.gotOclose = false) (hin : c.input = [])
      (hin' : c'.input = []) (hread : c'.bytesRead = c.bytesRead) : InputStep c c' ms got
  /-- The peer will write no more; `INPUT_EOF` is sent if it has not been sent before. -/
  | oclose (hms : ms.filter isForward = if c.sentIeof then [] else [.ieof])
      (hclosed' : c'.gotOclose = true) (hin : c'.input = c.input)
      (hread : c'.bytesRead = c.bytesRead) : InputStep c c' ms (some .oclose)

/-- **What an event does to the output half**, where `got` is the message that it took. -/
inductive OutputStep (c c' : Channel1) (ms : List Channel1Msg) : Option Channel1Msg → Prop where
  /-- Some of the buffered bytes are written, or nothing happens. -/
  | keep {got : Option Channel1Msg} (bytes : List UInt8) (hgot : got.all (!isForward ·))
      (hms : ms.count .oclose = 0) (heof : c'.gotIeof = c.gotIeof)
      (hsent : c'.sentOclose = c.sentOclose) (hlost : c'.writeLost = c.writeLost)
      (hout : c.output = bytes ++ c'.output)
      (hwritten : c'.bytesWritten = c.bytesWritten ++ bytes) : OutputStep c c' ms got
  /-- Data arrives; it is dropped if the half is no longer open. -/
  | data (bytes : List UInt8) (hms : ms.count .oclose = 0) (heof : c'.gotIeof = c.gotIeof)
      (hsent : c'.sentOclose = c.sentOclose) (hlost : c'.writeLost = c.writeLost)
      (hout : c'.output = if c.ostate = .opened then c.output ++ bytes else c.output)
      (hwritten : c'.bytesWritten = c.bytesWritten) : OutputStep c c' ms (some (.data bytes))
  /-- `INPUT_EOF` arrives; with an empty buffer `OUTPUT_CLOSE` is sent at once. -/
  | ieof (hms : ms.count .oclose = if c.sentOclose = c'.sentOclose then 0 else 1)
      (heof' : c'.gotIeof = true) (hsent : c.sentOclose = true → c'.sentOclose = true)
      (hlost : c'.writeLost = c.writeLost) (hout : c'.output = c.output)
      (hwritten : c'.bytesWritten = c.bytesWritten) : OutputStep c c' ms (some .ieof)
  /-- The last byte has been written, or a write has failed. -/
  | oclose (hms : ms.count .oclose = 1) (heof : c'.gotIeof = c.gotIeof)
      (hsent : c.sentOclose = false) (hsent' : c'.sentOclose = true)
      (hlost : c'.writeLost = true ∨
        c.gotIeof = true ∧ c.output = [] ∧ c'.output = [] ∧ c'.writeLost = c.writeLost)
      (hwritten : c'.bytesWritten = c.bytesWritten) : OutputStep c c' ms none

/-- Nothing happens to an input half. -/
theorem InputStep.same {c : Channel1} (hi : c'.istate = c.istate) (hin : c'.input = c.input)
    (hread : c'.bytesRead = c.bytesRead) (hgot : got ≠ some .oclose)
    (hms : ms.filter isForward = []) : InputStep c c' ms got :=
  .keep [] hgot hms (by rw [sentIeof, sentIeof, hi]) (by rw [gotOclose, gotOclose, hi])
    (fun _ => rfl) (by rw [hin, List.append_nil]) (by rw [hread, List.append_nil])

/-- Nothing happens to an output half. -/
theorem OutputStep.same {c : Channel1} (ho : c'.ostate = c.ostate) (hout : c'.output = c.output)
    (hwritten : c'.bytesWritten = c.bytesWritten) (hlost : c'.writeLost = c.writeLost)
    (hgot : got.all (!isForward ·)) (hms : ms.count .oclose = 0) : OutputStep c c' ms got :=
  .keep [] hgot hms (by rw [gotIeof, gotIeof, ho]) (by rw [sentOclose, sentOclose, ho]) hlost
    (by rw [hout, List.nil_append]) (by rw [hwritten, List.append_nil])

/-- A step of the input half, where the output half has moved before. -/
theorem InputStep.behind {c c₁ : Channel1} {ms₁ : List Channel1Msg} (h : InputStep c₁ c' ms got)
    (hi : c₁.istate = c.istate) (hin : c₁.input = c.input) (hread : c₁.bytesRead = c.bytesRead)
    (hms₁ : ms₁.filter isForward = []) : InputStep c c' (ms₁ ++ ms) got := by
  have hfilter : (ms₁ ++ ms).filter isForward = ms.filter isForward := by
    rw [List.filter_append, hms₁, List.nil_append]
  have hsame : c₁.sentIeof = c.sentIeof := by rw [sentIeof, sentIeof, hi]
  have hsame' : c₁.gotOclose = c.gotOclose := by rw [gotOclose, gotOclose, hi]
  cases h with
  | keep bytes hgot hms hsent hclosed hopen hin' hread' =>
    exact .keep bytes hgot (hfilter.trans hms) (hsent.trans hsame) (hclosed.trans hsame')
      (hsame ▸ hopen) (hin ▸ hin') (hread ▸ hread')
  | data bytes hms hsent hsent' hin' hread' =>
    exact .data bytes (hfilter.trans hms) (hsame ▸ hsent) hsent' (hin ▸ hin') (hread ▸ hread')
  | ieof hgot hms hsent hsent' hclosed' hin' hin'' hread' =>
    exact .ieof hgot (hfilter.trans hms) (hsame ▸ hsent) hsent' hclosed' (hin ▸ hin') hin''
      (hread ▸ hread')
  | oclose hms hclosed' hin' hread' =>
    exact .oclose (hsame ▸ hfilter.trans hms) hclosed' (hin ▸ hin') (hread ▸ hread')

/-- **What is true of a channel by itself**: `error` has not been called, and nothing is left in
the output buffer when `OUTPUT_CLOSE` has been sent. -/
structure Sound (c : Channel1) : Prop where
  errors : c.errors = []
  drained : c.sentOclose = true → c.output = []
  lost : c.writeLost = true → c.sentOclose = true
  freed : c.freed = true → c.istate = .closed ∧ c.ostate = .closed

/-! ## One event -/

section Events

variable {c : Channel1}

theorem sound_of_same (hc : c.Sound) (herr : c'.errors = c.errors) (hout : c'.output = c.output)
    (hsent : c'.sentOclose = c.sentOclose) (hlost : c'.writeLost = c.writeLost)
    (hfreed : c'.freed = false) : c'.Sound where
  errors := herr.trans hc.errors
  drained h := hout.trans (hc.drained (hsent ▸ h))
  lost h := hsent.trans (hc.lost (hlost ▸ h))
  freed h := absurd h (by rw [hfreed]; decide)

/-- `channel_handle_rfd` on an open input half. -/
theorem handleRfd_step (hc : c.Sound) (hf : c.freed = false) (hi : c.istate = .opened)
    (r : FdRead) :
    InputStep c (c.handleRfd r) [] none ∧ OutputStep c (c.handleRfd r) [] none ∧
      (c.handleRfd r).Sound := by
  have hfailed : InputStep c c.readFailed [] none ∧ OutputStep c c.readFailed [] none ∧
      c.readFailed.Sound := by
    unfold readFailed
    rw [hi]
    exact ⟨.keep [] nofun rfl (by simp [sentIeof, hi])
        (by simp [gotOclose, hi]) (fun _ => rfl) (List.append_nil _).symm
        (List.append_nil _).symm,
      .same rfl rfl rfl rfl rfl rfl, sound_of_same hc rfl rfl rfl rfl hf⟩
  have hsame : InputStep c c [] none ∧ OutputStep c c [] none ∧ c.Sound :=
    ⟨.same rfl rfl rfl nofun rfl, .same rfl rfl rfl rfl rfl rfl, hc⟩
  match r with
  | .again => exact hsame
  | .failed =>
    unfold handleRfd
    split_ifs
    · exact hfailed
    · exact hsame
  | .data [] =>
    unfold handleRfd
    split_ifs
    · exact hfailed
    · exact hsame
  | .data (b :: bs) =>
    unfold handleRfd
    split_ifs
    · exact ⟨.keep (b :: bs) nofun rfl rfl rfl
          (fun h => absurd h (by simp [sentIeof, hi])) rfl rfl,
        .same rfl rfl rfl rfl rfl rfl, sound_of_same hc rfl rfl rfl rfl hf⟩
    · exact hsame

/-- `chan_ibuf_empty` of a half that has nothing left to send. -/
theorem ibufEmpty_step (hc : c.Sound) (hf : c.freed = false) (hi : c.istate = .waitDrain)
    (hin : c.input = []) :
    c.ibufEmpty = ({ c with istate := .waitOclose }, [.ieof]) ∧
      Sound { c with istate := .waitOclose } := by
  refine ⟨?_, sound_of_same hc rfl rfl rfl rfl hf⟩
  unfold ibufEmpty
  rw [if_neg (not_not.mpr hin), hi]
  dsimp only
  rw [sendIeof1, hi]

/-- `chan_obuf_empty` of a half that has nothing left to write. -/
theorem obufEmpty_step (hc : c.Sound) (hf : c.freed = false) (ho : c.ostate = .waitDrain)
    (hout : c.output = []) :
    c.obufEmpty = ({ c with output := [], wfd := c.wfd && c.sock, ostate := .closed }, [.oclose]) ∧
      Sound { c with output := [], wfd := c.wfd && c.sock, ostate := .closed } := by
  constructor
  · unfold obufEmpty
    rw [if_neg (not_not.mpr hout), ho]
    dsimp only
    rw [sendOclose1, show c.shutdownWrite.ostate = .waitDrain from ho]
    rfl
  · exact ⟨hc.errors, fun _ => rfl, fun _ => rfl, fun h => absurd h (by simp [hf])⟩

/-- `channel_pre_open`. -/
theorem preOpen_step (hc : c.Sound) (hf : c.freed = false) :
    InputStep c c.preOpen.1 c.preOpen.2 none ∧ OutputStep c c.preOpen.1 c.preOpen.2 none ∧
      c.preOpen.1.Sound := by
  unfold preOpen
  split_ifs with h
  · obtain ⟨heq, hsound⟩ := obufEmpty_step hc hf h.1 h.2
    rw [heq]
    exact ⟨.same rfl rfl rfl nofun rfl,
      .oclose rfl (by simp [gotIeof, h.1]) (by simp [sentOclose, h.1]) rfl
        (.inr ⟨by simp [gotIeof, h.1], h.2, rfl, rfl⟩) rfl, hsound⟩
  · exact ⟨.same rfl rfl rfl nofun rfl, .same rfl rfl rfl rfl rfl rfl, hc⟩

/-- `chan_write_failed1` of a half that has not sent `OUTPUT_CLOSE`. -/
theorem loseWrite_step (hc : c.Sound) (hf : c.freed = false) (hs : c.sentOclose = false) :
    InputStep c c.loseWrite.1 c.loseWrite.2 none ∧
      OutputStep c c.loseWrite.1 c.loseWrite.2 none ∧ c.loseWrite.1.Sound := by
  unfold loseWrite writeFailed1
  have hfreed : ∀ {P : Prop}, c.freed = true → P := fun h => absurd h (by simp [hf])
  match ho : c.ostate with
  | .opened =>
    simp only [sendOclose1, shutdownWrite]
    exact ⟨.same rfl rfl rfl nofun rfl,
      .oclose rfl (by simp [gotIeof, ho]) hs rfl (.inl rfl) rfl,
      ⟨hc.errors, fun _ => rfl, fun _ => rfl, fun h => hfreed h⟩⟩
  | .waitDrain =>
    simp only [sendOclose1, shutdownWrite]
    exact ⟨.same rfl rfl rfl nofun rfl,
      .oclose rfl (by simp [gotIeof, ho]) hs rfl (.inl rfl) rfl,
      ⟨hc.errors, fun _ => rfl, fun _ => rfl, fun h => hfreed h⟩⟩
  | .waitIeof => simp [sentOclose, ho] at hs
  | .closed => simp [sentOclose, ho] at hs

/-- `channel_handle_wfd`: a buffer with something in it has not sent `OUTPUT_CLOSE`. -/
theorem handleWfd_step (hc : c.Sound) (hf : c.freed = false) (w : FdWrite) :
    InputStep c (c.handleWfd w).1 (c.handleWfd w).2 none ∧
      OutputStep c (c.handleWfd w).1 (c.handleWfd w).2 none ∧ (c.handleWfd w).1.Sound := by
  have hsame : InputStep c c [] none ∧ OutputStep c c [] none ∧ c.Sound :=
    ⟨.same rfl rfl rfl nofun rfl, .same rfl rfl rfl rfl rfl rfl, hc⟩
  unfold handleWfd
  split_ifs with h
  · exact hsame
  push Not at h
  have hs : c.sentOclose = false := by
    by_contra hsent
    exact h.2 (hc.drained (by simpa using hsent))
  match w with
  | .again => exact hsame
  | .failed => exact loseWrite_step hc hf hs
  | .wrote 0 => exact loseWrite_step hc hf hs
  | .wrote (n + 1) =>
    refine ⟨.same rfl rfl rfl nofun rfl,
      .keep (c.output.take (n + 1)) rfl rfl rfl rfl rfl (List.take_append_drop _ _).symm rfl,
      ⟨hc.errors, ?_, hc.lost, hc.freed⟩⟩
    intro hsent
    exact absurd (hs.symm.trans hsent) (by decide)

/-- `channel_output_poll`. -/
theorem outputPoll_step (hc : c.Sound) (hf : c.freed = false) (interactive : Bool) (maxsize : ℕ) :
    InputStep c (c.outputPoll interactive maxsize).1 (c.outputPoll interactive maxsize).2 none ∧
      OutputStep c (c.outputPoll interactive maxsize).1 (c.outputPoll interactive maxsize).2 none ∧
      (c.outputPoll interactive maxsize).1.Sound := by
  unfold outputPoll
  dsimp only
  split_ifs with hdata hlen hdrain
  · exact ⟨.same rfl rfl rfl nofun rfl, .same rfl rfl rfl rfl rfl rfl, hc⟩
  · have hsent : c.sentIeof = false := by
      obtain hi | hi := hdata.1 <;> simp [sentIeof, hi]
    exact ⟨.data _ rfl hsent hsent (List.take_append_drop _ _).symm rfl,
      .same rfl rfl rfl rfl rfl rfl, sound_of_same hc rfl rfl rfl rfl hf⟩
  · have hin : c.input = [] := by
      by_contra hin
      exact hdata ⟨.inr hdrain, hin⟩
    obtain ⟨heq, hsound⟩ := ibufEmpty_step hc hf hdrain hin
    rw [heq]
    exact ⟨.ieof nofun rfl (by simp [sentIeof, hdrain]) rfl rfl hin hin rfl,
      .same rfl rfl rfl rfl rfl rfl, hsound⟩
  · exact ⟨.same rfl rfl rfl nofun rfl, .same rfl rfl rfl rfl rfl rfl, hc⟩

/-- `channel_garbage_collect`. -/
theorem garbageCollect_step (hc : c.Sound) :
    InputStep c c.garbageCollect [] none ∧ OutputStep c c.garbageCollect [] none ∧
      c.garbageCollect.Sound := by
  unfold garbageCollect
  split_ifs with h
  · have hdead : c.istate = .closed ∧ c.ostate = .closed := by simpa [isDead] using h
    exact ⟨.same rfl rfl rfl nofun rfl, .same rfl rfl rfl rfl rfl rfl,
      ⟨hc.errors, hc.drained, hc.lost, fun _ => hdead⟩⟩
  · exact ⟨.same rfl rfl rfl nofun rfl, .same rfl rfl rfl rfl rfl rfl, hc⟩

/-- **A local event** is a step of both halves. -/
theorem act_step (hc : c.Sound) (hf : c.freed = false) {e : Channel1Event}
    {r : Channel1 × List Channel1Msg} (h : c.act e = some r) :
    InputStep c r.1 r.2 none ∧ OutputStep c r.1 r.2 none ∧ r.1.Sound := by
  cases e with
  | handleRfd read =>
    simp only [act] at h
    split_ifs at h with hi
    obtain rfl := Option.some.inj h
    exact handleRfd_step hc hf hi read
  | handleWfd w =>
    obtain rfl := Option.some.inj h
    exact handleWfd_step hc hf w
  | preOpen =>
    obtain rfl := Option.some.inj h
    exact preOpen_step hc hf
  | outputPoll interactive maxsize =>
    obtain rfl := Option.some.inj h
    exact outputPoll_step hc hf interactive maxsize
  | garbageCollect =>
    obtain rfl := Option.some.inj h
    exact garbageCollect_step hc

/-- `channel_input_data`. -/
theorem inputData_step (hc : c.Sound) (bytes : List UInt8) :
    InputStep c (c.inputData bytes) [] (some (.data bytes)) ∧
      OutputStep c (c.inputData bytes) [] (some (.data bytes)) ∧ (c.inputData bytes).Sound := by
  unfold inputData
  split_ifs with h
  · exact ⟨.same rfl rfl rfl nofun rfl, .data bytes rfl rfl rfl rfl (if_neg h).symm rfl, hc⟩
  · have ho : c.ostate = .opened := not_not.mp h
    refine ⟨.same rfl rfl rfl nofun rfl, .data bytes rfl rfl rfl rfl (if_pos ho).symm rfl,
      ⟨hc.errors, ?_, hc.lost, hc.freed⟩⟩
    intro hsent
    simp [sentOclose, ho] at hsent

/-- `chan_rcvd_oclose1` of a half that waits for it, or that still is open. -/
theorem rcvdOclose1_step (hc : c.Sound) (hf : c.freed = false) (hg : c.gotOclose = false) :
    InputStep c c.rcvdOclose1.1 c.rcvdOclose1.2 (some .oclose) ∧
      OutputStep c c.rcvdOclose1.1 c.rcvdOclose1.2 (some .oclose) ∧ c.rcvdOclose1.1.Sound := by
  unfold rcvdOclose1
  match hi : c.istate with
  | .opened =>
    simp only [sendIeof1, shutdownRead, hi]
    exact ⟨.oclose (by simp [sentIeof, hi, isForward]) rfl rfl rfl,
      .same rfl rfl rfl rfl rfl rfl, sound_of_same hc rfl rfl rfl rfl hf⟩
  | .waitDrain =>
    simp only [sendIeof1, hi]
    exact ⟨.oclose (by simp [sentIeof, hi, isForward]) rfl rfl rfl,
      .same rfl rfl rfl rfl rfl rfl, sound_of_same hc rfl rfl rfl rfl hf⟩
  | .waitOclose =>
    exact ⟨.oclose (by simp [sentIeof, hi]) rfl rfl rfl,
      .same rfl rfl rfl rfl rfl rfl, sound_of_same hc rfl rfl rfl rfl hf⟩
  | .closed => simp [gotOclose, hi] at hg

/-- `chan_rcvd_ieof` changes the output half only. -/
theorem rcvdIeof_step (hc : c.Sound) (hf : c.freed = false) (hg : c.gotIeof = false) :
    OutputStep c c.rcvdIeof.1 c.rcvdIeof.2 (some .ieof) ∧ c.rcvdIeof.1.Sound ∧
      c.rcvdIeof.1.istate = c.istate ∧ c.rcvdIeof.1.input = c.input ∧
      c.rcvdIeof.1.bytesRead = c.bytesRead ∧ c.rcvdIeof.1.freed = false ∧
      c.rcvdIeof.2.filter isForward = [] := by
  unfold rcvdIeof rcvdIeof1
  match ho : c.ostate with
  | .opened =>
    have hdrain : Sound { c with ostate := .waitDrain } :=
      ⟨hc.errors, nofun, fun h => by simpa [sentOclose, ho] using hc.lost h,
        fun h => absurd h (by simp [hf])⟩
    dsimp only
    split_ifs with h
    · obtain ⟨heq, hsound⟩ := obufEmpty_step hdrain hf rfl h.2
      rw [heq]
      refine ⟨.ieof ?_ rfl (fun _ => rfl) rfl h.2.symm rfl, hsound, rfl, rfl, rfl, hf, rfl⟩
      simp [sentOclose, ho]
    · refine ⟨.ieof ?_ rfl ?_ rfl rfl rfl, hdrain, rfl, rfl, rfl, hf, rfl⟩
      · simp [sentOclose, ho]
      · simp [sentOclose, ho]
  | .waitIeof =>
    have hsent : c.sentOclose = true := by simp [sentOclose, ho]
    dsimp only
    rw [if_neg (by simp)]
    exact ⟨.ieof (by simp [sentOclose, ho]) rfl (fun _ => rfl) rfl rfl rfl,
      ⟨hc.errors, fun _ => hc.drained hsent, fun _ => rfl, fun h => absurd h (by simp [hf])⟩,
      rfl, rfl, rfl, hf, rfl⟩
  | .waitDrain => simp [gotIeof, ho] at hg
  | .closed => simp [gotIeof, ho] at hg

/-- The forced end of an input half that nobody reads from any more. -/
theorem forceInputDrain_cases (hc : c.Sound) (hf : c.freed = false) :
    InputStep c c.forceInputDrain.1 c.forceInputDrain.2 (some .ieof) ∧
      c.forceInputDrain.1.Sound ∧
      (∃ i, c.forceInputDrain.1 = { c with istate := i }) ∧
      c.forceInputDrain.2.count .oclose = 0 := by
  unfold forceInputDrain
  split_ifs with hforce
  · have hdrain : Sound { c with istate := .waitDrain } := sound_of_same hc rfl rfl rfl rfl hf
    have hsent : c.sentIeof = false := by simp [sentIeof, hforce.2]
    dsimp only
    split_ifs with hin
    · obtain ⟨heq, hsound⟩ := ibufEmpty_step hdrain hf rfl hin
      rw [heq]
      exact ⟨.ieof nofun rfl hsent rfl rfl hin hin rfl, hsound, ⟨.waitOclose, rfl⟩, rfl⟩
    · exact ⟨.keep [] nofun rfl hsent.symm (by simp [gotOclose, hforce.2]) (fun _ => rfl)
        (List.append_nil _).symm (List.append_nil _).symm, hdrain, ⟨.waitDrain, rfl⟩, rfl⟩
  · exact ⟨.same rfl rfl rfl nofun rfl, hc, ⟨c.istate, rfl⟩, rfl⟩

/-- `channel_input_ieof`. -/
theorem inputIeof_step (hc : c.Sound) (hf : c.freed = false) (hg : c.gotIeof = false) :
    InputStep c c.inputIeof.1 c.inputIeof.2 (some .ieof) ∧
      OutputStep c c.inputIeof.1 c.inputIeof.2 (some .ieof) ∧ c.inputIeof.1.Sound := by
  unfold inputIeof
  obtain ⟨hostep, hsound, hi, hin, hread, hfreed, hfwd⟩ := rcvdIeof_step hc hf hg
  generalize c.rcvdIeof = r at hostep hsound hi hin hread hfreed hfwd
  obtain ⟨histep, hsound', ⟨i, heq⟩, hcount⟩ := forceInputDrain_cases hsound hfreed
  refine ⟨histep.behind hi hin hread hfwd, ?_, hsound'⟩
  have hms : (r.2 ++ r.1.forceInputDrain.2).count .oclose = r.2.count .oclose := by
    rw [List.count_append, hcount, Nat.add_zero]
  dsimp only
  rw [heq]
  cases hostep with
  | keep bytes hgot => cases hgot
  | ieof hcnt heof' hsent hlost hout hwritten =>
    exact .ieof (hms.trans hcnt) heof' hsent hlost hout hwritten

/-- **A message** is a step of both halves, if it has not been heard before. -/
theorem receive_step (hc : c.Sound) (hf : c.freed = false) {m : Channel1Msg}
    (hnew : m = .oclose ∧ c.gotOclose = false ∨ isForward m = true ∧ c.gotIeof = false) :
    InputStep c (c.receive m).1 (c.receive m).2 (some m) ∧
      OutputStep c (c.receive m).1 (c.receive m).2 (some m) ∧ (c.receive m).1.Sound := by
  cases m with
  | data bytes => exact inputData_step hc bytes
  | ieof =>
    obtain ⟨h, -⟩ | ⟨-, hg⟩ := hnew
    · cases h
    · exact inputIeof_step hc hf hg
  | oclose =>
    obtain ⟨-, hg⟩ | ⟨h, -⟩ := hnew
    · exact rcvdOclose1_step hc hf hg
    · cases h

end Events

/-! ## What an end knows of all its messages -/

/-- **One end** after it has sent `sent` and taken `taken`. -/
structure Own (c : Channel1) (sent taken : List Channel1Msg) : Prop where
  sound : c.Sound
  /-- Data, and then at most one `INPUT_EOF`. -/
  forward : ∃ chunks : List (List UInt8),
    sent.filter isForward = chunks.map .data ++ if c.sentIeof then [.ieof] else []
  /-- What was read is sent, or still in the buffer. -/
  sentBytes : dataBytes sent ++ c.input = c.bytesRead
  oclose : sent.count .oclose = if c.sentOclose then 1 else 0
  gotIeof : c.gotIeof = true ↔ .ieof ∈ taken
  gotOclose : c.gotOclose = true ↔ .oclose ∈ taken
  written : c.bytesWritten <+: dataBytes taken
  delivered : c.writeLost = false → c.bytesWritten ++ c.output = dataBytes taken
  /-- `OUTPUT_CLOSE` before `INPUT_EOF` tells of a lost write. -/
  early : c.sentOclose = true → c.gotIeof = false → c.writeLost = true

section Histories

variable {c c' : Channel1} {sent taken ms : List Channel1Msg} {got : Option Channel1Msg}

theorem gotOclose_sentIeof (h : c.gotOclose = true) : c.sentIeof = true := by
  unfold gotOclose at h
  unfold sentIeof
  rw [h, Bool.or_true]

theorem gotOclose_eq_false (h : c.sentIeof = false) : c.gotOclose = false := by
  by_contra hclosed
  exact absurd (h.symm.trans (gotOclose_sentIeof (by simpa using hclosed))) (by decide)

/-- An output half that has heard no `INPUT_EOF` and sent no `OUTPUT_CLOSE` is open. -/
theorem ostate_opened (hg : c.gotIeof = false) (hs : c.sentOclose = false) :
    c.ostate = .opened := by
  unfold gotIeof at hg
  unfold sentOclose at hs
  match ho : c.ostate with
  | .opened => rfl
  | .waitDrain => simp [ho] at hg
  | .waitIeof => simp [ho] at hs
  | .closed => simp [ho] at hs

/-- **The input half** keeps what is known of its messages. -/
theorem Own.input_step (h : c.Own sent taken) (hi : InputStep c c' ms got) :
    (∃ chunks : List (List UInt8),
        (sent ++ ms).filter isForward = chunks.map .data ++ if c'.sentIeof then [.ieof] else []) ∧
      dataBytes (sent ++ ms) ++ c'.input = c'.bytesRead ∧
      (c'.gotOclose = true ↔ .oclose ∈ taken ++ got.toList) := by
  obtain ⟨chunks, hchunks⟩ := h.forward
  have hbytes : dataBytes (sent ++ ms) = dataBytes sent ++ dataBytes (ms.filter isForward) := by
    rw [dataBytes_append, dataBytes_filter]
  rw [List.filter_append, hchunks, hbytes, List.mem_append, ← h.gotOclose]
  have hsentBytes := h.sentBytes
  cases hi with
  | keep bytes hgot hms hsent hclosed hopen hin hread =>
    refine ⟨⟨chunks, by rw [hms, List.append_nil, hsent]⟩, ?_, ?_⟩
    · rw [hms, hin, hread, ← hsentBytes]
      simp
    · rw [hclosed]
      refine (or_iff_left ?_).symm
      intro hmem
      exact hgot (Option.mem_toList.mp hmem)
  | data bytes hms hsent hsent' hin hread =>
    have hclosed : c.gotOclose = false := gotOclose_eq_false hsent
    have hclosed' : c'.gotOclose = false := gotOclose_eq_false hsent'
    refine ⟨⟨chunks ++ [bytes], by simp [hms, hsent, hsent']⟩, ?_, by simp [hclosed, hclosed']⟩
    rw [hms, hread, ← hsentBytes, hin, ← List.append_assoc]
    simp [dataBytes, Channel1Msg.bytes]
  | ieof hgot hms hsent hsent' hclosed' hin hin' hread =>
    have hclosed : c.gotOclose = false := gotOclose_eq_false hsent
    refine ⟨⟨chunks, by simp [hms, hsent, hsent']⟩, ?_, ?_⟩
    · rw [hms, hread, ← hsentBytes, hin, hin']
      simp [dataBytes, Channel1Msg.bytes]
    · rw [hclosed, hclosed']
      refine ⟨nofun, ?_⟩
      rintro (hf | hmem)
      · exact hf
      · exact absurd (Option.mem_toList.mp hmem) hgot
  | oclose hms hclosed' hin hread =>
    have hsent' : c'.sentIeof = true := gotOclose_sentIeof hclosed'
    refine ⟨⟨chunks, ?_⟩, ?_, by simp [hclosed']⟩
    · rw [hms, hsent']
      cases c.sentIeof <;> simp
    · rw [hms, hread, ← hsentBytes, hin]
      cases c.sentIeof <;> simp [dataBytes, Channel1Msg.bytes]

/-- **The output half** keeps what is known of its messages.  Data and `INPUT_EOF` come before
any `INPUT_EOF` has been taken. -/
theorem Own.output_step (h : c.Own sent taken) (ho : OutputStep c c' ms got)
    (hnew : ∀ m ∈ got, isForward m = true → c.gotIeof = false) :
    (sent ++ ms).count .oclose = (if c'.sentOclose then 1 else 0) ∧
      (c'.gotIeof = true ↔ .ieof ∈ taken ++ got.toList) ∧
      c'.bytesWritten <+: dataBytes (taken ++ got.toList) ∧
      (c'.writeLost = false →
        c'.bytesWritten ++ c'.output = dataBytes (taken ++ got.toList)) ∧
      (c'.sentOclose = true → c'.gotIeof = false → c'.writeLost = true) := by
  rw [List.count_append, h.oclose, dataBytes_append, List.mem_append, ← h.gotIeof]
  cases ho with
  | keep bytes hgot hms heof hsent hlost hout hwritten =>
    have hquiet : dataBytes got.toList = [] ∧ Channel1Msg.ieof ∉ got.toList := by
      match got with
      | none => exact ⟨rfl, nofun⟩
      | some .oclose => exact ⟨rfl, nofun⟩
    rw [hquiet.1, List.append_nil, hms, hsent, heof, hlost]
    refine ⟨rfl, (or_iff_left hquiet.2).symm, ?_, ?_, h.early⟩
    · cases hl : c.writeLost with
      | false =>
        rw [← h.delivered hl, hwritten, hout, ← List.append_assoc]
        exact List.prefix_append _ _
      | true =>
        -- After a lost write the buffer is empty, so nothing more is written.
        have hempty := h.sound.drained (h.sound.lost hl)
        rw [hout] at hempty
        rw [hwritten, (List.append_eq_nil_iff.mp hempty).1, List.append_nil]
        exact h.written
    · intro hl
      rw [← h.delivered hl, hwritten, hout, List.append_assoc]
  | data bytes hms heof hsent hlost hout hwritten =>
    have hg : c.gotIeof = false := hnew _ rfl rfl
    rw [hms, hsent, heof, hlost, hwritten, hout]
    refine ⟨rfl, by simp [hg], h.written.trans (List.prefix_append _ _), ?_, h.early⟩
    intro hl
    have hopen : c.ostate = .opened := by
      refine ostate_opened hg ?_
      by_contra hs
      exact absurd (hl.symm.trans (h.early (by simpa using hs) hg)) (by decide)
    rw [if_pos hopen, ← List.append_assoc, h.delivered hl]
    simp [dataBytes, Channel1Msg.bytes]
  | ieof hms heof' hsent hlost hout hwritten =>
    have hg : c.gotIeof = false := hnew _ rfl rfl
    have hno : dataBytes (some Channel1Msg.ieof).toList = [] := rfl
    rw [hms, hno, List.append_nil, hlost, hwritten, hout]
    refine ⟨?_, by simp [heof'], h.written, h.delivered, ?_⟩
    · cases hs : c.sentOclose with
      | true => simp [hsent hs]
      | false => cases c'.sentOclose <;> rfl
    · intro _ hf
      exact absurd (heof'.symm.trans hf) (by decide)
  | oclose hms heof hsent hsent' hlost hwritten =>
    have hno : dataBytes (none : Option Channel1Msg).toList = [] := rfl
    rw [hms, hsent, hsent', hno, List.append_nil, heof, hwritten]
    refine ⟨rfl, by simp, h.written, ?_, ?_⟩
    · intro hl
      obtain hl' | ⟨-, hout, hout', hsame⟩ := hlost
      · exact absurd (hl.symm.trans hl') (by decide)
      · rw [hout', ← hout]
        exact h.delivered (hsame ▸ hl)
    · intro _ hf
      obtain hl' | ⟨hg, -⟩ := hlost
      · exact hl'
      · exact absurd (hg.symm.trans hf) (by decide)

/-- **One event of an end.** -/
theorem Own.step (h : c.Own sent taken) (hi : InputStep c c' ms got) (ho : OutputStep c c' ms got)
    (hsound : c'.Sound) (hnew : ∀ m ∈ got, isForward m = true → c.gotIeof = false) :
    c'.Own (sent ++ ms) (taken ++ got.toList) := by
  obtain ⟨hforward, hsent, hgotOclose⟩ := h.input_step hi
  obtain ⟨hoclose, hgotIeof, hwritten, hdelivered, hearly⟩ := h.output_step ho hnew
  exact ⟨hsound, hforward, hsent, hoclose, hgotIeof, hgotOclose, hwritten, hdelivered, hearly⟩

/-- Nothing of the forward direction comes after `INPUT_EOF`. -/
theorem Own.ieof_last (h : c.Own sent taken) {l : List Channel1Msg} {m : Channel1Msg}
    (hl : l ++ [m] <+: sent) (hm : isForward m = true) : .ieof ∉ l := by
  obtain ⟨chunks, hchunks⟩ := h.forward
  have hfilter : l.filter isForward ++ [m] <+: sent.filter isForward := by
    have hf := hl.filter isForward
    rwa [List.filter_append, List.filter_cons_of_pos hm, List.filter_nil] at hf
  rw [hchunks] at hfilter
  have hlen := hfilter.length_le
  have htail : (if c.sentIeof then [Channel1Msg.ieof] else []).length ≤ 1 := by
    split_ifs <;> simp
  have hshort : l.filter isForward <+: chunks.map .data := by
    refine List.prefix_of_prefix_length_le ((List.prefix_append _ _).trans hfilter)
      (List.prefix_append _ _) ?_
    simp only [List.length_append, List.length_singleton] at hlen
    omega
  intro hmem
  have hdata := hshort.subset (List.mem_filter.mpr ⟨hmem, rfl⟩)
  obtain ⟨bytes, -, hb⟩ := List.mem_map.mp hdata
  cases hb

/-- `OUTPUT_CLOSE` is sent once. -/
theorem Own.oclose_once (h : c.Own sent taken) {l : List Channel1Msg}
    (hl : l ++ [.oclose] <+: sent) : .oclose ∉ l := by
  have hcount : (l ++ [Channel1Msg.oclose]).count .oclose ≤ sent.count .oclose :=
    hl.sublist.count_le _
  rw [h.oclose, List.count_append, List.count_singleton_self] at hcount
  have hone : (if c.sentOclose then 1 else 0) ≤ 1 := by split_ifs <;> simp
  exact List.count_eq_zero.mp (by omega)

/-- `INPUT_EOF` is among the messages that were sent exactly if the state says so. -/
theorem Own.sentIeof_iff (h : c.Own sent taken) : .ieof ∈ sent ↔ c.sentIeof = true := by
  obtain ⟨chunks, hchunks⟩ := h.forward
  have hmem : Channel1Msg.ieof ∈ sent ↔ Channel1Msg.ieof ∈ sent.filter isForward :=
    ⟨fun hm => List.mem_filter.mpr ⟨hm, rfl⟩, fun hm => (List.mem_filter.mp hm).1⟩
  rw [hmem, hchunks]
  cases c.sentIeof <;> simp

/-- `OUTPUT_CLOSE` is among the messages that were sent exactly if the state says so. -/
theorem Own.sentOclose_iff (h : c.Own sent taken) : .oclose ∈ sent ↔ c.sentOclose = true := by
  rw [← List.count_pos_iff, h.oclose]
  cases c.sentOclose <;> simp

end Histories

end Channel1

/-! ## Both ends -/

/-- **The two ends.**  `p` has taken some of the messages of `q`; what it had read is all sent when
it has closed its input half, unless `q` has lost a write. -/
structure Ends1 (p q : Channel1End) : Prop where
  own : p.state.Own p.sent (q.sent.take p.taken)
  taken : p.taken ≤ q.sent.length
  complete : p.state.sentIeof = true → q.state.writeLost = false → p.state.input = []

namespace Ends1

open Duplex (Move)
open Channel1 (InputStep OutputStep)

variable {p q p' : Channel1End}

/-- The next message has not been heard before. -/
theorem next_new (hp : Ends1 p q) (hq : Ends1 q p) {m : Channel1Msg}
    (hm : q.sent[p.taken]? = some m) :
    q.sent.take (p.taken + 1) = q.sent.take p.taken ++ [m] ∧
      (m = .oclose ∧ p.state.gotOclose = false ∨
        isForward m = true ∧ p.state.gotIeof = false) := by
  have htake : q.sent.take (p.taken + 1) = q.sent.take p.taken ++ [m] := by
    rw [List.take_add_one, hm, Option.toList_some]
  have hpre : q.sent.take p.taken ++ [m] <+: q.sent := htake ▸ List.take_prefix _ _
  refine ⟨htake, ?_⟩
  by_cases hf : isForward m = true
  · have hno := hq.own.ieof_last hpre hf
    rw [← hp.own.gotIeof] at hno
    exact .inr ⟨hf, by simpa using hno⟩
  · obtain rfl : m = .oclose := by
      cases m with
      | data bytes => exact absurd rfl hf
      | ieof => exact absurd rfl hf
      | oclose => rfl
    have hno := hq.own.oclose_once hpre
    rw [← hp.own.gotOclose] at hno
    exact .inl ⟨rfl, by simpa using hno⟩

/-- **Any move** is a step of both halves of the end that moves. -/
theorem move_step (hp : Ends1 p q) (hq : Ends1 q p) {e : Option Channel1Event}
    (h : Move channel1Machine p q e p') :
    ∃ ms got, InputStep p.state p'.state ms got ∧ OutputStep p.state p'.state ms got ∧
      p'.state.Sound ∧ p'.sent = p.sent ++ ms ∧
      q.sent.take p'.taken = q.sent.take p.taken ++ got.toList ∧ p'.taken ≤ q.sent.length ∧
      (∀ m ∈ got, m ∈ q.sent ∧ (isForward m = true → p.state.gotIeof = false)) := by
  cases h with
  | @act e r h =>
    simp only [channel1Machine] at h
    split_ifs at h with hf
    obtain ⟨hi, ho, hsound⟩ := Channel1.act_step hp.own.sound (by simpa using hf) h
    exact ⟨r.2, none, hi, ho, hsound, rfl, (List.append_nil _).symm, hp.taken, nofun⟩
  | @receive m r hm h =>
    simp only [channel1Machine] at h
    split_ifs at h with hf
    obtain rfl := Option.some.inj h
    obtain ⟨htake, hnew⟩ := next_new hp hq hm
    obtain ⟨hi, ho, hsound⟩ := Channel1.receive_step hp.own.sound (by simpa using hf) hnew
    refine ⟨_, some m, hi, ho, hsound, rfl, htake, (List.getElem?_eq_some_iff.mp hm).1, ?_⟩
    rintro m' ⟨⟩
    refine ⟨List.mem_of_getElem? hm, fun hfwd => ?_⟩
    obtain ⟨rfl, -⟩ | ⟨-, hg⟩ := hnew
    · cases hfwd
    · exact hg

/-- What an end had read is still all sent after a step of its input half. -/
theorem complete_step (hp : Ends1 p q) (hq : Ends1 q p) (hi : InputStep p.state p'.state ms got)
    (hgot : ∀ m ∈ got, m ∈ q.sent) (hsent : p'.state.sentIeof = true)
    (hlost : q.state.writeLost = false) : p'.state.input = [] := by
  cases hi with
  | keep bytes _ _ hsame _ hopen hin _ =>
    have hbefore : p.state.sentIeof = true := hsame ▸ hsent
    rw [hin, hp.complete hbefore hlost, hopen hbefore, List.append_nil]
  | data bytes _ _ hsent' => exact absurd (hsent'.symm.trans hsent) (by decide)
  | ieof _ _ _ _ _ _ hin' => exact hin'
  | oclose _ _ hin _ =>
    rw [hin]
    by_cases hbefore : p.state.sentIeof = true
    · exact hp.complete hbefore hlost
    -- `OUTPUT_CLOSE` has come before this end sent `INPUT_EOF`: the peer has lost a write.
    have hclosed := hq.own.sentOclose_iff.mp (hgot _ rfl)
    have hnone : q.state.gotIeof = false := by
      by_contra hg
      have hmem := hq.own.gotIeof.mp (by simpa using hg)
      exact hbefore (hp.own.sentIeof_iff.mp (List.mem_of_mem_take hmem))
    exact absurd (hlost.symm.trans (hq.own.early hclosed hnone)) (by decide)

/-- A lost write is never forgotten. -/
theorem writeLost_mono {c : Channel1} (ho : OutputStep c c' ms got) (h : c'.writeLost = false) :
    c.writeLost = false := by
  cases ho with
  | keep _ _ _ _ _ hlost => exact hlost ▸ h
  | data _ _ _ _ hlost => exact hlost ▸ h
  | ieof _ _ _ hlost => exact hlost ▸ h
  | oclose _ _ _ _ hlost =>
    obtain hl | ⟨-, -, -, hsame⟩ := hlost
    · exact absurd (h.symm.trans hl) (by decide)
    · exact hsame ▸ h

/-- **A move keeps what holds of both ends.** -/
theorem move (hp : Ends1 p q) (hq : Ends1 q p) {e : Option Channel1Event}
    (h : Move channel1Machine p q e p') : Ends1 p' q ∧ Ends1 q p' := by
  obtain ⟨ms, got, hi, ho, hsound, hsent, htake, htaken, hgot⟩ := move_step hp hq h
  constructor
  · refine ⟨?_, htaken, complete_step hp hq hi fun m hm => (hgot m hm).1⟩
    rw [hsent, htake]
    exact hp.own.step hi ho hsound fun m hm => (hgot m hm).2
  · refine ⟨?_, ?_, fun hs hl => hq.complete hs (writeLost_mono ho hl)⟩
    · rw [hsent, List.take_append_of_le_length hq.taken]
      exact hq.own
    · rw [hsent, List.length_append]
      exact Nat.le_add_right_of_le hq.taken

/-- Both ends when the channel is open. -/
theorem established (forceDrain : Bool → Bool) (b : Bool) :
    Ends1 (established1 forceDrain b) (established1 forceDrain !b) where
  own :=
    { sound := ⟨rfl, nofun, nofun, nofun⟩
      forward := ⟨[], rfl⟩
      sentBytes := rfl
      oclose := rfl
      gotIeof := ⟨nofun, nofun⟩
      gotOclose := ⟨nofun, nofun⟩
      written := List.nil_prefix
      delivered := fun _ => rfl
      early := nofun }
  taken := Nat.le_refl 0
  complete := nofun

/-- The messages of the peer are those that were taken and those on their way. -/
theorem take_append_incoming (p q : Channel1End) :
    q.sent.take p.taken ++ p.incoming q = q.sent :=
  List.take_append_drop _ _

/-- What `q` still has to come after `INPUT_EOF` is no data. -/
theorem incoming_of_gotIeof (hp : Ends1 p q) (hq : Ends1 q p) (hg : p.state.gotIeof = true) :
    ∀ m ∈ p.incoming q, m = .oclose := by
  intro m hm
  have hieof := hp.own.gotIeof.mp hg
  obtain ⟨l, r, hlr⟩ := List.append_of_mem hm
  have hpre : (q.sent.take p.taken ++ l) ++ [m] <+: q.sent := by
    nth_rewrite 2 [← take_append_incoming p q]
    rw [hlr]
    simp
  cases m with
  | oclose => rfl
  | data bytes => exact absurd (List.mem_append_left l hieof) (hq.own.ieof_last hpre rfl)
  | ieof => exact absurd (List.mem_append_left l hieof) (hq.own.ieof_last hpre rfl)

/-- Nothing comes for an end that has heard both words. -/
theorem incoming_of_closed (hp : Ends1 p q) (hq : Ends1 q p) (hg : p.state.gotIeof = true)
    (hc : p.state.gotOclose = true) : p.incoming q = [] := by
  have hmem := hp.own.gotOclose.mp hc
  match hin : p.incoming q with
  | [] => rfl
  | m :: r =>
    have hm : m = .oclose := by
      apply incoming_of_gotIeof hp hq hg
      rw [hin]
      exact List.mem_cons_self
    have hpre : q.sent.take p.taken ++ [.oclose] <+: q.sent := by
      nth_rewrite 2 [← take_append_incoming p q]
      rw [hin, hm]
      simp
    exact absurd hmem (hq.own.oclose_once hpre)

/-- **Everything arrives**: a closed output half that has lost no write has written all that the
peer has read. -/
theorem written_all (hp : Ends1 p q) (hq : Ends1 q p) (ho : p.state.ostate = .closed)
    (hl : p.state.writeLost = false) : p.state.bytesWritten = q.state.bytesRead := by
  have hg : p.state.gotIeof = true := by simp [Channel1.gotIeof, ho]
  have hsent : q.state.sentIeof = true :=
    hq.own.sentIeof_iff.mp (List.mem_of_mem_take (hp.own.gotIeof.mp hg))
  have hrest : dataBytes (p.incoming q) = [] := by
    unfold dataBytes
    rw [List.flatMap_eq_nil_iff]
    intro m hm
    rw [incoming_of_gotIeof hp hq hg m hm]
    rfl
  have hall : dataBytes q.sent = dataBytes (q.sent.take p.taken) := by
    nth_rewrite 1 [← take_append_incoming p q]
    rw [dataBytes_append, hrest, List.append_nil]
  calc p.state.bytesWritten
      = p.state.bytesWritten ++ p.state.output := by
        rw [hp.own.sound.drained (by simp [Channel1.sentOclose, ho]), List.append_nil]
    _ = dataBytes (q.sent.take p.taken) := hp.own.delivered hl
    _ = dataBytes q.sent ++ q.state.input := by
        rw [hall, hq.complete hsent hl, List.append_nil]
    _ = q.state.bytesRead := hq.own.sentBytes

end Ends1

/-- **The close handshake of protocol 1.5.**  In every run of two ends from an open channel,
whatever descriptors fail and in whatever order things happen:
`nchan.c` never calls `error`; an end sends data, then at most one `INPUT_EOF`, and at most one
`OUTPUT_CLOSE`; the next message is never one for a freed channel, and for a freed channel none is
on its way, the peer having said both words; what is written was read by the peer, and all of it
when the output half is closed and no write was lost. -/
theorem close_handshake_ssh1 {forceDrain : Bool → Bool}
    {events : List (Duplex.Event Channel1Event)} {s : Bool → Channel1End}
    (h : run (Duplex.step channel1Machine) (established1 forceDrain) events = some s) (b : Bool) :
    (s b).state.errors = [] ∧
      (∃ (chunks : List (List UInt8)) (last : List Channel1Msg),
        (last = [] ∨ last = [.ieof]) ∧ (s b).sent.filter isForward = chunks.map .data ++ last) ∧
      (s b).sent.count .oclose ≤ 1 ∧
      (∀ m, (s !b).sent[(s b).taken]? = some m →
        (Duplex.step channel1Machine s (.deliver b)).isSome) ∧
      ((s b).state.freed = true →
        (s b).incoming (s !b) = [] ∧ .ieof ∈ (s !b).sent ∧ .oclose ∈ (s !b).sent) ∧
      (s b).state.bytesWritten <+: (s !b).state.bytesRead ∧
      ((s b).state.ostate = .closed → (s b).state.writeLost = false →
        (s b).state.bytesWritten = (s !b).state.bytesRead) := by
  have hends : ∀ b, Ends1 (s b) (s !b) := by
    refine inv_run (I := fun s => ∀ b, Ends1 (s b) (s !b)) ?_ h (Ends1.established forceDrain)
    intro s ev s' hs hstep
    exact Duplex.inv_step (fun hp hq hmove => hp.move hq hmove) hstep hs
  have hp := hends b
  have hq := hends !b
  rw [Bool.not_not] at hq
  generalize hpb : s b = p at hp hq
  generalize hqb : (s !b) = q at hp hq
  have hfreed : p.state.freed = true → p.incoming q = [] := by
    intro hf
    obtain ⟨hi, ho⟩ := hp.own.sound.freed hf
    apply hp.incoming_of_closed hq
    · simp [Channel1.gotIeof, ho]
    · simp [Channel1.gotOclose, hi]
  refine ⟨hp.own.sound.errors, ?_, ?_, ?_, ?_, ?_, hp.written_all hq⟩
  · obtain ⟨chunks, hchunks⟩ := hp.own.forward
    refine ⟨chunks, _, ?_, hchunks⟩
    split_ifs
    · exact .inr rfl
    · exact .inl rfl
  · rw [hp.own.oclose]
    split_ifs <;> simp
  · intro m hm
    have hf : p.state.freed = false := by
      by_contra hf
      have hnone := hfreed (by simpa using hf)
      rw [Duplex.incoming_take hm] at hnone
      cases hnone
    have hr : channel1Machine.receive p.state m = some (p.state.receive m) := by
      simp [channel1Machine, hf]
    subst hpb hqb
    rw [Duplex.step_deliver hm hr]
    rfl
  · intro hf
    obtain ⟨hi, ho⟩ := hp.own.sound.freed hf
    refine ⟨hfreed hf, ?_, ?_⟩
    · exact List.mem_of_mem_take (hp.own.gotIeof.mp (by simp [Channel1.gotIeof, ho]))
    · exact List.mem_of_mem_take (hp.own.gotOclose.mp (by simp [Channel1.gotOclose, hi]))
  · calc p.state.bytesWritten
        <+: dataBytes (q.sent.take p.taken) := hp.own.written
      _ <+: dataBytes q.sent := by
        nth_rewrite 2 [← Ends1.take_append_incoming p q]
        rw [dataBytes_append]
        exact List.prefix_append _ _
      _ <+: q.state.bytesRead := by
        rw [← hq.own.sentBytes]
        exact List.prefix_append _ _

/-- One end reads two bytes and the end of its file, while a write of the other fails. -/
def crossedClose : List (Duplex.Event Channel1Event) :=
  [.act true (.handleRfd (.data [1, 2])), .act false (.handleRfd (.data [7])),
    .act true (.outputPoll true 1024), .act false (.outputPoll true 1024),
    .deliver false, .deliver true, .act true (.handleWfd .failed),
    .act false (.handleWfd (.wrote 2)), .act true (.handleRfd (.data [])),
    .act true (.outputPoll true 1024), .deliver false, .deliver false, .deliver true,
    .deliver true, .act true .garbageCollect, .act false .garbageCollect]

/-- The words cross, both ends are freed, and the end that lost a write keeps the rest right. -/
theorem close_handshake_ssh1_crossed :
    ∃ s, run (Duplex.step channel1Machine) (established1 fun _ => false) crossedClose = some s ∧
      (s true).state.freed = true ∧ (s true).incoming (s false) = [] ∧
      (s true).state.errors = [] ∧ (s false).state.freed = true ∧
      (s false).state.bytesWritten = [1, 2] ∧
      (s false).state.bytesWritten = (s true).state.bytesRead := by
  have hrun : (run (Duplex.step channel1Machine) (established1 fun _ => false) crossedClose).map
      (fun s => ((s true).state.freed, (s false).state.freed, (s false).state.ostate,
        (s false).state.writeLost, (s false).state.bytesWritten)) =
      some (true, true, .closed, false, [1, 2]) := by
    decide +kernel
  obtain ⟨s, hs, hproj⟩ := Option.map_eq_some_iff.mp hrun
  simp only [Prod.mk.injEq] at hproj
  obtain ⟨htrue, hfalse, hostate, hlost, hwritten⟩ := hproj
  obtain ⟨herr, -, -, -, hgone, -, -⟩ := close_handshake_ssh1 hs true
  obtain ⟨-, -, -, -, -, -, hall⟩ := close_handshake_ssh1 hs false
  exact ⟨s, hs, htrue, (hgone htrue).1, herr, hfalse, hwritten, hall hostate hlost⟩

end CSBuFLO
