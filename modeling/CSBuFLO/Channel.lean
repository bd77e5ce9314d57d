/-
# Channels (`channels.c`, `nchan.c`)

An open SSH2 channel moves data between local descriptors and the connection, within the windows
of the two ends, and is closed by a handshake: each half has its own state, `EOF` and `CLOSE`
are sent on the way, and the channel is freed when `CLOSE` has gone both ways.

The model has one function per function of the source.  A function that sends channel messages
returns them with the new channel; `none` is a `fatal` or a disconnect.  The states
`CHAN_INPUT_WAIT_OCLOSE` and `CHAN_OUTPUT_WAIT_IEOF` belong to SSH1 only.  Which descriptors
`select` reports is left open: any of the local events may happen at any time.

`channelMachine` is what both ends run; `Duplex.step` connects two of them.
-/
import CSBuFLO.Duplex
import CSBuFLO.PacketFormat

namespace CSBuFLO

/-! ## The channel -/

/-- The states of one half of a channel: `CHAN_INPUT_*` and `CHAN_OUTPUT_*`. -/
inductive HalfState where
  | opened
  | waitDrain
  | closed
  deriving DecidableEq, Repr

/-- `CHAN_EXTENDED_*`: what `efd` and the buffer `extended` are used for. -/
inductive ExtendedUsage where
  | ignore
  | read
  | write
  deriving DecidableEq, Repr

/-- A channel.  `session` is `ctype == "session"`; a descriptor is true as long as it is not
-1. -/
structure Channel where
  datagram : Bool := false
  extendedUsage : ExtendedUsage := .ignore
  forceDrain : Bool := false
  session : Bool := false
  detachUser : Bool := false
  detachClose : Bool := false
  localWindowMax : ℕ
  localMaxpacket : ℕ
  remoteMaxpacket : ℕ
  istate : HalfState := .opened
  ostate : HalfState := .opened
  closeSent : Bool := false
  closeRcvd : Bool := false
  eofSent : Bool := false
  eofRcvd : Bool := false
  sock : Bool := true
  rfd : Bool := true
  wfd : Bool := true
  efd : Bool := false
  input : List UInt8 := []
  output : List UInt8 := []
  extended : List UInt8 := []
  localWindow : ℕ
  localConsumed : ℕ := 0
  remoteWindow : ℕ
  deriving DecidableEq, Repr

/-- The messages of a channel; `eow` is the request `eow@openssh.com`. -/
inductive ChanMsg where
  | data (bytes : List UInt8)
  | extendedData (bytes : List UInt8)
  | windowAdjust (n : ℕ)
  | eof
  | close
  | eow
  deriving DecidableEq, Repr

/-- What a `read` returned; no bytes at all are the end of the file. -/
inductive FdRead where
  | data (bytes : List UInt8)
  | again
  | failed
  deriving DecidableEq, Repr

/-- What a `write` returned. -/
inductive FdWrite where
  | wrote (n : ℕ)
  | again
  | failed
  deriving DecidableEq, Repr

/-- `buffer_put_string`: the bytes behind their length. -/
def putString (bytes : List UInt8) : List UInt8 := putU32 bytes.length ++ bytes

theorem length_putString (bytes : List UInt8) : (putString bytes).length = bytes.length + 4 := by
  unfold putString
  rw [List.length_append, length_putU32]
  omega

/-- `buffer_get_string`: a string and what follows it; `none` is its `fatal`. -/
def getString (buffer : List UInt8) : Option (List UInt8 × List UInt8) :=
  let len := getU32 buffer
  if buffer.length < 4 ∨ 256 * 1024 < len ∨ buffer.length - 4 < len then none
  else some ((buffer.drop 4).take len, buffer.drop (4 + len))

/-- A string takes four bytes more than it has. -/
theorem length_getString {buffer bytes rest : List UInt8}
    (h : getString buffer = some (bytes, rest)) :
    buffer.length = bytes.length + 4 + rest.length := by
  unfold getString at h
  dsimp only at h
  split at h
  · cases h
  · rename_i hlen
    obtain ⟨rfl, rfl⟩ := Prod.mk.inj (Option.some.inj h)
    rw [List.length_take, List.length_drop, List.length_drop]
    omega

namespace Channel

variable (c : Channel)

/-! ## `nchan.c` -/

/-- `CHANNEL_EFD_INPUT_ACTIVE`. -/
def efdInputActive : Bool := c.extendedUsage = .read && (c.efd || c.extended ≠ [])

/-- `CHANNEL_EFD_OUTPUT_ACTIVE`. -/
def efdOutputActive : Bool :=
  c.extendedUsage = .write && c.efd && (!(c.eofRcvd || c.closeRcvd) || c.extended ≠ [])

/-- `chan_shutdown_write`. -/
def shutdownWrite : Channel := { c with output := [], wfd := c.wfd && c.sock }

/-- `chan_shutdown_read`. -/
def shutdownRead : Channel := { c with rfd := c.rfd && c.sock }

/-- `chan_read_failed`. -/
def readFailed : Channel :=
  match c.istate with
  | .opened => { c.shutdownRead with istate := .waitDrain }
  | _ => c

/-- `chan_send_eof2`. -/
def sendEof2 : Channel × List ChanMsg :=
  match c.istate with
  | .waitDrain => ({ c with eofSent := true }, [.eof])
  | _ => (c, [])

/-- `chan_ibuf_empty`. -/
def ibufEmpty : Channel × List ChanMsg :=
  if c.input ≠ [] then (c, [])
  else
    match c.istate with
    | .waitDrain =>
      let r := if c.closeSent then (c, []) else c.sendEof2
      ({ r.1 with istate := .closed }, r.2)
    | _ => (c, [])

/-- `chan_obuf_empty`. -/
def obufEmpty : Channel :=
  if c.output ≠ [] then c
  else
    match c.ostate with
    | .waitDrain => { c.shutdownWrite with ostate := .closed }
    | _ => c

/-- `chan_send_eow2`, to a peer of this version. -/
def sendEow2 : List ChanMsg := if c.ostate = .closed then [] else [.eow]

/-- `chan_write_failed2`. -/
def writeFailed2 : Channel × List ChanMsg :=
  match c.ostate with
  | .closed => (c, [])
  | _ =>
    let c := c.shutdownWrite
    ({ c with ostate := .closed }, if c.session then c.sendEow2 else [])

/-- `chan_rcvd_close2`. -/
def rcvdClose2 : Channel × List ChanMsg :=
  let c := { c with closeRcvd := true }
  let c := if c.ostate = .opened then { c with ostate := .waitDrain } else c
  match c.istate with
  | .opened => ({ c.shutdownRead with istate := .closed }, [])
  | .waitDrain =>
    let r := c.sendEof2
    ({ r.1 with istate := .closed }, r.2)
  | .closed => (c, [])

/-- `chan_rcvd_eow`. -/
def rcvdEow : Channel :=
  match c.istate with
  | .opened => { c.shutdownRead with istate := .closed }
  | _ => c

/-- `chan_rcvd_eof2`. -/
def rcvdEof2 : Channel :=
  let c := { c with eofRcvd := true }
  if c.ostate = .opened then { c with ostate := .waitDrain } else c

/-- `chan_rcvd_ieof`. -/
def rcvdIeof : Channel :=
  let c := c.rcvdEof2
  if c.ostate = .waitDrain ∧ c.output = [] ∧ c.efdOutputActive = false then c.obufEmpty else c

/-- `chan_send_close2`. -/
def sendClose2 : Channel × List ChanMsg :=
  if c.ostate ≠ .closed ∨ c.istate ≠ .closed then (c, [])
  else if c.closeSent then (c, [])
  else ({ c with closeSent := true }, [.close])

/-- `chan_is_dead`. -/
def isDead (doSend : Bool) : Bool × Channel × List ChanMsg :=
  if c.istate ≠ .closed ∨ c.ostate ≠ .closed then (false, c, [])
  else if !c.closeSent && !doSend && c.closeRcvd then (true, c, [])
  else
    let r := if !c.closeSent && doSend then c.sendClose2 else (c, [])
    (r.1.closeSent && r.1.closeRcvd, r)

/-! ## `channels.c` -/

/-- The last part of `channel_garbage_collect`: the channel is freed (`none`) or stays. -/
def collect : Option Channel × List ChanMsg :=
  let d := c.isDead true
  (if d.1 then none else some d.2.1, d.2.2)

/-- `channel_garbage_collect`; `cancels` says whether the user's callback clears itself. -/
def garbageCollect (cancels : Bool) : Option Channel × List ChanMsg :=
  if c.detachUser then
    let d := c.isDead c.detachClose
    if d.1 && cancels then
      let r := collect { d.2.1 with detachUser := false, detachClose := false }
      (r.1, d.2.2 ++ r.2)
    else (some d.2.1, d.2.2)
  else c.collect

/-- **The garbage collector** leaves the channel alone, sends `CLOSE`, or frees it. -/
theorem garbageCollect_cases (cancels : Bool) :
    c.garbageCollect cancels = (some c, []) ∨
      (c.istate = .closed ∧ c.ostate = .closed ∧ c.closeSent = false ∧
        c.garbageCollect cancels = (some { c with closeSent := true }, [.close])) ∨
      (c.closeRcvd = true ∧
        c.garbageCollect cancels = (none, if c.closeSent then [] else [.close])) := by
  by_cases hopen : c.istate ≠ .closed ∨ c.ostate ≠ .closed
  · have hdead : ∀ doSend, c.isDead doSend = (false, c, []) := fun doSend => if_pos hopen
    left
    unfold garbageCollect collect
    simp [hdead]
  push Not at hopen
  obtain ⟨hi, ho⟩ := hopen
  -- With both halves closed only the flags and the user's callback matter.
  obtain ⟨_, _, _, _, detachUser, detachClose, _, _, _, istate, ostate, closeSent, closeRcvd⟩ := c
  obtain rfl : istate = .closed := hi
  obtain rfl : ostate = .closed := ho
  cases detachUser <;> cases detachClose <;> cases closeSent <;> cases closeRcvd <;>
    cases cancels <;>
    first
    | exact .inl rfl
    | exact .inr (.inl ⟨rfl, rfl, rfl, rfl⟩)
    | exact .inr (.inr ⟨rfl, rfl⟩)

/-- `channel_pre_open`. -/
def preOpen : Channel :=
  if c.ostate = .waitDrain ∧ c.output = [] ∧ c.efdOutputActive = false then c.obufEmpty else c

/-- `channel_handle_rfd`. -/
def handleRfd : FdRead → Channel
  | .again => c
  | .failed => if c.rfd then c.readFailed else c
  | .data [] => if c.rfd then c.readFailed else c
  | .data bytes =>
    if c.rfd then { c with input := c.input ++ if c.datagram then putString bytes else bytes }
    else c

/-- The end of `channel_handle_wfd`: what has left the output buffer counts as consumed. -/
def consumeOutput (rest : List UInt8) : Channel :=
  { c with
    output := rest
    localConsumed := addU32 c.localConsumed (c.output.length - rest.length) }

/-- `channel_handle_wfd`. -/
def handleWfd (w : FdWrite) : Option (Channel × List ChanMsg) :=
  if c.wfd = false ∨ c.output = [] then some (c, [])
  else if c.datagram then
    (getString c.output).map fun r =>
      match w with
      | .again => ({ c with output := r.2 }, [])
      | .failed => writeFailed2 { c with output := r.2 }
      | .wrote 0 => writeFailed2 { c with output := r.2 }
      | .wrote _ => (c.consumeOutput r.2, [])
  else
    some <| match w with
    | .again => (c, [])
    | .failed => c.writeFailed2
    | .wrote 0 => c.writeFailed2
    | .wrote n => (c.consumeOutput (c.output.drop n), [])

/-- The writing half of `channel_handle_efd`. -/
def writeEfd : FdWrite → Channel
  | .again => c
  | .failed => { c with efd := false }
  | .wrote 0 => { c with efd := false }
  | .wrote n =>
    { c with
      extended := c.extended.drop n
      localConsumed := addU32 c.localConsumed (c.extended.length - (c.extended.drop n).length) }

/-- The reading half of `channel_handle_efd`. -/
def readEfd : FdRead → Channel
  | .again => c
  | .failed => { c with efd := false }
  | .data [] => { c with efd := false }
  | .data bytes =>
    if c.extendedUsage = .ignore then c else { c with extended := c.extended ++ bytes }

/-- `channel_handle_efd`. -/
def handleEfd (w : FdWrite) (r : FdRead) : Channel :=
  if c.efd = false then c
  else if c.extendedUsage = .write then if c.extended = [] then c else c.writeEfd w
  else c.readEfd r

/-- `channel_check_window`. -/
def checkWindow : Channel × List ChanMsg :=
  if c.closeSent = false ∧ c.closeRcvd = false ∧
      ((c.localMaxpacket * 3) % 2 ^ 32 < subU32 c.localWindowMax c.localWindow ∨
        c.localWindow < c.localWindowMax / 2) ∧
      0 < c.localConsumed then
    ({ c with localWindow := addU32 c.localWindow c.localConsumed, localConsumed := 0 },
      [.windowAdjust c.localConsumed])
  else (c, [])

/-- How many of `n` buffered bytes `channel_output_poll` sends. -/
def sendable (n : ℕ) : ℕ := min (min n c.remoteWindow) c.remoteMaxpacket

/-- `channel_output_poll` with extended data. -/
def pollExtended : Channel × List ChanMsg :=
  if c.eofSent = false ∧ 0 < c.remoteWindow ∧ c.extended ≠ [] ∧ c.extendedUsage = .read then
    let len := c.sendable c.extended.length
    ({ c with
        extended := c.extended.drop len
        remoteWindow := subU32 c.remoteWindow len },
      [.extendedData (c.extended.take len)])
  else (c, [])

/-- `channel_output_poll` with a datagram. -/
def pollDatagram : Option (Channel × List ChanMsg) :=
  (getString c.input).map fun r =>
    let c := { c with input := r.2 }
    if c.remoteWindow < r.1.length ∨ c.remoteMaxpacket < r.1.length then (c, [])
    else ({ c with remoteWindow := subU32 c.remoteWindow (r.1.length + 4) }, [.data r.1])

/-- `channel_output_poll` with stream data. -/
def pollStream : Channel × List ChanMsg :=
  let len := c.sendable c.input.length
  if len = 0 then (c, [])
  else
    ({ c with
        input := c.input.drop len
        remoteWindow := subU32 c.remoteWindow len },
      [.data (c.input.take len)])

/-- `channel_output_poll` with an empty input buffer. -/
def pollEmpty : Channel × List ChanMsg :=
  if c.istate = .waitDrain ∧ c.efdInputActive = false then c.ibufEmpty else (c, [])

/-- `channel_output_poll`. -/
def outputPoll : Option (Channel × List ChanMsg) :=
  if c.closeSent = true ∨ c.closeRcvd = true then some (c, [])
  else if c.istate ≠ .closed ∧ c.input ≠ [] then
    if c.datagram then c.pollDatagram
    else
      let r := c.pollStream
      let x := r.1.pollExtended
      some (x.1, r.2 ++ x.2)
  else
    let r := c.pollEmpty
    let x := r.1.pollExtended
    some (x.1, r.2 ++ x.2)

/-- What a data message takes from the window: a datagram is charged with its header. -/
def winLen (bytes : List UInt8) : ℕ := bytes.length + if c.datagram then 4 else 0

/-- `channel_input_data`. -/
def inputData (bytes : List UInt8) : Channel :=
  if c.ostate ≠ .opened then
    { c with
      localWindow := subU32 c.localWindow (c.winLen bytes)
      localConsumed := addU32 c.localConsumed (c.winLen bytes) }
  else if c.localWindow < c.winLen bytes then c
  else
    { c with
      localWindow := subU32 c.localWindow (c.winLen bytes)
      output := c.output ++ if c.datagram then putString bytes else bytes }

/-- `channel_input_extended_data`; data after the end of the file ends the connection. -/
def inputExtendedData (bytes : List UInt8) : Option Channel :=
  if c.eofRcvd then none
  else if c.efd = false ∨ c.extendedUsage ≠ .write then some c
  else if c.localWindow < bytes.length then some c
  else some { c with
    localWindow := subU32 c.localWindow bytes.length
    extended := c.extended ++ bytes }

/-- `channel_input_ieof`. -/
def inputIeof : Channel × List ChanMsg :=
  let c := c.rcvdIeof
  if c.forceDrain ∧ c.istate = .opened then
    let c := { c with istate := .waitDrain }
    if c.input = [] then c.ibufEmpty else (c, [])
  else (c, [])

/-- `channel_input_window_adjust`. -/
def inputWindowAdjust (n : ℕ) : Channel := { c with remoteWindow := addU32 c.remoteWindow n }

end Channel

/-! ## The two ends -/

/-- What can happen to a channel locally. -/
inductive ChanEvent where
  | handleRfd (r : FdRead)
  | handleWfd (w : FdWrite)
  | handleEfd (w : FdWrite) (r : FdRead)
  | checkWindow
  | preOpen
  | outputPoll
  | garbageCollect (cancels : Bool)
  deriving DecidableEq, Repr

/-- A local event of a channel that has not been freed. -/
def Channel.act (c : Channel) : ChanEvent → Option (Option Channel × List ChanMsg)
  | .handleRfd r => some (some (c.handleRfd r), [])
  | .handleWfd w => (c.handleWfd w).map fun r => (some r.1, r.2)
  | .handleEfd w r => some (some (c.handleEfd w r), [])
  | .checkWindow => some (some c.checkWindow.1, c.checkWindow.2)
  | .preOpen => some (some c.preOpen, [])
  | .outputPoll => c.outputPoll.map fun r => (some r.1, r.2)
  | .garbageCollect cancels => some (c.garbageCollect cancels)

/-- A message for a channel that has not been freed. -/
def Channel.receive (c : Channel) : ChanMsg → Option (Channel × List ChanMsg)
  | .data bytes => some (c.inputData bytes, [])
  | .extendedData bytes => (c.inputExtendedData bytes).map fun c => (c, [])
  | .windowAdjust n => some (c.inputWindowAdjust n, [])
  | .eof => some c.inputIeof
  | .close => some c.rcvdClose2
  | .eow => some (c.rcvdEow, [])

/-- A message for a channel id that has been freed: a window adjustment is only logged, as `eow`
is by the client; the others end the connection. -/
def receiveFreed : ChanMsg → Option (Option Channel × List ChanMsg)
  | .windowAdjust _ => some (none, [])
  | .eow => some (none, [])
  | _ => none

/-- What both ends of a channel run; the state `none` is a freed channel. -/
def channelMachine : Duplex.Machine (Option Channel) ChanEvent ChanMsg where
  act s e := s.bind fun c => c.act e
  receive s m :=
    match s with
    | none => receiveFreed m
    | some c => (c.receive m).map fun r => (some r.1, r.2)

/-- One end of a channel. -/
abbrev ChanEnd : Type := Duplex.Party (Option Channel) ChanMsg

/-- A channel that has just been opened. -/
structure Channel.Fresh (c : Channel) : Prop where
  istate : c.istate = .opened
  ostate : c.ostate = .opened
  closeSent : c.closeSent = false
  closeRcvd : c.closeRcvd = false
  eofSent : c.eofSent = false
  eofRcvd : c.eofRcvd = false

/-- The two ends when both know that the channel is open: no message of it is on its way. -/
def established (c : Bool → Channel) : Bool → ChanEnd := fun b => { state := some (c b) }

/-- An open stream channel whose windows and packets have the same size on both ends. -/
def openChannel (window : ℕ) : Channel where
  localWindowMax := window
  localMaxpacket := window
  remoteMaxpacket := window
  localWindow := window
  remoteWindow := window

theorem fresh_openChannel (window : ℕ) : (openChannel window).Fresh :=
  ⟨rfl, rfl, rfl, rfl, rfl, rfl⟩

/-- One event at the two ends of a channel. -/
abbrev chanStep : (Bool → ChanEnd) → Duplex.Event ChanEvent → Option (Bool → ChanEnd) :=
  Duplex.step channelMachine

end CSBuFLO
