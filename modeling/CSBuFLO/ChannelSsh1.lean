/-
# Channels of protocol 1.5 (`nchan.c`, `channels.c`)

Without `compat20` a channel has no windows, and the two directions are closed apart from each
other.  The end that reads says with `INPUT_EOF` that no more data will come, and its peer says
with `OUTPUT_CLOSE` that it will write no more; a half that has said its word waits for the other
one (`CHAN_INPUT_WAIT_OCLOSE`, `CHAN_OUTPUT_WAIT_IEOF`).  A channel whose two halves are closed is
freed without a further message, so that a late message would end the connection.

The functions are those of `Channel` for the other protocol; the calls of `error` are recorded in
`errors`.  Descriptors, failing reads and writes, and the order of all events are left open, but
`select` reports `rfd` only where `channel_pre_open` has asked for it.

`channel1Machine` is what both ends run; `Duplex.step` connects two of them.
-/
import CSBuFLO.Channel

namespace CSBuFLO

/-! ## The channel -/

/-- `CHAN_INPUT_*`. -/
inductive InputState where
  | opened
  | waitDrain
  | waitOclose
  | closed
  deriving DecidableEq, Repr

/-- `CHAN_OUTPUT_*`. -/
inductive OutputState where
  | opened
  | waitDrain
  | waitIeof
  | closed
  deriving DecidableEq, Repr

/-- `SSH_MSG_CHANNEL_DATA`, `SSH_MSG_CHANNEL_INPUT_EOF` and `SSH_MSG_CHANNEL_OUTPUT_CLOSE`. -/
inductive Channel1Msg where
  | data (bytes : List UInt8)
  | ieof
  | oclose
  deriving DecidableEq, Repr

/-- What `nchan.c` gives to `error`. -/
inductive Channel1Error where
  | rcvdOclose (istate : InputState)
  | readFailed (istate : InputState)
  | ibufNonEmpty
  | ibufEmpty (istate : InputState)
  | rcvdIeof (ostate : OutputState)
  | writeFailed (ostate : OutputState)
  | obufNonEmpty
  | obufEmpty (ostate : OutputState)
  | sendIeof (istate : InputState)
  | sendOclose (ostate : OutputState)
  deriving DecidableEq, Repr

/-- A channel; `freed` is `channel_free`.  The last four fields are history that no function
reads: the bytes read from `rfd` and written to `wfd`, whether a write has failed, and the calls
of `error`. -/
structure Channel1 where
  forceDrain : Bool := false
  istate : InputState := .opened
  ostate : OutputState := .opened
  sock : Bool := true
  rfd : Bool := true
  wfd : Bool := true
  input : List UInt8 := []
  output : List UInt8 := []
  freed : Bool := false
  bytesRead : List UInt8 := []
  bytesWritten : List UInt8 := []
  writeLost : Bool := false
  errors : List Channel1Error := []
  deriving DecidableEq, Repr

namespace Channel1

variable (c : Channel1)

/-! ## `nchan.c` -/

/-- A call of `error`. -/
def error (e : Channel1Error) : Channel1 := { c with errors := c.errors ++ [e] }

/-- `chan_shutdown_write`. -/
def shutdownWrite : Channel1 := { c with output := [], wfd := c.wfd && c.sock }

/-- `chan_shutdown_read`. -/
def shutdownRead : Channel1 := { c with rfd := c.rfd && c.sock }

/-- `chan_send_ieof1`. -/
def sendIeof1 : Channel1 × List Channel1Msg :=
  match c.istate with
  | .opened => (c, [.ieof])
  | .waitDrain => (c, [.ieof])
  | i => (c.error (.sendIeof i), [])

/-- `chan_send_oclose1`. -/
def sendOclose1 : Channel1 × List Channel1Msg :=
  match c.ostate with
  | .opened => ({ c with output := [] }, [.oclose])
  | .waitDrain => ({ c with output := [] }, [.oclose])
  | o => (c.error (.sendOclose o), [])

/-- `chan_rcvd_oclose1`. -/
def rcvdOclose1 : Channel1 × List Channel1Msg :=
  match c.istate with
  | .waitOclose => ({ c with istate := .closed }, [])
  | .opened =>
    let r := c.shutdownRead.sendIeof1
    ({ r.1 with istate := .closed }, r.2)
  | .waitDrain =>
    let r := c.sendIeof1
    ({ r.1 with istate := .closed }, r.2)
  | .closed => (c.error (.rcvdOclose .closed), [])

/-- `chan_read_failed`. -/
def readFailed : Channel1 :=
  match c.istate with
  | .opened => { c.shutdownRead with istate := .waitDrain }
  | i => c.error (.readFailed i)

/-- `chan_ibuf_empty`. -/
def ibufEmpty : Channel1 × List Channel1Msg :=
  if c.input ≠ [] then (c.error .ibufNonEmpty, [])
  else
    match c.istate with
    | .waitDrain =>
      let r := c.sendIeof1
      ({ r.1 with istate := .waitOclose }, r.2)
    | i => (c.error (.ibufEmpty i), [])

/-- `chan_rcvd_ieof1`. -/
def rcvdIeof1 : Channel1 :=
  match c.ostate with
  | .opened => { c with ostate := .waitDrain }
  | .waitIeof => { c with ostate := .closed }
  | o => c.error (.rcvdIeof o)

/-- `chan_write_failed1`. -/
def writeFailed1 : Channel1 × List Channel1Msg :=
  match c.ostate with
  | .opened =>
    let r := c.shutdownWrite.sendOclose1
    ({ r.1 with ostate := .waitIeof }, r.2)
  | .waitDrain =>
    let r := c.shutdownWrite.sendOclose1
    ({ r.1 with ostate := .closed }, r.2)
  | o => (c.error (.writeFailed o), [])

/-- `chan_obuf_empty`. -/
def obufEmpty : Channel1 × List Channel1Msg :=
  if c.output ≠ [] then (c.error .obufNonEmpty, [])
  else
    match c.ostate with
    | .waitDrain =>
      let r := c.shutdownWrite.sendOclose1
      ({ r.1 with ostate := .closed }, r.2)
    | o => (c.error (.obufEmpty o), [])

/-- `chan_rcvd_ieof`. -/
def rcvdIeof : Channel1 × List Channel1Msg :=
  let c := c.rcvdIeof1
  if c.ostate = .waitDrain ∧ c.output = [] then c.obufEmpty else (c, [])

/-- `chan_is_dead`. -/
def isDead : Bool := c.istate = .closed && c.ostate = .closed

/-! ## `channels.c` -/

/-- `channel_pre_open`, beside the descriptors it asks `select` for. -/
def preOpen : Channel1 × List Channel1Msg :=
  if c.ostate = .waitDrain ∧ c.output = [] then c.obufEmpty else (c, [])

/-- `channel_handle_rfd`. -/
def handleRfd : FdRead → Channel1
  | .again => c
  | .failed => if c.rfd then c.readFailed else c
  | .data [] => if c.rfd then c.readFailed else c
  | .data bytes =>
    if c.rfd then { c with input := c.input ++ bytes, bytesRead := c.bytesRead ++ bytes } else c

/-- A write that failed: `chan_write_failed`, and the history of it. -/
def loseWrite : Channel1 × List Channel1Msg := writeFailed1 { c with writeLost := true }

/-- `channel_handle_wfd`. -/
def handleWfd (w : FdWrite) : Channel1 × List Channel1Msg :=
  if c.wfd = false ∨ c.output = [] then (c, [])
  else
    match w with
    | .again => (c, [])
    | .failed => c.loseWrite
    | .wrote 0 => c.loseWrite
    | .wrote n =>
      ({ c with
          output := c.output.drop n
          bytesWritten := c.bytesWritten ++ c.output.take n }, [])

/-- How many of `len` buffered bytes `channel_output_poll` sends; `maxsize` is
`packet_get_maxsize`. -/
def pollLength (interactive : Bool) (maxsize len : ℕ) : ℕ :=
  if interactive then if 1024 < len then 512 else len else min len (maxsize / 2)

/-- `channel_output_poll`. -/
def outputPoll (interactive : Bool) (maxsize : ℕ) : Channel1 × List Channel1Msg :=
  if (c.istate = .opened ∨ c.istate = .waitDrain) ∧ c.input ≠ [] then
    let len := pollLength interactive maxsize c.input.length
    if len = 0 then (c, []) else ({ c with input := c.input.drop len }, [.data (c.input.take len)])
  else if c.istate = .waitDrain then c.ibufEmpty
  else (c, [])

/-- `channel_garbage_collect`, where no callback of a user is left. -/
def garbageCollect : Channel1 := if c.isDead then { c with freed := true } else c

/-- `channel_input_data`. -/
def inputData (bytes : List UInt8) : Channel1 :=
  if c.ostate ≠ .opened then c else { c with output := c.output ++ bytes }

/-- `channel_input_ieof` where it forces the input half to close. -/
def forceInputDrain : Channel1 × List Channel1Msg :=
  if c.forceDrain ∧ c.istate = .opened then
    let c := { c with istate := .waitDrain }
    if c.input = [] then c.ibufEmpty else (c, [])
  else (c, [])

/-- `channel_input_ieof`. -/
def inputIeof : Channel1 × List Channel1Msg :=
  let r := c.rcvdIeof
  let f := r.1.forceInputDrain
  (f.1, r.2 ++ f.2)

end Channel1

/-! ## The two ends -/

/-- What can happen to a channel locally. -/
inductive Channel1Event where
  | handleRfd (r : FdRead)
  | handleWfd (w : FdWrite)
  | preOpen
  | outputPoll (interactive : Bool) (maxsize : ℕ)
  | garbageCollect
  deriving DecidableEq, Repr

/-- A local event of a channel that has not been freed. -/
def Channel1.act (c : Channel1) : Channel1Event → Option (Channel1 × List Channel1Msg)
  | .handleRfd r => if c.istate = .opened then some (c.handleRfd r, []) else none
  | .handleWfd w => some (c.handleWfd w)
  | .preOpen => some c.preOpen
  | .outputPoll interactive maxsize => some (c.outputPoll interactive maxsize)
  | .garbageCollect => some (c.garbageCollect, [])

/-- A message for a channel that has not been freed. -/
def Channel1.receive (c : Channel1) : Channel1Msg → Channel1 × List Channel1Msg
  | .data bytes => (c.inputData bytes, [])
  | .ieof => c.inputIeof
  | .oclose => c.rcvdOclose1

/-- What both ends run.  A message for a freed channel ends the connection. -/
def channel1Machine : Duplex.Machine Channel1 Channel1Event Channel1Msg where
  act c e := if c.freed then none else c.act e
  receive c m := if c.freed then none else some (c.receive m)

/-- One end of a channel. -/
abbrev Channel1End : Type := Duplex.Party Channel1 Channel1Msg

/-- The two ends when the channel is open; `forceDrain` is set for some of them. -/
def established1 (forceDrain : Bool → Bool) : Bool → Channel1End :=
  fun b => { state := { forceDrain := forceDrain b } }

end CSBuFLO
