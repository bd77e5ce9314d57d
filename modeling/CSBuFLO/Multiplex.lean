/-
# The channels of a connection (`channels.c`, `serverloop.c`, `clientloop.c`)

A connection carries many channels at once.  Each end keeps them in a table; a channel's number is
its place in the table of that end, and messages are addressed with the number the receiver uses.
Numbers are reused: a slot is free again as soon as its channel is.

A channel is opened with `CHANNEL_OPEN`, which the other end confirms or refuses, at once or after
it has tried to connect.  From then on both ends run `Channel.lean`.

Slots and messages have a `tag`, the number of the opening among those of its end.  It is history:
no function looks at it.  `none` is a `fatal` or a disconnect.  Listeners, the multiplexing of
client processes and channel requests are left out, and so is the time between the confirmation of
a session and its first command.
-/
import CSBuFLO.Channel
import CSBuFLO.SlotTable

namespace CSBuFLO

open SlotTable

/-! ## The table -/

/-- The number of an opening: the end that has asked for it, and how many it had asked for
before. -/
structure Tag where
  opener : Bool
  serial : ℕ
  deriving DecidableEq, Repr

/-- What `channel_new` is called with and its callers set afterwards; the window is an unsigned
32-bit number. -/
structure ChanSetup where
  datagram : Bool := false
  extendedUsage : ExtendedUsage := .ignore
  forceDrain : Bool := false
  session : Bool := false
  detachUser : Bool := false
  detachClose : Bool := false
  sock : Bool := true
  rfd : Bool := true
  wfd : Bool := true
  efd : Bool := false
  window : ℕ
  maxpack : ℕ
  window_lt : window < 2 ^ 32

/-- The channel `channel_new` makes. -/
def ChanSetup.channel (p : ChanSetup) : Channel where
  datagram := p.datagram
  extendedUsage := p.extendedUsage
  forceDrain := p.forceDrain
  session := p.session
  detachUser := p.detachUser
  detachClose := p.detachClose
  sock := p.sock
  rfd := p.rfd
  wfd := p.wfd
  efd := p.efd
  localWindowMax := p.window
  localMaxpacket := p.maxpack
  localWindow := p.window
  remoteWindow := 0
  remoteMaxpacket := 0

/-- `SSH_CHANNEL_OPENING`, `SSH_CHANNEL_CONNECTING`, `SSH_CHANNEL_OPEN` and
`SSH_CHANNEL_ZOMBIE`. -/
inductive SlotType where
  | opening
  | connecting
  | opened
  | zombie
  deriving DecidableEq, Repr

/-- A channel in the table.  `remoteId` is its number at the other end. -/
structure Slot where
  tag : Tag
  type : SlotType
  remoteId : ℕ
  chan : Channel
  deriving DecidableEq, Repr

/-- -1, the `remote_id` of a channel whose number at the other end is not known. -/
def noId : ℕ := 2 ^ 32 - 1

/-- `channel_new`: the first free slot, or ten more. -/
def channelNew (table : List (Option Slot)) (slot : Slot) : Option (List (Option Slot) × ℕ) :=
  alloc 9 10000 table slot

/-- `channel_lookup`: channels that may receive messages. -/
def channelLookup (table : List (Option Slot)) (id : ℕ) : Option Slot :=
  (get table id).filter fun slot => slot.type ≠ .zombie

/-! ## Messages and states -/

/-- The messages of a connection.  An opening says whether the channel carries datagrams, which is
part of its type; `γ` is the rest of the request. -/
inductive ConnMsg (γ : Type) where
  | chanOpen (tag : Tag) (sender : ℕ) (datagram : Bool) (request : γ) (window maxpack : ℕ)
  | confirm (tag : Tag) (recipient sender window maxpack : ℕ)
  | failure (tag : Tag) (recipient : ℕ)
  | chan (tag : Tag) (recipient : ℕ) (m : ChanMsg)
  deriving DecidableEq, Repr

variable {γ : Type}

/-- The channel a message is about. -/
def ConnMsg.tag : ConnMsg γ → Tag
  | .chanOpen t _ _ _ _ _ => t
  | .confirm t _ _ _ _ => t
  | .failure t _ => t
  | .chan t _ _ => t

/-- One end of a connection.  `opened` counts its openings and `asked` those of the other end. -/
structure ConnState where
  side : Bool
  table : List (Option Slot) := []
  opened : ℕ := 0
  asked : ℕ := 0

namespace ConnState

variable (s : ConnState)

/-- Replace or free a slot. -/
def setSlot (id : ℕ) (slot : Option Slot) : ConnState := { s with table := s.table.set id slot }

/-! ## Opening -/

/-- `channel_send_open` and its relatives, after `channel_new`. -/
def openChannel (p : ChanSetup) (request : γ) : Option (ConnState × List (ConnMsg γ)) :=
  let tag : Tag := ⟨s.side, s.opened⟩
  (channelNew s.table ⟨tag, .opening, noId, p.channel⟩).map fun r =>
    ({ s with table := r.1, opened := s.opened + 1 },
      [.chanOpen tag r.2 p.datagram request p.window p.maxpack])

/-- `SSH2_MSG_CHANNEL_OPEN_CONFIRMATION`. -/
def confirmation (id : ℕ) (slot : Slot) : ConnMsg γ :=
  .confirm slot.tag slot.remoteId id slot.chan.localWindow slot.chan.localMaxpacket

/-- `server_input_channel_open` and `client_input_channel_open`.  `allow` is what the end decides
about its `asked`-th request: the channel it makes, and whether it has to connect first. -/
def inputOpen (allow : Bool → ℕ → γ → Option (ChanSetup × Bool)) (tag : Tag) (sender : ℕ)
    (datagram : Bool) (request : γ) (window maxpack : ℕ) :
    Option (ConnState × List (ConnMsg γ)) :=
  let s1 := { s with asked := s.asked + 1 }
  match allow s.side s.asked request with
  | none => some (s1, [.failure tag sender])
  | some (p, connecting) =>
    let slot : Slot :=
      { tag := tag
        type := if connecting then .connecting else .opened
        remoteId := sender
        chan := { p.channel with
          datagram := datagram, remoteWindow := window, remoteMaxpacket := maxpack } }
    (channelNew s.table slot).map fun r =>
      ({ s1 with table := r.1 }, if connecting then [] else [confirmation r.2 slot])

/-- `channel_input_open_confirmation`. -/
def inputConfirm (recipient sender window maxpack : ℕ) :
    Option (ConnState × List (ConnMsg γ)) :=
  match channelLookup s.table recipient with
  | none => none
  | some slot =>
    if slot.type ≠ .opening then none
    else some (s.setSlot recipient (some { slot with
      type := .opened
      remoteId := sender
      chan := { slot.chan with remoteWindow := window, remoteMaxpacket := maxpack } }), [])

/-- `channel_input_open_failure`. -/
def inputFailure (recipient : ℕ) : Option (ConnState × List (ConnMsg γ)) :=
  match channelLookup s.table recipient with
  | none => none
  | some slot =>
    if slot.type ≠ .opening then none
    else some (s.setSlot recipient (some { slot with type := .zombie }), [])

/-! ## Messages of a channel -/

/-- A message for a channel.  Data for a channel that is not open is dropped; a window adjustment
or `eow` for a channel that is not there is only logged. -/
def inputChan (recipient : ℕ) (m : ChanMsg) : Option (ConnState × List (ConnMsg γ)) :=
  match channelLookup s.table recipient with
  | none => (receiveFreed m).map fun _ => (s, [])
  | some slot =>
    match slot.type, m with
    | .opening, .data _ => some (s, [])
    | .connecting, .data _ => some (s, [])
    | .opening, .extendedData _ => some (s, [])
    | .connecting, .extendedData _ => some (s, [])
    | _, _ => (slot.chan.receive m).map fun r =>
      (s.setSlot recipient (some { slot with chan := r.1 }),
        r.2.map (.chan slot.tag slot.remoteId))

/-- A message arrives. -/
def receive (allow : Bool → ℕ → γ → Option (ChanSetup × Bool)) :
    ConnMsg γ → Option (ConnState × List (ConnMsg γ))
  | .chanOpen tag sender datagram request window maxpack =>
    s.inputOpen allow tag sender datagram request window maxpack
  | .confirm _ recipient sender window maxpack => s.inputConfirm recipient sender window maxpack
  | .failure _ recipient => s.inputFailure recipient
  | .chan _ recipient m => s.inputChan recipient m

end ConnState

/-! ## Local events -/

/-- What an end does on its own. -/
inductive ConnEvent (γ : Type) where
  /-- Ask for a channel. -/
  | opn (p : ChanSetup) (request : γ)
  /-- An event of the open channel `id`. -/
  | channel (id : ℕ) (e : ChanEvent)
  /-- The connection a channel waits for is there. -/
  | connected (id : ℕ)
  /-- No address is left to connect to. -/
  | connectFailed (id : ℕ)
  /-- A dead channel is collected. -/
  | collect (id : ℕ)

namespace ConnState

variable (s : ConnState)

/-- An event of an open channel. -/
def actChannel (id : ℕ) (e : ChanEvent) (slot : Slot) : Option (ConnState × List (ConnMsg γ)) :=
  (slot.chan.act e).map fun r =>
    (s.setSlot id (r.1.map fun c => { slot with chan := c }),
      r.2.map (.chan slot.tag slot.remoteId))

/-- One event.  `channel_handler` calls the functions of a channel according to its type. -/
def act : ConnEvent γ → Option (ConnState × List (ConnMsg γ))
  | .opn p request => s.openChannel p request
  | .channel id e =>
    (get s.table id).bind fun slot =>
      if slot.type = .opened then s.actChannel id e slot else none
  | .connected id =>
    (get s.table id).bind fun slot =>
      if slot.type = .connecting then
        some (s.setSlot id (some { slot with type := .opened }), [confirmation id slot])
      else none
  | .connectFailed id =>
    (get s.table id).bind fun slot =>
      if slot.type = .connecting then
        some (s.setSlot id (some { slot with type := .zombie }),
          [.failure slot.tag slot.remoteId])
      else none
  | .collect id =>
    (get s.table id).bind fun slot =>
      if slot.type = .zombie then some (s.setSlot id none, []) else none

end ConnState

/-- What both ends run. -/
def connMachine (allow : Bool → ℕ → γ → Option (ChanSetup × Bool)) :
    Duplex.Machine ConnState (ConnEvent γ) (ConnMsg γ) where
  act s e := s.act e
  receive s m := s.receive allow m

/-- One end of a connection. -/
abbrev ConnEnd (γ : Type) : Type := Duplex.Party ConnState (ConnMsg γ)

/-- A connection without channels. -/
def connStart : Bool → ConnEnd γ := fun b => { state := { side := b } }

end CSBuFLO
