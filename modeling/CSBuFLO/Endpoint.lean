/-
# One endpoint: the send slot and the packet handlers

The main loops `client_loop` and `process_output` run the same slot with a few
differences, which the argument `Role` selects.  A slot

1. handles a pending unload event,
2. decides whether it may send now,
3. in transcript mode schedules the next trace entry or ends the transcript,
4. in csbuflo mode sets the budget and looks for the end of the page,
5. calls `packet_write_poll` and accounts for what was sent.

Besides the slot an endpoint handles received packets (`packet_read_poll_seqnr`), the
client the control requests of the local SOCKS port (`channel_decode_socks5`).

The clock readings, random draws, descriptor readiness and kernel answers of a slot are
its `SlotInput`.
-/
import CSBuFLO.Adaptation
import CSBuFLO.PacketWrite
import CSBuFLO.Trace
import CSBuFLO.Url

namespace CSBuFLO

/-! ## State -/

/-- The two ends of the connection. -/
inductive Role where
  | client
  | server
  deriving DecidableEq, Repr

/-- Server-to-client packets have a positive size in a trace. -/
def Role.isPos : Role → Bool
  | .client => false
  | .server => true

/-- The shaping statics of `clientloop.c` and `serverloop.c`.  `item` is a local variable of
`client_loop`; `process_output` starts with `NULL` at each call. -/
structure LoopState where
  trulyIdle : Bool := true
  timeToWrite : ℕ := 0
  idleStart : ℕ := 0
  totalSentBytes : ℤ := 0
  targetSentBytes : ℤ := 0
  outbufRemain : ℤ := 0
  boundary : ℤ := initialBoundary
  tau : ℤ := initialTau
  curTotalRealincomingBytes : ℤ := 0
  curTotalRealsentBytes : ℤ := 0
  deadlockStart : ℕ := 0
  waitingForAPacket : Bool := false
  item : Option StPair := none

/-- The state of one process, with the page lock file, which only the client touches.  The
last four fields are history: how often the lock file was removed, how many pages were
started, which of them in transcript mode, and the pages in which `TEND` was queued, newest
first. -/
structure Endpoint (σ β : Type) where
  g : Globals := {}
  pkt : PacketState σ β
  loop : LoopState := {}
  adapt : Adaptation := {}
  lockFile : Bool := false
  lockRemovals : ℕ := 0
  page : ℕ := 0
  transcripts : List ℕ := []
  tends : List ℕ := []

/-- What one slot reads from outside: the clock at its start, in the deadlock test, in
`channel_idle` and after the write; whether `select` reported the connection writable; the
draw for `should_jump_trans_end`; and the readings of `packet_write_poll`. -/
structure SlotInput where
  now : ℕ
  writable : Bool
  rand : ℕ
  deadlockNow : ℕ
  idleNow : ℕ
  poll : PollInput
  curTs : ℕ

variable {σ β : Type}

/-- Replace the sending side, if sending did not call `fatal`. -/
def Endpoint.withPkt (e : Endpoint σ β) (p : Option (PacketState σ β)) : Option (Endpoint σ β) :=
  p.map fun pkt => { e with pkt := pkt }

/-! ## Steps of a slot -/

/-- A pending unload event: csbuflo mode restarts its clock, the other modes owe 2560 bytes
of padding. -/
def unloadStep (now : ℕ) (e : Endpoint σ β) : Endpoint σ β :=
  if e.g.unloadFlag then
    if e.g.stmode = .csbuflo then
      { e with
        g := { e.g with unloadFlag := false }
        pkt := (e.pkt.setUpdatedTime now).setPacketTau initialTau
        loop := { e.loop with timeToWrite := now, tau := initialTau } }
    else { e with g := { e.g with unloadFlag := false, transPaddedRemaining := 2560 } }
  else e

/-- `should_send`.  Before the time to write only transcript mode may send, and only when no
item is current. -/
def shouldSend (r : Role) (inp : SlotInput) (e : Endpoint σ β) : Bool :=
  if inp.now < e.loop.timeToWrite then
    decide (e.g.stmode = .supertrace) && (r = .server || e.loop.item.isNone) && inp.writable
  else inp.writable

/-- The bytes an item grants and what it waits for, after the rules for the first item of a
page (it may grow to all that is queued) and, on the client, for the second one (it waits
for `URLACK`). -/
def admitItem (r : Role) (outbufLen : ℕ) (item : StPair) (g : Globals) : ℤ × ℕ × Globals :=
  let cursize : ℤ := match r with
    | .client => 0 - item.size
    | .server => item.size
  if g.firstClient then
    (if (outbufLen : ℤ) > cursize then outbufLen else cursize, item.expected,
      { g with
        firstClient := false
        secondClient := match r with
          | .client => true
          | .server => g.secondClient })
  else
    match r with
    | .client =>
      if g.secondClient then
        if g.urlack then
          (cursize, item.expected, { g with urlack := false, secondClient := false })
        else (cursize, intMax, g)
      else (cursize, item.expected, g)
    | .server => (cursize, item.expected, g)

/-- Whether the item may be sent: it has to wait, the deadlock breaker lets it go, or all it
expects has arrived. -/
inductive Verdict where
  | wait
  | breaker
  | go
  deriving DecidableEq, Repr

/-- The wait test with the deadlock breaker. -/
def waitVerdict (expected received deadlockStart deadlockNow : ℕ) : Verdict :=
  if expected > received then
    let start := if deadlockStart = 0 then deadlockNow else deadlockStart
    if deadlockNow ≥ start + 5000000 then .breaker else .wait
  else .go

/-- Schedule the current item: grant its bytes, or wait for what it expects. -/
def scheduleItem (r : Role) (inp : SlotInput) (outbufLen : ℕ) (item : StPair) (e : Endpoint σ β) :
    Endpoint σ β :=
  let a := admitItem r outbufLen item e.g
  let g := a.2.2
  match waitVerdict a.2.1 g.receivedSofar e.loop.deadlockStart inp.deadlockNow with
  | .wait =>
    { e with
      g := g.setW2w g.w2w
      pkt := e.pkt.setPacketTau 0
      loop := { e.loop with
        waitingForAPacket := true
        deadlockStart :=
          if e.loop.deadlockStart = 0 then inp.deadlockNow else e.loop.deadlockStart } }
  | .breaker =>
    let g := match r with
      | .client => { g with secondClient := false }
      | .server => g
    { e with
      g := g.setW2w (g.w2w + a.1)
      pkt := e.pkt.setPacketTau item.time
      loop := { e.loop with waitingForAPacket := false, deadlockStart := 0 } }
  | .go =>
    let g := { g with receivedSofar := g.receivedSofar - a.2.1 }
    { e with
      g := g.setW2w (g.w2w + a.1)
      pkt := e.pkt.setPacketTau item.time
      loop := { e.loop with waitingForAPacket := false, deadlockStart := 0 } }

/-- Switch to normal mode.  The client releases the page lock if the server is already
there; the server tells the client. -/
def switchToNormal (c : Codec σ β) (r : Role) (e : Endpoint σ β) : Option (Endpoint σ β) :=
  match r with
  | .client =>
    let e := { e with g := { e.g with stmode := .normal } }
    if e.g.serverEnteringNormal then
      some { e with
        g := { e.g with serverEnteringNormal := false }
        lockFile := false
        lockRemovals := e.lockRemovals + 1 }
    else some e
  | .server =>
    (e.withPkt (packetSendNotify c .normal e.pkt)).map fun e =>
      { e with g := { e.g with stmode := .normal } }

/-- Switch from transcript to csbuflo mode: there is still data to send. -/
def switchToCsbuflo (now : ℕ) (e : Endpoint σ β) : Endpoint σ β :=
  { e with
    g := { e.g with stmode := .csbuflo }
    pkt := e.pkt.setPacketTau initialTau
    loop := { e.loop with
      tau := initialTau
      totalSentBytes := 0
      curTotalRealincomingBytes := 0
      curTotalRealsentBytes := 0
      boundary := initialBoundary
      idleStart := now } }

/-- Queue `TEND` once the budget is used up. -/
def queueTend (c : Codec σ β) (e : Endpoint σ β) : Option (Endpoint σ β) :=
  if e.g.sentTend = false ∧ e.g.w2w = 0 then
    (e.withPkt (packetSendNotify c .tend e.pkt)).map fun e =>
      { e with g := { e.g with sentTend := true }, tends := e.page :: e.tends }
  else some e

/-- Leave transcript mode once both ends are done: at once after a load event, otherwise
two seconds after the first idle slot, or to csbuflo mode when data is waiting. -/
def leaveTranscript (c : Codec σ β) (r : Role) (inp : SlotInput) (outbufLen : ℕ)
    (e : Endpoint σ β) : Option (Endpoint σ β) :=
  if e.g.transcriptEnd ∧ e.g.w2w = 0 then
    if e.g.onloadFlag then switchToNormal c r e
    else if e.g.stIdleStart = 0 then
      some { e with g := { e.g with stIdleStart := inp.now } }
    else if outbufLen > 0 then some (switchToCsbuflo inp.now e)
    -- a difference of two `unsigned long long`s
    else if ((inp.now : ℤ) - e.g.stIdleStart) % 2 ^ 64 ≥ 2000000 then switchToNormal c r e
    else some e
  else some e

/-- The end of the transcript. -/
def endTranscript (c : Codec σ β) (r : Role) (inp : SlotInput) (outbufLen : ℕ)
    (e : Endpoint σ β) : Option (Endpoint σ β) :=
  let e := { e with
    pkt := e.pkt.setPacketTau (10 * initialTau)
    loop := { e.loop with waitingForAPacket := false } }
  (queueTend c e).bind (leaveTranscript c r inp outbufLen)

/-- Move the cursor unless the current item is still waiting. -/
def advanceCursor (T : Tables) (r : Role) (e : Endpoint σ β) : Endpoint σ β :=
  let g := if e.loop.waitingForAPacket then e.g else moveToNextStItem T.straces r.isPos e.g
  { e with g := g, loop := { e.loop with item := g.curItem } }

/-- The transcript part of a slot. -/
def transcriptSlot (c : Codec σ β) (T : Tables) (r : Role) (inp : SlotInput) (outbufLen : ℕ)
    (e : Endpoint σ β) : Option (Endpoint σ β) :=
  let e := advanceCursor T r e
  match e.g.curItem with
  | none => endTranscript c r inp outbufLen e
  | some item =>
    if e.g.onloadFlag = false then some (scheduleItem r inp outbufLen item e)
    else
      let j := shouldJumpTransEnd inp.rand e.g
      let e := { e with g := j.2 }
      if j.1 then endTranscript c r inp outbufLen e
      else some (scheduleItem r inp outbufLen item e)

/-- `channel_idle`: the new idle start and whether the channel is idle. -/
def channelIdle (now : ℕ) (bufLen : ℕ) (outbufRemain : ℤ) (idleStart : ℕ) (onload : Bool) :
    ℕ × Bool :=
  let start := if (bufLen : ℤ) - outbufRemain ≥ 32 then now else idleStart
  (start, decide (start + 2000000 < now) || onload)

/-- The padding target: the least multiple of a power of two covering the real data that is
at least `total`.  `log2`, `pow` and `ceil` are taken as exact. -/
def paddingTarget (realIncoming total : ℤ) : ℤ :=
  let base : ℤ := if realIncoming ≤ 0 then 2 else 2 ^ Nat.clog 2 realIncoming.toNat
  base * toInt (-((-total) / base))

/-- The page is over: everything is sent and the total is near its target. -/
def pageOver (r : Role) (outbufLen : ℕ) (l : LoopState) : Bool :=
  (match r with
    | .client => decide (outbufLen = 0)
    | .server => decide (outbufLen ≤ 32)) &&
  decide (l.targetSentBytes + targetQueueLen > l.totalSentBytes) &&
  decide (l.totalSentBytes + targetQueueLen > l.targetSentBytes)

/-- Leave csbuflo mode: reset the totals and the adaptation marks. -/
def leaveCsbuflo (c : Codec σ β) (r : Role) (e : Endpoint σ β) : Option (Endpoint σ β) :=
  let loop := { e.loop with
    totalSentBytes := 0
    curTotalRealincomingBytes := 0
    curTotalRealsentBytes := 0
    trulyIdle := true
    boundary := initialBoundary
    tau := initialTau }
  let g := { e.g with tstartSet := false, tendSet := false, tsStart := 0, tsEnd := 0 }
  match r with
  | .client =>
    (({ e with loop := loop, g := g } : Endpoint σ β).withPkt
        (packetSendNotify c .paddingdone e.pkt)).bind fun e =>
      switchToNormal c .client { e with pkt := e.pkt.setPacketTau initialTau }
  | .server =>
    switchToNormal c .server
      { e with
        loop := loop
        g := { g with paddingdoneFlag := false }.setW2w targetQueueLen
        pkt := e.pkt.setPacketTau initialTau }

/-- The csbuflo budget while the channel is idle. -/
def idleBudget (outbufLen : ℕ) (e : Endpoint σ β) : Endpoint σ β :=
  if e.loop.totalSentBytes = 0 then
    { e with g := e.g.setW2w 0, loop := { e.loop with targetSentBytes := 0 } }
  else
    let target := paddingTarget e.loop.curTotalRealincomingBytes e.loop.totalSentBytes
    let near := target ≥ e.loop.totalSentBytes ∧ target - e.loop.totalSentBytes < targetQueueLen
    { e with
      g := if near then e.g.setW2w outbufLen else e.g
      loop := { e.loop with targetSentBytes := target } }

/-- The csbuflo part of a slot. -/
def csbufloSlot (c : Codec σ β) (r : Role) (inp : SlotInput) (outbufLen : ℕ) (e : Endpoint σ β) :
    Option (Endpoint σ β) :=
  let e := { e with loop := { e.loop with trulyIdle := false } }
  if e.g.stmode = .csbuflo then
    let idle :=
      channelIdle inp.idleNow outbufLen e.loop.outbufRemain e.loop.idleStart e.g.onloadFlag
    let e := { e with
      g := e.g.setW2w targetQueueLen
      loop := { e.loop with idleStart := idle.1 } }
    if idle.2 then
      (if pageOver r outbufLen e.loop then leaveCsbuflo c r e else some e).map
        (idleBudget outbufLen)
    else some e
  else some e

/-- Close the interval that began with an own send and ended with a received packet. -/
def closeInterval (r : Role) (e : Endpoint σ β) : Endpoint σ β :=
  if e.g.tstartSet ∧ e.g.tendSet ∧ e.g.tsStart < e.g.tsEnd then
    { e with
      adapt := e.adapt.updateTauInterval e.g.tsStart e.g.tsEnd e.loop.curTotalRealsentBytes
        (r = .client)
      loop := { e.loop with curTotalRealsentBytes := 0 }
      g := { e.g with tstartSet := false, tendSet := false } }
  else e

/-- Open an interval if none is open. -/
def openInterval (curTs : ℕ) (e : Endpoint σ β) : Endpoint σ β :=
  if e.g.tstartSet then e else { e with g := { e.g with tstartSet := true, tsStart := curTs } }

/-- Count real bytes; every `TARGET_QUEUE_LEN` of them record a send time. -/
def countReal (curTs : ℕ) (real : ℤ) (e : Endpoint σ β) : Endpoint σ β :=
  let total := e.loop.curTotalRealsentBytes + real
  if total ≥ targetQueueLen then
    { e with
      loop := { e.loop with curTotalRealsentBytes := total - targetQueueLen }
      adapt := e.adapt.insertTime curTs }
  else { e with loop := { e.loop with curTotalRealsentBytes := total } }

/-- The interval bookkeeping of csbuflo mode after a write of `sent` bytes, of which `junk`
were padding. -/
def noteInterval (r : Role) (curTs : ℕ) (sent junk : ℤ) (e : Endpoint σ β) : Endpoint σ β :=
  countReal curTs (if sent > junk then sent - junk else 0) (openInterval curTs (closeInterval r e))

/-- `sent`: how many bytes `packet_write_poll` wrote, computed from the `before` bytes
buffered before the call, the padding added and what remains. -/
def sentBytes (before : ℕ) (e : Endpoint σ β) : ℤ := before + e.g.paddedJunk - e.pkt.outputLen

/-- Update the totals after a write. -/
def noteSent (sent incoming : ℤ) (e : Endpoint σ β) : Endpoint σ β :=
  { e with loop := { e.loop with
    timeToWrite := e.pkt.packetTimeToWrite
    outbufRemain := e.pkt.outputLen
    totalSentBytes := e.loop.totalSentBytes + sent
    curTotalRealincomingBytes := e.loop.curTotalRealincomingBytes + incoming } }

/-- Adapt the period in csbuflo mode. -/
def adaptTau (e : Endpoint σ β) : Endpoint σ β :=
  let m := e.adapt.updateTauMedian e.loop.tau e.loop.boundary e.loop.totalSentBytes
  { e with
    adapt := m.2.2
    loop := { e.loop with tau := m.1, boundary := m.2.1 }
    pkt := e.pkt.setPacketTau m.1 }

/-- What a slot does after `packet_write_poll`: `outbufLen` bytes were buffered at the start
of the slot, `before` before the call. -/
def accountSent (r : Role) (inp : SlotInput) (outbufLen : ℕ) (incoming : ℤ) (before : ℕ)
    (e : Endpoint σ β) : Endpoint σ β :=
  let sent := sentBytes before e
  let e := noteSent sent incoming e
  if e.g.stmode = .csbuflo then
    adaptTau (if outbufLen ≠ 0 then noteInterval r inp.curTs sent e.g.paddedJunk e else e)
  else e

/-- Everything a slot decides before it writes: the transcript part and the csbuflo part. -/
def decideSlot (c : Codec σ β) (T : Tables) (r : Role) (inp : SlotInput) (e : Endpoint σ β) :
    Option (Endpoint σ β) :=
  let outbufLen := e.pkt.outputLen
  (if e.g.stmode = .supertrace then transcriptSlot c T r inp outbufLen e else some e).bind
    (csbufloSlot c r inp outbufLen)

/-- A slot that does not send only notes that data is waiting. -/
def skipSlot (e : Endpoint σ β) : Endpoint σ β :=
  if (e.pkt.outputLen : ℤ) > e.loop.outbufRemain then
    { e with loop := { e.loop with trulyIdle := false } }
  else e

/-- One send slot: the end of an iteration of `client_loop`, and `process_output`. -/
def slot (c : Codec σ β) (T : Tables) (r : Role) (inp : SlotInput) (e : Endpoint σ β) :
    Outcome (Endpoint σ β) :=
  let e := unloadStep inp.now e
  let outbufLen := e.pkt.outputLen
  let incoming : ℤ :=
    if (outbufLen : ℤ) > e.loop.outbufRemain then outbufLen - e.loop.outbufRemain else 0
  if shouldSend r inp e then
    match decideSlot c T r inp e with
    | none => .fatal
    | some e1 =>
      match packetWritePoll c inp.poll e1.g e1.pkt with
      | .fatal => .fatal
      | .looping (g, p) => .looping { e1 with g := g, pkt := p }
      | .returned (g, p) =>
        .returned (accountSent r inp outbufLen incoming e1.pkt.outputLen
          { e1 with g := g, pkt := p })
  else .returned (skipSlot e)

variable {T : Tables} {c : Codec σ β} {e e' : Endpoint σ β} {inp : SlotInput} {r : Role}

/-- **What a slot that returns did**: it did nothing, or it decided, polled and accounted for
the poll. -/
theorem slot_eq_returned (h : slot c T r inp e = .returned e') :
    (shouldSend r inp (unloadStep inp.now e) = false ∧ e' = skipSlot (unloadStep inp.now e)) ∨
    (shouldSend r inp (unloadStep inp.now e) = true ∧ ∃ e1 g p incoming,
      decideSlot c T r inp (unloadStep inp.now e) = some e1 ∧
      packetWritePoll c inp.poll e1.g e1.pkt = .returned (g, p) ∧
      e' = accountSent r inp (unloadStep inp.now e).pkt.outputLen incoming e1.pkt.outputLen
        { e1 with g := g, pkt := p }) := by
  unfold slot at h
  dsimp only at h
  generalize unloadStep inp.now e = e0 at h ⊢
  cases hsend : shouldSend r inp e0 with
  | false =>
    rw [if_neg (by rw [hsend]; decide)] at h
    exact Or.inl ⟨rfl, (Outcome.returned.inj h).symm⟩
  | true =>
    rw [if_pos hsend] at h
    right
    split at h
    · cases h
    · rename_i e1 hdecide
      split at h
      · cases h
      · cases h
      · rename_i g p hpoll
        exact ⟨rfl, e1, g, p, _, hdecide, hpoll, (Outcome.returned.inj h).symm⟩

/-- A slot that is still looping is in its poll. -/
theorem slot_eq_looping (h : slot c T r inp e = .looping e') :
    shouldSend r inp (unloadStep inp.now e) = true ∧ ∃ e1 g p,
      decideSlot c T r inp (unloadStep inp.now e) = some e1 ∧
      packetWritePoll c inp.poll e1.g e1.pkt = .looping (g, p) ∧
      e' = { e1 with g := g, pkt := p } := by
  unfold slot at h
  dsimp only at h
  generalize unloadStep inp.now e = e0 at h ⊢
  cases hsend : shouldSend r inp e0 with
  | false =>
    rw [if_neg (by rw [hsend]; decide)] at h
    cases h
  | true =>
    rw [if_pos hsend] at h
    split at h
    · cases h
    · rename_i e1 hdecide
      split at h
      · cases h
      · rename_i g p hpoll
        exact ⟨rfl, e1, g, p, hdecide, hpoll, (Outcome.looping.inj h).symm⟩
      · cases h

/-- The slot of `client_loop`. -/
def clientLoop (c : Codec σ β) (T : Tables) : SlotInput → Endpoint σ β → Outcome (Endpoint σ β) :=
  slot c T .client

/-- `process_output` of `serverloop.c`. -/
def processOutput (c : Codec σ β) (T : Tables) :
    SlotInput → Endpoint σ β → Outcome (Endpoint σ β) :=
  slot c T .server

/-! ## Received packets -/

/-- The page a `NOTIFY_URL` starts on the server. -/
def startServerPage (c : Codec σ β) (T : Tables) (payload : List UInt8) (beyond : ℕ → UInt8)
    (e : Endpoint σ β) : Option (Endpoint σ β) :=
  let g := { e.g with
    onloadFlag := false
    transcriptEnd := false
    sentTend := false
    url := setUrl (memory payload.tail beyond) 4 }
  let g := setClusterId T g
  if g.clusterId ≠ -1 then
    let g := { g with
      transPadded := false
      transPaddedRemaining := 0
      stmode := .supertrace
      stIdleStart := 0 }
    let g := setFirstSent T.straces g
    let g := { g with receivedSofar := g.firstExpected }
    ({ e with g := g, page := e.page + 1, transcripts := (e.page + 1) :: e.transcripts } :
      Endpoint σ β).withPkt (packetSendNotify c .urlack e.pkt)
  else
    some { e with
      g := { g with paddingdoneFlag := false, unloadFlag := true, stmode := .csbuflo }
      page := e.page + 1 }

/-- The notification cases of `packet_read_poll_seqnr` for SSH2. -/
def handleNotify (c : Codec σ β) (T : Tables) (n : Notify) (payload : List UInt8)
    (beyond : ℕ → UInt8) (e : Endpoint σ β) : Option (Endpoint σ β) :=
  match n with
  | .sync => some e
  | .onload => some { e with g := { e.g with onloadFlag := true } }
  | .unload => some { e with g := { e.g with paddingdoneFlag := false, unloadFlag := true } }
  | .tend => some { e with g := { e.g with transcriptEnd := true } }
  | .normal =>
    if e.g.stmode = .normal then
      some { e with
        g := { e.g with serverEnteringNormal := false }
        lockFile := false
        lockRemovals := e.lockRemovals + 1 }
    else some { e with g := { e.g with serverEnteringNormal := true } }
  | .paddingdone => some { e with g := { e.g with paddingdoneFlag := true } }
  | .urlack => some { e with g := { e.g with urlack := true } }
  | .url => startServerPage c T payload beyond e

/-- A packet that is neither padding nor a notification marks the end of an interval. -/
def noteReceived (curTs : ℕ) (g : Globals) : Globals :=
  if (g.tendSet = false ∧ curTs > g.tsStart) ∨ (g.tendSet ∧ g.tsEnd ≤ g.tsStart) then
    { g with tendSet := true, tsEnd := curTs }
  else g

/-- One packet of `packet_read_poll_seqnr`.  Packets it does not handle itself go to the
dispatcher, which does not touch the shaping state; `none` is the exit on a disconnect. -/
def packetReadPollSeqnr (c : Codec σ β) (T : Tables) (curTs : ℕ) (payload : List UInt8)
    (beyond : ℕ → UInt8) (e : Endpoint σ β) : Option (Endpoint σ β) :=
  match payload with
  | [] => some e
  | t :: _ =>
    match Notify.ofMsg t with
    | some n => handleNotify c T n payload beyond e
    | none =>
      if t = msgIgnore then some e
      else if t = msgDisconnect then none
      else some { e with g := noteReceived curTs e.g }

/-- `packet_process_incoming`, as far as the shaping state is concerned. -/
def countReceived (n : ℕ) (e : Endpoint σ β) : Endpoint σ β :=
  { e with g := { e.g with receivedSofar := e.g.receivedSofar + n } }

/-! ## Control requests -/

/-- The page an accepted URL request starts on the client. -/
def startClientPage (c : Codec σ β) (T : Tables) (p : ℕ → UInt8) (e : Endpoint σ β) :
    Option (Endpoint σ β) :=
  let g := { e.g with
    url := setUrl p 3
    onloadFlag := false
    transcriptEnd := false
    sentTend := false }
  (({ e with g := g } : Endpoint σ β).withPkt (packetSendUrl c g.url e.pkt)).map fun e =>
    let g := setClusterId T e.g
    let g :=
      if g.clusterId ≠ -1 then
        { g with
          receivedSofar := 0
          firstClient := true
          transPadded := false
          transPaddedRemaining := 0
          stmode := .supertrace
          stIdleStart := 0 }
      else { g with paddingdoneFlag := false, unloadFlag := true, stmode := .csbuflo }
    { e with
      g := g
      lockFile := true
      page := e.page + 1
      transcripts := if g.clusterId ≠ -1 then (e.page + 1) :: e.transcripts else e.transcripts }

/-- The control requests of `channel_decode_socks5`, on the memory `p` of the channel's
input: load (4), unload (5) and URL (6), which is only taken in normal mode. -/
def socksControl (c : Codec σ β) (T : Tables) (p : ℕ → UInt8) (e : Endpoint σ β) :
    Option (Endpoint σ β) :=
  if p 1 = 4 then
    ({ e with g := { e.g with onloadFlag := true } } : Endpoint σ β).withPkt
      (packetSendNotify c .onload e.pkt)
  else if p 1 = 5 then
    ({ e with g := { e.g with unloadFlag := true } } : Endpoint σ β).withPkt
      (packetSendNotify c .unload e.pkt)
  else if p 1 = 6 then
    if e.g.stmode = .normal then startClientPage c T p e else some e
  else some e

/-- The `SSH2_MSG_DISCONNECT` the client sends at the end of the session. -/
def disconnectPayload : List UInt8 :=
  let text := "disconnected by user".toList.map fun c => UInt8.ofNat c.toNat
  msgDisconnect :: (putU32 11 ++ (putU32 text.length ++ text) ++ putU32 0)

/-- The end of `client_loop`: say goodbye and switch to normal mode before the last
`packet_write_wait`. -/
def endSession (c : Codec σ β) (e : Endpoint σ β) : Option (Endpoint σ β) :=
  (e.withPkt (packetSend c false 0 disconnectPayload e.pkt)).bind (switchToNormal c .client)

/-! ## Runs of one endpoint -/

/-- What can happen to an endpoint between two rounds of its main loop. -/
inductive EndpointEvent where
  /-- The send slot. -/
  | slot (inp : SlotInput)
  /-- The rest of the program queues a packet of its own. -/
  | data (extraPad : ℕ) (payload : List UInt8)
  /-- A read returned `n` bytes. -/
  | received (n : ℕ)
  /-- A packet was read; `beyond` is the memory behind it. -/
  | packet (curTs : ℕ) (payload : List UInt8) (beyond : ℕ → UInt8)
  /-- A request on the SOCKS port. -/
  | socks (p : ℕ → UInt8)

/-- A payload of the rest of the program: notifications are queued by the shaper only. -/
def plainPayload : List UInt8 → Bool
  | [] => false
  | t :: _ => (Notify.ofMsg t).isNone

/-- One event.  `none` when the process exits or the slot does not come to an end. -/
def endpointStep (c : Codec σ β) (T : Tables) (r : Role) (e : Endpoint σ β) :
    EndpointEvent → Option (Endpoint σ β)
  | .slot inp =>
    match slot c T r inp e with
    | .returned e' => some e'
    | _ => none
  | .data extraPad payload =>
    if plainPayload payload then e.withPkt (packetSend c false extraPad payload e.pkt) else none
  | .received n => some (countReceived n e)
  | .packet curTs payload beyond => packetReadPollSeqnr c T curTs payload beyond e
  | .socks p =>
    match r with
    | .client => socksControl c T p e
    | .server => none

theorem endpointStep_slot :
    endpointStep c T r e (.slot inp) = some e' ↔ slot c T r inp e = .returned e' := by
  unfold endpointStep
  dsimp only
  cases slot c T r inp e <;> simp

/-- A slot at time `t` on a socket that takes all it is given. -/
def openSlot (t : ℕ) : SlotInput :=
  ⟨t, true, 0, t, t, ⟨t, 0, [⟨0, .accepted 16384⟩]⟩, t⟩

/-- A slot at time `t` that `select` did not wake for writing. -/
def shutSlot (t : ℕ) : SlotInput := { openSlot t with writable := false }

/-! ## The descriptors to select -/

/-- `should_set_writefd`: in csbuflo mode not while the channel is truly idle, and never before
the time to write. -/
def shouldSetWritefd (now : ℕ) (e : Endpoint σ β) : Bool :=
  if e.g.stmode = .csbuflo ∧ e.loop.trulyIdle = true then false
  else decide (e.loop.timeToWrite < now)

/-- Whether the loop puts the connection into the write set of its `select`: the test of normal
mode, and the one of the other modes, in `client_wait_until_can_do_something` and in
`wait_until_can_do_something`. -/
def selectsWrite (now : ℕ) (e : Endpoint σ β) : Bool :=
  if e.g.stmode = .normal then
    !e.pkt.output.isEmpty || (e.g.sentTend && decide (0 < e.g.transPaddedRemaining))
  else shouldSetWritefd now e

/-- The loop asked for what a slot was told: no `select` reports the connection writable unless
it was in the write set.  Only reads come between the `select` and the slot. -/
def EndpointEvent.asked (e : Endpoint σ β) : EndpointEvent → Bool
  | .slot inp => !inp.writable || selectsWrite inp.now e
  | _ => true

/-- What can happen to an endpoint whose packet handlers may also wait for the output to drain,
as the replies to a global request and the messages of a key exchange do. -/
inductive LoopEvent where
  /-- An event of the loop. -/
  | endpoint (ev : EndpointEvent)
  /-- A handler calls `packet_write_wait`. -/
  | writeWait (polls : List PollInput)

/-- One such event. -/
def loopStep (c : Codec σ β) (T : Tables) (r : Role) (e : Endpoint σ β) :
    LoopEvent → Option (Endpoint σ β)
  | .endpoint ev => endpointStep c T r e ev
  | .writeWait polls =>
    (packetWriteWait c polls e.g e.pkt).map fun t => { e with g := t.1, pkt := t.2 }

/-- The loop asked for what a slot was told. -/
def LoopEvent.asked (e : Endpoint σ β) : LoopEvent → Bool
  | .endpoint ev => ev.asked e
  | .writeWait _ => true

/-- A URL request for a page whose URL is the byte `c`. -/
def urlRequest (c : UInt8) : ℕ → UInt8 := fun i => [5, 6, 0, c, space].getD i 0

/-! ## Changes of the mode -/

/-- Entering normal mode changes the mode, the flag of the other side, the packets and the lock. -/
theorem switchToNormal_eq_some (h : switchToNormal c r e = some e') :
    ∃ pkt entering lock removals, e' =
      { e with
        g := { e.g with stmode := .normal, serverEnteringNormal := entering }
        pkt := pkt
        lockFile := lock
        lockRemovals := removals } := by
  unfold switchToNormal at h
  cases r with
  | client =>
    dsimp only at h
    split at h
    · exact ⟨_, _, _, _, (Option.some.inj h).symm⟩
    · exact ⟨_, e.g.serverEnteringNormal, _, _, (Option.some.inj h).symm⟩
  | server =>
    obtain ⟨e1, h1, rfl⟩ := Option.map_eq_some_iff.mp h
    obtain ⟨pkt, -, rfl⟩ := Option.map_eq_some_iff.mp h1
    exact ⟨pkt, e.g.serverEnteringNormal, _, _, rfl⟩

/-- Queueing `TEND` changes the packets and the record of it. -/
theorem queueTend_eq_some (h : queueTend c e = some e') :
    ∃ pkt sent tends,
      e' = { e with g := { e.g with sentTend := sent }, pkt := pkt, tends := tends } := by
  unfold queueTend at h
  split at h
  · obtain ⟨e1, h1, rfl⟩ := Option.map_eq_some_iff.mp h
    obtain ⟨pkt, -, rfl⟩ := Option.map_eq_some_iff.mp h1
    exact ⟨pkt, _, _, rfl⟩
  · exact ⟨e.pkt, e.g.sentTend, e.tends, (Option.some.inj h).symm⟩

/-- Transcript mode is left for normal mode or for csbuflo mode, or it goes on. -/
theorem leaveTranscript_cases {n : ℕ} (h : leaveTranscript c r inp n e = some e') :
    switchToNormal c r e = some e' ∨ e' = switchToCsbuflo inp.now e ∨
      ∃ idle, e' = { e with g := { e.g with stIdleStart := idle } } := by
  unfold leaveTranscript at h
  split_ifs at h
  · exact Or.inl h
  · exact Or.inr (Or.inr ⟨inp.now, (Option.some.inj h).symm⟩)
  · exact Or.inr (Or.inl (Option.some.inj h).symm)
  · exact Or.inl h
  · exact Or.inr (Or.inr ⟨e.g.stIdleStart, (Option.some.inj h).symm⟩)
  · exact Or.inr (Or.inr ⟨e.g.stIdleStart, (Option.some.inj h).symm⟩)

/-- The interval bookkeeping changes the adaptation state, the marks and the count of real bytes. -/
theorem noteInterval_eq (r : Role) (curTs : ℕ) (sent junk : ℤ) (e : Endpoint σ β) :
    ∃ adapt tstartSet tendSet tsStart counted, noteInterval r curTs sent junk e =
      { e with
        adapt := adapt
        g := { e.g with tstartSet := tstartSet, tendSet := tendSet, tsStart := tsStart }
        loop := { e.loop with curTotalRealsentBytes := counted } } := by
  have hclose : ∃ adapt tstartSet tendSet counted, closeInterval r e =
      { e with
        adapt := adapt
        g := { e.g with tstartSet := tstartSet, tendSet := tendSet }
        loop := { e.loop with curTotalRealsentBytes := counted } } := by
    unfold closeInterval
    split
    · exact ⟨_, _, _, _, rfl⟩
    · exact ⟨e.adapt, e.g.tstartSet, e.g.tendSet, e.loop.curTotalRealsentBytes, rfl⟩
  obtain ⟨adapt, tstartSet, tendSet, counted, heq⟩ := hclose
  have hopen : ∃ tstartSet tsStart, openInterval curTs (closeInterval r e) =
      { e with
        adapt := adapt
        g := { e.g with tstartSet := tstartSet, tendSet := tendSet, tsStart := tsStart }
        loop := { e.loop with curTotalRealsentBytes := counted } } := by
    rw [heq]
    unfold openInterval
    split
    · exact ⟨tstartSet, e.g.tsStart, rfl⟩
    · exact ⟨true, curTs, rfl⟩
  obtain ⟨tstartSet, tsStart, heq⟩ := hopen
  rw [noteInterval, heq]
  generalize (if sent > junk then sent - junk else 0) = real
  unfold countReal
  dsimp only
  split
  · exact ⟨_, tstartSet, tendSet, tsStart, _, rfl⟩
  · exact ⟨adapt, tstartSet, tendSet, tsStart, _, rfl⟩

/-- The accounting after a write changes the adaptation state, the marks, the counters, the period
and the boundary. -/
theorem accountSent_eq (r : Role) (inp : SlotInput) (n : ℕ) (incoming : ℤ) (before : ℕ)
    (e : Endpoint σ β) :
    ∃ adapt tstartSet tendSet tsStart counted tau boundary pkt,
      accountSent r inp n incoming before e =
        { e with
          adapt := adapt
          pkt := pkt
          g := { e.g with tstartSet := tstartSet, tendSet := tendSet, tsStart := tsStart }
          loop := { (noteSent (sentBytes before e) incoming e).loop with
            curTotalRealsentBytes := counted
            tau := tau
            boundary := boundary } } ∧
      (pkt = e.pkt ∨ pkt = e.pkt.setPacketTau tau) := by
  unfold accountSent
  dsimp only
  split
  · have hnote : ∃ adapt tstartSet tendSet tsStart counted,
        (if n ≠ 0 then noteInterval r inp.curTs (sentBytes before e)
            (noteSent (sentBytes before e) incoming e).g.paddedJunk
            (noteSent (sentBytes before e) incoming e)
          else noteSent (sentBytes before e) incoming e) =
        { noteSent (sentBytes before e) incoming e with
          adapt := adapt
          g := { e.g with tstartSet := tstartSet, tendSet := tendSet, tsStart := tsStart }
          loop := { (noteSent (sentBytes before e) incoming e).loop with
            curTotalRealsentBytes := counted } } := by
      split
      · exact noteInterval_eq r inp.curTs _ _ _
      · exact ⟨e.adapt, e.g.tstartSet, e.g.tendSet, e.g.tsStart, e.loop.curTotalRealsentBytes, rfl⟩
    obtain ⟨adapt, tstartSet, tendSet, tsStart, counted, heq⟩ := hnote
    rw [heq]
    exact ⟨_, tstartSet, tendSet, tsStart, counted, _, _, _, rfl, Or.inr rfl⟩
  · exact ⟨e.adapt, e.g.tstartSet, e.g.tendSet, e.g.tsStart, e.loop.curTotalRealsentBytes,
      e.loop.tau, e.loop.boundary, e.pkt, rfl, Or.inl rfl⟩

/-- Whether the csbuflo part of a slot that begins with `n` buffered bytes finds the channel
idle. -/
def csbufloIdle (inp : SlotInput) (n : ℕ) (e : Endpoint σ β) : Bool :=
  decide (e.g.stmode = .csbuflo) &&
    (channelIdle inp.idleNow n e.loop.outbufRemain e.loop.idleStart e.g.onloadFlag).2

/-- The state in which a slot of csbuflo mode looks for the end of the page. -/
def csbufloBudget (inp : SlotInput) (n : ℕ) (e : Endpoint σ β) : Endpoint σ β :=
  { e with
    g := e.g.setW2w targetQueueLen
    loop := { e.loop with
      trulyIdle := false
      idleStart :=
        (channelIdle inp.idleNow n e.loop.outbufRemain e.loop.idleStart e.g.onloadFlag).1 } }

/-- **What the csbuflo part of a slot can do.** -/
inductive CsbufloStep (c : Codec σ β) (r : Role) (inp : SlotInput) (n : ℕ) (e e' : Endpoint σ β) :
    Prop where
  /-- In the other modes, next to nothing. -/
  | other (hmode : e.g.stmode ≠ .csbuflo) (hidle : csbufloIdle inp n e = false)
      (he : e' = { e with loop := { e.loop with trulyIdle := false } })
  /-- The channel is busy. -/
  | busy (hmode : e.g.stmode = .csbuflo) (hidle : csbufloIdle inp n e = false)
      (he : e' = csbufloBudget inp n e)
  /-- The page is over. -/
  | ends (hmode : e.g.stmode = .csbuflo) (hidle : csbufloIdle inp n e = true)
      (hover : pageOver r n e.loop = true) (e1 : Endpoint σ β)
      (hleave : leaveCsbuflo c r (csbufloBudget inp n e) = some e1) (he : e' = idleBudget n e1)
  /-- The page goes on. -/
  | idle (hmode : e.g.stmode = .csbuflo) (hidle : csbufloIdle inp n e = true)
      (hover : pageOver r n e.loop = false) (he : e' = idleBudget n (csbufloBudget inp n e))

theorem csbufloStep_csbufloSlot {n : ℕ} (h : csbufloSlot c r inp n e = some e') :
    CsbufloStep c r inp n e e' := by
  unfold csbufloSlot at h
  dsimp only at h
  by_cases hmode : e.g.stmode = .csbuflo
  · have hidle : csbufloIdle inp n e =
        (channelIdle inp.idleNow n e.loop.outbufRemain e.loop.idleStart e.g.onloadFlag).2 := by
      unfold csbufloIdle
      rw [decide_eq_true hmode, Bool.true_and]
    rw [if_pos hmode] at h
    split at h
    · rename_i hchannel
      obtain ⟨e1, h1, rfl⟩ := Option.map_eq_some_iff.mp h
      split at h1
      · rename_i hover
        exact .ends hmode (hidle.trans hchannel) hover e1 h1 rfl
      · rename_i hover
        rw [← Option.some.inj h1]
        exact .idle hmode (hidle.trans hchannel) (Bool.eq_false_of_not_eq_true hover) rfl
    · rename_i hchannel
      exact .busy hmode (hidle.trans (Bool.eq_false_of_not_eq_true hchannel))
        (Option.some.inj h).symm
  · have hidle : csbufloIdle inp n e = false := by
      unfold csbufloIdle
      rw [decide_eq_false hmode, Bool.false_and]
    rw [if_neg hmode] at h
    exact .other hmode hidle (Option.some.inj h).symm

/-! ## The invariant rule for the sending side -/

/-- What an invariant of the sending side has to survive: the packets the shaper queues,
the packets `ok` admits, padding, writes, and the two clock settings. -/
structure SendInv (c : Codec σ β) (ok : ℕ → List UInt8 → Prop) (Inv : PacketState σ β → Prop) :
    Prop where
  notify : ∀ {n p p'}, n ≠ .url → Inv p → packetSendNotify c n p = some p' → Inv p'
  url : ∀ {url p p'}, StoredUrl url → Inv p → packetSendUrl c url p = some p' → Inv p'
  data : ∀ {x payload p p'}, plainPayload payload → ok x payload → Inv p →
    packetSend c false x payload p = some p' → Inv p'
  pad : ∀ n p p', n ≤ 16384 → Inv p → packetSendIgnore c n p = some p' → Inv p'
  write : ∀ n acc p, Inv p → n ≤ p.outputLen → acc ≤ n → Inv ((p.handOver n).consume acc)
  time : ∀ t p, Inv p → Inv (p.setUpdatedTime t)
  tau : ∀ t p, Inv p → Inv (p.setPacketTau t)

section SendInv

variable {c : Codec σ β} {ok : ℕ → List UInt8 → Prop} {Inv : PacketState σ β → Prop}

/-- Queueing a notification in an endpoint. -/
theorem SendInv.withPkt_notify (hI : SendInv c ok Inv) {n : Notify} {p : PacketState σ β}
    (h : e.withPkt (packetSendNotify c n p) = some e') (hp : Inv p) (hn : n ≠ .url) :
    Inv e'.pkt := by
  obtain ⟨pkt, hpkt, rfl⟩ := Option.map_eq_some_iff.mp h
  exact hI.notify hn hp hpkt

theorem SendInv.unloadStep (hI : SendInv c ok Inv) (now : ℕ) (he : Inv e.pkt) :
    Inv (unloadStep now e).pkt := by
  unfold CSBuFLO.unloadStep
  split
  · split
    · exact hI.tau _ _ (hI.time _ _ he)
    · exact he
  · exact he

theorem SendInv.switchToNormal (hI : SendInv c ok Inv) (h : switchToNormal c r e = some e')
    (he : Inv e.pkt) : Inv e'.pkt := by
  unfold CSBuFLO.switchToNormal at h
  cases r with
  | client =>
    dsimp only at h
    split at h <;> rw [← Option.some.inj h] <;> exact he
  | server =>
    obtain ⟨e1, h1, rfl⟩ := Option.map_eq_some_iff.mp h
    have he1 := hI.withPkt_notify h1 he (by decide)
    exact he1

theorem SendInv.endTranscript (hI : SendInv c ok Inv) {len : ℕ}
    (h : endTranscript c r inp len e = some e') (he : Inv e.pkt) : Inv e'.pkt := by
  obtain ⟨e1, h1, h2⟩ := Option.bind_eq_some_iff.mp h
  have he1 : Inv e1.pkt := by
    unfold queueTend at h1
    split at h1
    · obtain ⟨e2, hsend, rfl⟩ := Option.map_eq_some_iff.mp h1
      have he2 := hI.withPkt_notify hsend (hI.tau _ _ he) (by decide)
      exact he2
    · rw [← Option.some.inj h1]
      exact hI.tau _ _ he
  rcases leaveTranscript_cases h2 with hnormal | rfl | ⟨idle, rfl⟩
  · exact hI.switchToNormal hnormal he1
  · exact hI.tau _ _ he1
  · exact he1

theorem SendInv.scheduleItem (hI : SendInv c ok Inv) {len : ℕ} {item : StPair} (he : Inv e.pkt) :
    Inv (scheduleItem r inp len item e).pkt := by
  unfold CSBuFLO.scheduleItem
  dsimp only
  split <;> exact hI.tau _ _ he

theorem SendInv.transcriptSlot (hI : SendInv c ok Inv) {len : ℕ}
    (h : transcriptSlot c T r inp len e = some e') (he : Inv e.pkt) : Inv e'.pkt := by
  unfold CSBuFLO.transcriptSlot at h
  dsimp only at h
  split at h
  · exact hI.endTranscript h he
  · split at h
    · rw [← Option.some.inj h]
      exact hI.scheduleItem he
    · split at h
      · exact hI.endTranscript h he
      · rw [← Option.some.inj h]
        exact hI.scheduleItem he

theorem SendInv.leaveCsbuflo (hI : SendInv c ok Inv) (h : leaveCsbuflo c r e = some e')
    (he : Inv e.pkt) : Inv e'.pkt := by
  unfold CSBuFLO.leaveCsbuflo at h
  cases r with
  | client =>
    obtain ⟨e1, h1, h2⟩ := Option.bind_eq_some_iff.mp h
    have he1 : Inv e1.pkt := hI.withPkt_notify h1 he (by decide)
    exact hI.switchToNormal h2 (hI.tau _ _ he1)
  | server => exact hI.switchToNormal h (hI.tau _ _ he)

theorem SendInv.csbufloSlot (hI : SendInv c ok Inv) {len : ℕ}
    (h : csbufloSlot c r inp len e = some e') (he : Inv e.pkt) : Inv e'.pkt := by
  have hbudget : ∀ {e1 : Endpoint σ β}, Inv e1.pkt → Inv (idleBudget len e1).pkt := by
    intro e1 he1
    unfold idleBudget
    split <;> exact he1
  cases csbufloStep_csbufloSlot h with
  | other _ _ he' => rw [he']; exact he
  | busy _ _ he' => rw [he']; exact he
  | ends _ _ _ e1 hleave he' =>
    rw [he']
    exact hbudget (hI.leaveCsbuflo hleave he)
  | idle _ _ _ he' =>
    rw [he']
    exact hbudget he

theorem SendInv.accountSent (hI : SendInv c ok Inv) {len before : ℕ} {incoming : ℤ}
    (he : Inv e.pkt) : Inv (accountSent r inp len incoming before e).pkt := by
  obtain ⟨_, _, _, _, _, tau, _, pkt, heq, hpkt⟩ := accountSent_eq r inp len incoming before e
  rw [heq]
  rcases hpkt with rfl | rfl
  · exact he
  · exact hI.tau _ _ he

/-- **Invariant rule, the send slot.** -/
theorem SendInv.slot (hI : SendInv c ok Inv) (h : slot c T r inp e = .returned e')
    (he : Inv e.pkt) : Inv e'.pkt := by
  have he0 := hI.unloadStep inp.now he
  rcases slot_eq_returned h with ⟨-, rfl⟩ | ⟨-, e1, g, p, incoming, hdecide, hpoll, rfl⟩
  · unfold skipSlot
    split <;> exact he0
  · obtain ⟨e2, h2, h3⟩ := Option.bind_eq_some_iff.mp hdecide
    have he2 : Inv e2.pkt := by
      split at h2
      · exact hI.transcriptSlot h2 he0
      · rwa [← Option.some.inj h2]
    have he1 := hI.csbufloSlot h3 he2
    have hinv := inv_packetWritePoll hI.pad hI.write hI.time inp.poll e1.g e1.pkt he1
    rw [hpoll] at hinv
    exact hI.accountSent hinv

/-- **Invariant rule, a received packet.** -/
theorem SendInv.packetReadPollSeqnr (hI : SendInv c ok Inv) {ts : ℕ} {payload : List UInt8}
    {beyond : ℕ → UInt8} (h : packetReadPollSeqnr c T ts payload beyond e = some e')
    (he : Inv e.pkt) : Inv e'.pkt := by
  unfold CSBuFLO.packetReadPollSeqnr at h
  split at h
  · rw [← Option.some.inj h]; exact he
  · split at h
    · unfold handleNotify at h
      split at h
      case h_8 =>
        unfold startServerPage at h
        dsimp only at h
        split at h
        · exact hI.withPkt_notify h he (by decide)
        · rw [← Option.some.inj h]; exact he
      case h_5 =>
        split at h <;> rw [← Option.some.inj h] <;> exact he
      all_goals rw [← Option.some.inj h]; exact he
    · split_ifs at h
      · rw [← Option.some.inj h]; exact he
      · rw [← Option.some.inj h]; exact he

/-- **Invariant rule, a control request.** -/
theorem SendInv.socksControl (hI : SendInv c ok Inv) {q : ℕ → UInt8}
    (h : socksControl c T q e = some e') (he : Inv e.pkt) : Inv e'.pkt := by
  unfold CSBuFLO.socksControl at h
  split_ifs at h
  · exact hI.withPkt_notify h he (by decide)
  · exact hI.withPkt_notify h he (by decide)
  · obtain ⟨e1, h1, rfl⟩ := Option.map_eq_some_iff.mp h
    obtain ⟨pkt, hpkt, rfl⟩ := Option.map_eq_some_iff.mp h1
    exact hI.url (storedUrl_setUrl q 3) he hpkt
  · rw [← Option.some.inj h]; exact he
  · rw [← Option.some.inj h]; exact he

/-- **Invariant rule, every event of an endpoint.** -/
theorem SendInv.endpointStep (hI : SendInv c ok Inv) {ev : EndpointEvent}
    (h : endpointStep c T r e ev = some e') (hok : ∀ x payload, ev = .data x payload → ok x payload)
    (he : Inv e.pkt) : Inv e'.pkt := by
  cases ev with
  | slot inp => exact hI.slot (endpointStep_slot.mp h) he
  | data x payload =>
    unfold CSBuFLO.endpointStep at h
    dsimp only at h
    split at h
    · rename_i hplain
      obtain ⟨pkt, hpkt, rfl⟩ := Option.map_eq_some_iff.mp h
      exact hI.data hplain (hok x payload rfl) he hpkt
    · cases h
  | received n => rw [← Option.some.inj h]; exact he
  | packet ts payload beyond => exact hI.packetReadPollSeqnr h he
  | socks p =>
    cases r with
    | client => exact hI.socksControl h he
    | server => cases h

end SendInv

end CSBuFLO
