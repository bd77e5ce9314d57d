/-
# The shaped write path (`packet.c`)

`packet_write_poll_one_write`, `packet_write_poll` and `packet_write_wait`, over an
arbitrary packet encoder (`Codec`).

The state `PacketState` holds what `packet.c` keeps for the sending side (encoder
state, output buffer, pacing statics) and three records of what an observer sees:
the bytes the kernel accepted and the peer has not read yet (`wire`), every call of
`roaming_write` (`calls`) and every value given to `set_updated_time` (`updates`).
`sent` lists all packets ever appended to the output buffer.

The outside world enters as arguments: each write is answered by a `Kernel` value
(the `SIOCOUTQ` reading and the result of the write), the clock and the random draw
of `update_time` are read from a `PollInput`.  `packet_write_poll` may loop for ever,
so its result is an `Outcome`: it returned, it is still looping when the answers run
out, or the process called `fatal`.
-/
import CSBuFLO.PacketFormat

namespace CSBuFLO

/-! ## The environment -/

/-- The result of `roaming_write`. -/
inductive WriteResult where
  /-- `-1` with `EINTR`, `EAGAIN` or `EWOULDBLOCK`. -/
  | again
  /-- `-1` with another `errno`. -/
  | error
  /-- `0` with `*cont` set, while a suspended connection is being resumed. -/
  | suspended
  /-- The kernel takes up to `n` bytes; none at all means a closed connection. -/
  | accepted (n : ℕ)
  deriving DecidableEq, Repr, Inhabited

/-- What the kernel answers during one write: the bytes unsent in the socket
(`SIOCOUTQ`) and the result of the write. -/
structure Kernel where
  outq : ℕ
  result : WriteResult
  deriving DecidableEq, Repr, Inhabited

/-- The readings of one `packet_write_poll` call: the clock, the `arc4random` draw of
`update_time` and the kernel's answers. -/
structure PollInput where
  now : ℕ
  rand : ℕ
  kernel : List Kernel
  deriving DecidableEq, Repr, Inhabited

/-- How a call that may loop ends: it returned, it is still looping after all the given
kernel answers, or the process called `fatal`. -/
inductive Outcome (α : Type) where
  | returned (a : α)
  | looping (a : α)
  | fatal
  deriving Repr

theorem Outcome.returned_ne_looping {α : Type} (a t : α) : Outcome.returned a ≠ .looping t := by
  intro h
  cases h

theorem Outcome.fatal_ne_looping {α : Type} (t : α) : Outcome.fatal ≠ .looping t := by
  intro h
  cases h

/-- A property of the state in which a call returned or is still looping. -/
def Outcome.All {α : Type} (P : α → Prop) : Outcome α → Prop
  | .returned a => P a
  | .looping a => P a
  | .fatal => True

/-- The state in which a call returned or is still looping. -/
def Outcome.seen {α : Type} : Outcome α → Option α
  | .returned a => some a
  | .looping a => some a
  | .fatal => none

/-- A state that is seen is returned, or the one a loop is in. -/
theorem Outcome.seen_eq_some {α : Type} {o : Outcome α} {a : α} :
    o.seen = some a ↔ o = .returned a ∨ o = .looping a := by
  cases o <;> simp [seen]

theorem Outcome.All.of_seen {α : Type} {P : α → Prop} {o : Outcome α} {a : α} (h : o.All P)
    (ha : o.seen = some a) : P a := by
  cases o with
  | returned b => exact Option.some.inj ha ▸ h
  | looping b => exact Option.some.inj ha ▸ h
  | fatal => cases ha

/-! ## The sending side -/

/-- One call of `roaming_write`: the length handed over and the length of the output
buffer at that moment. -/
structure WriteCall where
  handed : ℕ
  buffered : ℕ
  deriving DecidableEq, Repr

/-- A packet appended to the output buffer and the bytes it became; `padding` marks the
`SSH2_MSG_IGNORE` packets the write routine adds on its own. -/
structure Sent (β : Type) where
  padding : Bool
  payload : List UInt8
  bytes : List β

/-- The sending side of `packet.c` together with what an observer has seen of it. -/
structure PacketState (σ β : Type) where
  snd : σ
  output : List β := []
  packetTau : ℤ := initialTau
  packetTimeToWrite : ℕ := 0
  wire : List β := []
  calls : List WriteCall := []
  updates : List ℕ := []
  sent : List (Sent β) := []

variable {σ β : Type}

namespace PacketState

/-- `buffer_len(&active_state->output)`. -/
def outputLen (p : PacketState σ β) : ℕ := p.output.length

/-- `set_updated_time`. -/
def setUpdatedTime (p : PacketState σ β) (t : ℕ) : PacketState σ β :=
  { p with packetTimeToWrite := t, updates := p.updates ++ [t] }

/-- `set_packet_tau`. -/
def setPacketTau (p : PacketState σ β) (tau : ℤ) : PacketState σ β :=
  { p with packetTau := tau }

/-- Hand `n` bytes to `roaming_write`. -/
def handOver (p : PacketState σ β) (n : ℕ) : PacketState σ β :=
  { p with calls := p.calls ++ [⟨n, p.output.length⟩] }

/-- The kernel takes `n` bytes and `buffer_consume` drops them from the buffer. -/
def consume (p : PacketState σ β) (n : ℕ) : PacketState σ β :=
  { p with output := p.output.drop n, wire := p.wire ++ p.output.take n }

end PacketState

/-! ## Queueing packets -/

/-- `packet_send` for SSH2 while no key exchange is running: the packet is encoded at
once and appended to the output buffer. -/
def packetSend (c : Codec σ β) (padding : Bool) (extraPad : ℕ) (payload : List UInt8)
    (p : PacketState σ β) : Option (PacketState σ β) :=
  match c.send2 p.snd extraPad payload with
  | none => none
  | some (bs, s) => some { p with
      snd := s
      output := p.output ++ bs
      sent := p.sent ++ [⟨padding, payload, bs⟩] }

/-- `packet_send_ignore(nbytes); packet_send();` -/
def packetSendIgnore (c : Codec σ β) (nbytes : ℕ) (p : PacketState σ β) :
    Option (PacketState σ β) :=
  let r := c.arc4random p.snd nbytes
  packetSend c true 0 (ignorePayload r.1) { p with snd := r.2 }

/-- `packet_send_notify(4, flag); packet_send();` for the flags other than `'l'`. -/
def packetSendNotify (c : Codec σ β) (n : Notify) (p : PacketState σ β) :
    Option (PacketState σ β) :=
  let r := c.arc4random p.snd 4
  packetSend c false 0 (notifyPayload n r.1) { p with snd := r.2 }

/-- `packet_send_notify(get_urllen(), 'l'); packet_send();` -/
def packetSendUrl (c : Codec σ β) (url : List UInt8) (p : PacketState σ β) :
    Option (PacketState σ β) :=
  let r := c.arc4random p.snd (urlFill url)
  packetSend c false 0 (urlPayload url r.1) { p with snd := r.2 }

variable {c : Codec σ β} {p p' : PacketState σ β} {g : Globals}

/-- What `packet_send` did, when it did not call `fatal`. -/
theorem packetSend_eq_some {b : Bool} {e : ℕ} {pl : List UInt8}
    (h : packetSend c b e pl p = some p') :
    ∃ bs s, c.send2 p.snd e pl = some (bs, s) ∧
      p' = { p with snd := s, output := p.output ++ bs, sent := p.sent ++ [⟨b, pl, bs⟩] } := by
  unfold packetSend at h
  split at h
  · cases h
  · rename_i bs s hs
    exact ⟨bs, s, hs, (Option.some.inj h).symm⟩

/-- The length of the output buffer after a packet was appended. -/
theorem outputLen_packetSend {b : Bool} {e : ℕ} {pl : List UInt8}
    (h : packetSend c b e pl p = some p') :
    p'.outputLen = p.outputLen + wireLength c.blockSize c.macLen e pl.length := by
  obtain ⟨bs, s, hs, rfl⟩ := packetSend_eq_some h
  simp [PacketState.outputLen, c.length_send2 hs]

/-- A padding packet of `n` bytes adds its length on the wire. -/
theorem outputLen_packetSendIgnore {n : ℕ} (h : packetSendIgnore c n p = some p') :
    p'.outputLen = p.outputLen + wireLength c.blockSize c.macLen 0 (5 + n) := by
  have := outputLen_packetSend h
  rw [length_ignorePayload, c.length_arc4random] at this
  exact this

/-! ## `packet_write_poll_one_write` -/

/-- The modes in which the output is flushed 128 bytes at a time, whatever the budget:
normal mode, and transcript mode once the own `TEND` is queued. -/
def flushing (g : Globals) : Bool :=
  g.stmode = .normal || (g.stmode = .supertrace && g.sentTend)

/-- The number of bytes one write aims at: the remaining budget capped by the room left
in the socket's send queue, or 128 (or a last remainder of at most 32) when flushing. -/
def actualWrite (g : Globals) (oriW2w : ℤ) (outq len : ℕ) : ℤ :=
  let a2w : ℤ := if outq < 16384 then 16384 - outq else 0
  let wanted := toInt oriW2w
  let wanted := if a2w < wanted then a2w else wanted
  if flushing g then
    if g.transPaddedRemaining ≤ 0 then
      if len > 32 then 128 else len
    else 128
  else wanted

/-- The data length of the first padding packet when `diff` bytes are missing. -/
def ignoreBytes (diff : ℕ) : ℕ := if diff > 16 then diff - 16 + 6 else 0

/-- `while (buffer_len(output) < actual_write) { packet_send_ignore(0); packet_send(); }`
with at most `fuel` rounds. -/
def padLoop (c : Codec σ β) (aw : ℕ) : ℕ → PacketState σ β → Option (PacketState σ β)
  | 0, p => if aw ≤ p.outputLen then some p else none
  | fuel + 1, p =>
    if aw ≤ p.outputLen then some p
    else (packetSendIgnore c 0 p).bind (padLoop c aw fuel)

/-- The padding step: nothing when the buffer already holds `aw` bytes, otherwise a
padding packet for the missing bytes and then empty ones until `aw` is reached. -/
def padOutput (c : Codec σ β) (aw : ℕ) (p : PacketState σ β) : Option (PacketState σ β) :=
  if aw ≤ p.outputLen then some p
  else (packetSendIgnore c (ignoreBytes (aw - p.outputLen)) p).bind (padLoop c aw aw)

/-- The bytes the first padding packet takes when `diff` bytes are missing. -/
def ignoreLength (blockSize macLen diff : ℕ) : ℕ :=
  wireLength blockSize macLen 0 (5 + ignoreBytes diff)

/-- Up to 16 missing bytes are covered by an empty padding packet of 16 bytes. -/
theorem ignoreLength_of_le {b : ℕ} (hb : b = 8 ∨ b = 16) (m : ℕ) {diff : ℕ} (h : diff ≤ 16) :
    ignoreLength b m diff = 16 + m := by
  unfold ignoreLength wireLength ignoreBytes
  rw [if_neg (by omega)]
  rcases hb with rfl | rfl <;> simp [padLength]

/-- More than 16 missing bytes are covered by one packet of that length, before its own
padding and MAC. -/
theorem ignoreLength_of_gt (b m : ℕ) {diff : ℕ} (h : 16 < diff) :
    ignoreLength b m diff = diff + padLength b 0 diff + m := by
  unfold ignoreLength wireLength ignoreBytes
  rw [if_pos h, show 5 + (5 + (diff - 16 + 6)) = diff from by omega]

/-- One padding packet always covers the missing bytes. -/
theorem le_ignoreLength {b : ℕ} (hb : b = 8 ∨ b = 16) (m diff : ℕ) :
    diff ≤ ignoreLength b m diff := by
  rcases Nat.lt_or_ge 16 diff with h | h
  · rw [ignoreLength_of_gt b m h]; omega
  · rw [ignoreLength_of_le hb m h]; omega

/-- **One padding packet suffices**: the `while` loop after it is never entered. -/
theorem padOutput_eq (c : Codec σ β) (aw : ℕ) (p : PacketState σ β) :
    padOutput c aw p =
      if aw ≤ p.outputLen then some p
      else packetSendIgnore c (ignoreBytes (aw - p.outputLen)) p := by
  unfold padOutput
  split
  · rfl
  · rename_i hlt
    cases hs : packetSendIgnore c (ignoreBytes (aw - p.outputLen)) p with
    | none => rfl
    | some p1 =>
      have hlen := outputLen_packetSendIgnore hs
      have hcover := le_ignoreLength c.blockSize_eq c.macLen (aw - p.outputLen)
      unfold ignoreLength at hcover
      have hge : aw ≤ p1.outputLen := by omega
      obtain ⟨n, rfl⟩ : ∃ n, aw = n + 1 := ⟨aw - 1, by omega⟩
      rw [Option.bind_some, padLoop, if_pos hge]

/-- Padding only appends to the output buffer. -/
theorem padOutput_frame {aw : ℕ} {p1 : PacketState σ β} (h : padOutput c aw p = some p1) :
    p1 = { p with snd := p1.snd, output := p1.output, sent := p1.sent } := by
  rw [padOutput_eq] at h
  split at h
  · rw [← Option.some.inj h]
  · obtain ⟨bs, s, -, rfl⟩ := packetSend_eq_some h
    rfl

/-- The length of the output buffer after the padding step. -/
def paddedLength (blockSize macLen aw len : ℕ) : ℕ :=
  if aw ≤ len then len else len + ignoreLength blockSize macLen (aw - len)

/-- The padding step brings the buffer to `paddedLength`. -/
theorem outputLen_padOutput {aw : ℕ} {p1 : PacketState σ β} (h : padOutput c aw p = some p1) :
    p1.outputLen = paddedLength c.blockSize c.macLen aw p.outputLen := by
  rw [padOutput_eq] at h
  unfold paddedLength
  split at h
  · rename_i hle
    rw [if_pos hle, ← Option.some.inj h]
  · rename_i hlt
    rw [if_neg hlt, outputLen_packetSendIgnore h]
    rfl

/-- After the padding step there is enough to write. -/
theorem le_paddedLength {b : ℕ} (hb : b = 8 ∨ b = 16) (m aw len : ℕ) :
    aw ≤ paddedLength b m aw len := by
  unfold paddedLength
  split
  · assumption
  · have := le_ignoreLength hb m (aw - len)
    omega

/-- The length handed to `roaming_write`: what was aimed at, except that csbuflo mode
sends the padding packet's overshoot along. -/
def handedLength (g : Globals) (aw len padded : ℕ) : ℕ :=
  if aw ≤ len then aw else if g.stmode ≠ .csbuflo then aw else padded

/-- The bookkeeping after `n` bytes were written: the owed padding shrinks while
flushing, the budget shrinks in transcript mode. -/
def afterWrite (g : Globals) (oriW2w : ℤ) (n : ℕ) : ℤ × Globals :=
  (if g.stmode = .supertrace ∧ oriW2w > 0 then oriW2w - n else oriW2w,
   if flushing g ∧ g.transPaddedRemaining > 0 then g.decreaseTransPaddedRemaining n else g)

/-- `packet_write_poll_one_write`: pad, write once, consume.  `none` is `fatal`. -/
def packetWritePollOneWrite (c : Codec σ β) (g : Globals) (oriW2w : ℤ) (k : Kernel)
    (p : PacketState σ β) : Option (ℤ × Globals × PacketState σ β) :=
  let len := p.outputLen
  let aw := actualWrite g oriW2w k.outq len
  if aw ≤ 0 then some (oriW2w, g, p)
  else
    (padOutput c aw.toNat p).bind fun p1 =>
      let g1 : Globals :=
        if aw.toNat ≤ len then g
        else { g with paddedJunk := (p1.outputLen : ℤ) - len + g.paddedJunk }
      let n := handedLength g aw.toNat len p1.outputLen
      let p2 := p1.handOver n
      match k.result with
      | .again => some (oriW2w, g1, p2)
      | .error => none
      | .suspended => some ((afterWrite g1 oriW2w 0).1, (afterWrite g1 oriW2w 0).2, p2.consume 0)
      | .accepted m =>
        if min m n = 0 then none
        else some ((afterWrite g1 oriW2w (min m n)).1, (afterWrite g1 oriW2w (min m n)).2,
          p2.consume (min m n))

/-- The number of bytes a write takes out of the `n` handed over; `none` is `fatal`. -/
def WriteResult.taken : WriteResult → ℕ → Option ℕ
  | .again, _ => some 0
  | .error, _ => none
  | .suspended, _ => some 0
  | .accepted m, n => if min m n = 0 then none else some (min m n)

/-- The kernel takes no more than it is given. -/
theorem WriteResult.taken_le {r : WriteResult} {n acc : ℕ} (h : r.taken n = some acc) :
    acc ≤ n := by
  cases r with
  | again => simp [taken] at h; omega
  | error => cases h
  | suspended => simp [taken] at h; omega
  | accepted m =>
    simp only [taken] at h
    split at h
    · cases h
    · rw [← Option.some.inj h]; exact Nat.min_le_right m n

@[simp] theorem PacketState.consume_zero (p : PacketState σ β) : p.consume 0 = p := by
  simp [PacketState.consume]

/-- What the kernel has taken leaves the buffer. -/
theorem outputLen_consume_handOver (p : PacketState σ β) (n acc : ℕ) :
    ((p.handOver n).consume acc).outputLen = p.outputLen - acc := by
  simp [PacketState.outputLen, PacketState.consume, PacketState.handOver]

/-- A write that takes nothing pays none of the owed padding. -/
theorem decreaseTransPaddedRemaining_zero (h : 0 < g.transPaddedRemaining) :
    g.decreaseTransPaddedRemaining 0 = g := by
  unfold Globals.decreaseTransPaddedRemaining
  rw [if_pos (by omega), sub_zero]

/-- A write that takes nothing changes no account. -/
@[simp] theorem afterWrite_zero (g : Globals) (ori : ℤ) : afterWrite g ori 0 = (ori, g) := by
  unfold afterWrite
  refine Prod.ext ?_ ?_
  · simp
  · by_cases h : flushing g ∧ g.transPaddedRemaining > 0
    · simp only [if_pos h, Nat.cast_zero]
      exact decreaseTransPaddedRemaining_zero h.2
    · simp only [if_neg h]

/-- The junk counter after the padding step. -/
def padJunk (g : Globals) (aw len padded : ℕ) : Globals :=
  if aw ≤ len then g else { g with paddedJunk := (padded : ℤ) - len + g.paddedJunk }

/-- The junk counter grows by what the padding step has added. -/
theorem paddedJunk_padJunk (g : Globals) {aw len padded : ℕ} (h : aw ≤ len → padded = len) :
    (padJunk g aw len padded).paddedJunk = g.paddedJunk + ((padded : ℤ) - len) := by
  unfold padJunk
  split
  · rename_i hle
    rw [h hle, sub_self, add_zero]
  · exact add_comm _ _

@[simp] theorem paddedJunk_afterWrite (g : Globals) (ori : ℤ) (n : ℕ) :
    (afterWrite g ori n).2.paddedJunk = g.paddedJunk := by
  unfold afterWrite
  dsimp only
  split <;> rfl

/-- One write, with all its results in one shape: pad, hand over `n` bytes, of which the
kernel takes `acc`. -/
theorem packetWritePollOneWrite_eq (c : Codec σ β) (g : Globals) (ori : ℤ) (k : Kernel)
    (p : PacketState σ β) :
    packetWritePollOneWrite c g ori k p =
      if actualWrite g ori k.outq p.outputLen ≤ 0 then some (ori, g, p)
      else
        (padOutput c (actualWrite g ori k.outq p.outputLen).toNat p).bind fun p1 =>
          let aw := (actualWrite g ori k.outq p.outputLen).toNat
          let n := handedLength g aw p.outputLen p1.outputLen
          let g1 := padJunk g aw p.outputLen p1.outputLen
          (k.result.taken n).map fun acc =>
            ((afterWrite g1 ori acc).1, (afterWrite g1 ori acc).2,
              (p1.handOver n).consume acc) := by
  unfold packetWritePollOneWrite
  dsimp only
  by_cases hle : actualWrite g ori k.outq p.outputLen ≤ 0
  · rw [if_pos hle, if_pos hle]
  · rw [if_neg hle, if_neg hle]
    refine congrArg (Option.bind _) (funext fun p1 => ?_)
    simp only [padJunk]
    cases k.result with
    | again => simp [WriteResult.taken]
    | error => rfl
    | suspended => simp [WriteResult.taken]
    | accepted m =>
      simp only [WriteResult.taken]
      split <;> rfl

/-- **What one write can do.**  Either nothing is aimed at and nothing changes, or the
output is padded to at least the aim `aw`, `n` bytes are handed over and `acc` of them
are taken. -/
theorem packetWritePollOneWrite_cases {g' : Globals} {ori ori' : ℤ} {k : Kernel}
    (h : packetWritePollOneWrite c g ori k p = some (ori', g', p')) :
    (actualWrite g ori k.outq p.outputLen ≤ 0 ∧ ori' = ori ∧ g' = g ∧ p' = p) ∨
    ∃ (aw : ℕ) (p1 : PacketState σ β) (acc : ℕ),
      actualWrite g ori k.outq p.outputLen = (aw : ℤ) ∧ 0 < aw ∧
      padOutput c aw p = some p1 ∧
      k.result.taken (handedLength g aw p.outputLen p1.outputLen) = some acc ∧
      ori' = (afterWrite (padJunk g aw p.outputLen p1.outputLen) ori acc).1 ∧
      g' = (afterWrite (padJunk g aw p.outputLen p1.outputLen) ori acc).2 ∧
      p' = (p1.handOver (handedLength g aw p.outputLen p1.outputLen)).consume acc := by
  rw [packetWritePollOneWrite_eq] at h
  split at h
  · rename_i hle
    obtain ⟨rfl, rfl, rfl⟩ : ori = ori' ∧ g = g' ∧ p = p' := by simpa using h
    exact Or.inl ⟨hle, rfl, rfl, rfl⟩
  · rename_i hgt
    right
    obtain ⟨p1, hp1, h⟩ := Option.bind_eq_some_iff.mp h
    obtain ⟨acc, hacc, h⟩ := Option.map_eq_some_iff.mp h
    simp only [Prod.mk.injEq] at h
    obtain ⟨h1, h2, h3⟩ := h
    exact ⟨_, p1, acc, (Int.toNat_of_nonneg (by omega)).symm, by omega, hp1, hacc,
      h1.symm, h2.symm, h3.symm⟩

/-! ## `packet_write_poll` and `packet_write_wait` -/

/-- `update_time`: transcript mode waits exactly `tau`, the other modes a random
multiple of `tau` between 0 and 2. -/
def updateTime (m : StMode) (now : ℕ) (tau : ℤ) (rand : ℕ) : ℕ :=
  if m = .supertrace then addTime now tau
  else addTime now ((tau * (rand % 201 : ℕ)) / 100)

/-- `while (ori_w2w > 0) packet_write_poll_one_write(&ori_w2w);` -/
def writePollLoop (c : Codec σ β) :
    List Kernel → ℤ → Globals → PacketState σ β → Outcome (Globals × PacketState σ β)
  | [], ori, g, p => if ori > 0 then .looping (g, p) else .returned (g, p)
  | k :: ks, ori, g, p =>
    if ori > 0 then
      match packetWritePollOneWrite c g ori k p with
      | none => .fatal
      | some (ori', g', p') => writePollLoop c ks ori' g' p'
    else .returned (g, p)

/-- A single `packet_write_poll_one_write` whose leftover budget is not used. -/
def singleWrite (c : Codec σ β) (ks : List Kernel) (g : Globals) (p : PacketState σ β) :
    Outcome (Globals × PacketState σ β) :=
  match ks with
  | [] => .looping (g, p)
  | k :: _ =>
    match packetWritePollOneWrite c g g.w2w k p with
    | none => .fatal
    | some (_, g', p') => .returned (g', p')

/-- The writes of one `packet_write_poll` call past its time gate.  In transcript mode
with no budget and the own `TEND` queued there is one flushing write; the loop that
follows it finds the budget still zero. -/
def pollWrites (c : Codec σ β) (ks : List Kernel) (g : Globals) (p : PacketState σ β) :
    Outcome (Globals × PacketState σ β) :=
  if g.stmode = .supertrace then
    if g.w2w = 0 ∧ g.sentTend then singleWrite c ks g p
    else writePollLoop c ks g.w2w g p
  else singleWrite c ks g p

/-- What `packet_write_poll` does once its writes are done: transcript mode clears the
budget, and the next write time is set. -/
def finishPoll (inp : PollInput) (g : Globals) (p : PacketState σ β) :
    Globals × PacketState σ β :=
  (if g.stmode = .supertrace then g.setW2w 0 else g,
   p.setUpdatedTime (updateTime g.stmode inp.now
     (if g.stmode = .normal then 10 * initialTau else p.packetTau) inp.rand))

/-- `packet_write_poll`. -/
def packetWritePoll (c : Codec σ β) (inp : PollInput) (g : Globals) (p : PacketState σ β) :
    Outcome (Globals × PacketState σ β) :=
  if inp.now < p.packetTimeToWrite then .returned (g, p)
  else
    match pollWrites c inp.kernel { g with paddedJunk := 0 } p with
    | .returned (g', p') => .returned (finishPoll inp g' p')
    | .looping r => .looping r
    | .fatal => .fatal

/-- `packet_write_wait` for a socket that is always writable, so that `select` returns at
once: poll, and poll again while there is buffered output.  `none` when the given
polls do not suffice (or one of them does not return). -/
def packetWriteWait (c : Codec σ β) :
    List PollInput → Globals → PacketState σ β → Option (Globals × PacketState σ β)
  | [], _, _ => none
  | inp :: rest, g, p =>
    match packetWritePoll c inp g p with
    | .returned (g', p') =>
      if p'.output = [] then some (g', p') else packetWriteWait c rest g' p'
    | _ => none

/-! ## The invariant rule for writes -/

section Invariant

variable {c : Codec σ β} {I : PacketState σ β → Prop}

/-- The handed-over length never exceeds what the padded buffer holds. -/
theorem handedLength_le (g : Globals) (aw len padded : ℕ) (h1 : aw ≤ padded) :
    handedLength g aw len padded ≤ padded := by
  unfold handedLength
  split
  · exact h1
  · split <;> omega

/-- A write aims at 16384 bytes at most. -/
theorem actualWrite_le (g : Globals) (ori : ℤ) (outq len : ℕ) :
    actualWrite g ori outq len ≤ 16384 := by
  unfold actualWrite
  dsimp only
  split_ifs <;> omega

/-- **Invariant rule, one write.**  What appending a padding packet preserves, and what
handing over and consuming no more than the buffer holds preserves, one write
preserves. -/
theorem inv_packetWritePollOneWrite
    (hpad : ∀ n p p', n ≤ 16384 → I p → packetSendIgnore c n p = some p' → I p')
    (hwrite : ∀ n acc p, I p → n ≤ p.outputLen → acc ≤ n → I ((p.handOver n).consume acc))
    {g' : Globals} {ori ori' : ℤ} {k : Kernel}
    (h : packetWritePollOneWrite c g ori k p = some (ori', g', p')) (hp : I p) : I p' := by
  obtain ⟨-, -, -, rfl⟩ | ⟨aw, p1, acc, haw, -, hp1, hacc, -, -, rfl⟩ :=
    packetWritePollOneWrite_cases h
  · exact hp
  · have hlen := outputLen_padOutput hp1
    have hle : aw ≤ p1.outputLen := by
      rw [hlen]
      exact le_paddedLength c.blockSize_eq c.macLen aw p.outputLen
    have hinv1 : I p1 := by
      rw [padOutput_eq] at hp1
      split at hp1
      · rwa [← Option.some.inj hp1]
      · rename_i hlt
        have hmax := actualWrite_le g ori k.outq p.outputLen
        refine hpad _ _ _ ?_ hp hp1
        unfold ignoreBytes
        split <;> omega
    exact hwrite _ _ _ hinv1 (handedLength_le g aw _ _ hle) (WriteResult.taken_le hacc)

/-- **Invariant rule, the writes of a poll.**  What every single write preserves, all the
writes of a poll preserve. -/
theorem inv_pollWrites {J : Globals → PacketState σ β → Prop}
    (hone : ∀ g g' ori ori' k p p', J g p →
      packetWritePollOneWrite c g ori k p = some (ori', g', p') → J g' p')
    (ks : List Kernel) (g : Globals) (p : PacketState σ β) (hp : J g p) :
    (pollWrites c ks g p).All (fun r => J r.1 r.2) := by
  have hloop : ∀ ks ori g p, J g p → (writePollLoop c ks ori g p).All (fun r => J r.1 r.2) := by
    intro ks
    induction ks with
    | nil =>
      intro ori g p hp
      unfold writePollLoop
      split <;> exact hp
    | cons k ks ih =>
      intro ori g p hp
      unfold writePollLoop
      split
      · split
        · trivial
        · rename_i hwrite
          exact ih _ _ _ (hone _ _ _ _ _ _ _ hp hwrite)
      · exact hp
  have hsingle : (singleWrite c ks g p).All (fun r => J r.1 r.2) := by
    unfold singleWrite
    split
    · exact hp
    · split
      · trivial
      · rename_i hwrite
        exact hone _ _ _ _ _ _ _ hp hwrite
  unfold pollWrites
  split
  · split
    · exact hsingle
    · exact hloop ks g.w2w g p hp
  · exact hsingle

/-- **Invariant rule, `packet_write_poll`.** -/
theorem inv_packetWritePoll
    (hpad : ∀ n p p', n ≤ 16384 → I p → packetSendIgnore c n p = some p' → I p')
    (hwrite : ∀ n acc p, I p → n ≤ p.outputLen → acc ≤ n → I ((p.handOver n).consume acc))
    (htime : ∀ t p, I p → I (p.setUpdatedTime t))
    (inp : PollInput) (g : Globals) (p : PacketState σ β) (hp : I p) :
    (packetWritePoll c inp g p).All (fun r => I r.2) := by
  unfold packetWritePoll
  split
  · exact hp
  · have hw := inv_pollWrites (J := fun _ p => I p)
      (fun _ _ _ _ _ _ _ hp h => inv_packetWritePollOneWrite hpad hwrite h hp) inp.kernel
      { g with paddedJunk := 0 } p hp
    revert hw
    cases pollWrites c inp.kernel { g with paddedJunk := 0 } p with
    | returned r => exact fun hw => htime _ _ hw
    | looping r => exact id
    | fatal => exact id

end Invariant

/-! ## What the writes leave alone -/

/-- The globals after writes differ at most in the junk counter, the owed padding and the
budget, which is kept or cleared. -/
structure WriteFrame (g g' : Globals) : Prop where
  eq : g' = { g with
    paddedJunk := g'.paddedJunk, w2w := g'.w2w, transPaddedRemaining := g'.transPaddedRemaining }
  w2w : g'.w2w = g.w2w ∨ g'.w2w = 0

theorem WriteFrame.refl (g : Globals) : WriteFrame g g := ⟨rfl, Or.inl rfl⟩

/-- Writes may follow each other. -/
theorem WriteFrame.trans {g' g'' : Globals} (h : WriteFrame g g') (h' : WriteFrame g' g'') :
    WriteFrame g g'' := by
  constructor
  · have h1 := h'.eq
    rw [h.eq] at h1
    exact h1
  · rcases h'.w2w with heq | hzero
    · rw [heq]
      exact h.w2w
    · exact Or.inr hzero

namespace WriteFrame

variable {g g' : Globals}

theorem stmode (h : WriteFrame g g') : g'.stmode = g.stmode := by rw [h.eq]

theorem sentTend (h : WriteFrame g g') : g'.sentTend = g.sentTend := by rw [h.eq]

end WriteFrame

theorem writeFrame_padJunk (g : Globals) (aw len padded : ℕ) :
    WriteFrame g (padJunk g aw len padded) := by
  unfold padJunk
  split
  · exact .refl g
  · exact ⟨rfl, Or.inl rfl⟩

/-- The accounts after a write stay within the frame. -/
theorem writeFrame_afterWrite (g : Globals) (ori : ℤ) (n : ℕ) :
    WriteFrame g (afterWrite g ori n).2 := by
  unfold afterWrite
  dsimp only
  split
  · exact ⟨rfl, Or.inl rfl⟩
  · exact .refl g

/-- **Frame of one write.** -/
theorem writeFrame_packetWritePollOneWrite {g' : Globals} {ori ori' : ℤ} {k : Kernel}
    (h : packetWritePollOneWrite c g ori k p = some (ori', g', p')) : WriteFrame g g' := by
  obtain ⟨-, -, rfl, -⟩ | ⟨aw, p1, acc, -, -, -, -, -, rfl, -⟩ := packetWritePollOneWrite_cases h
  · exact .refl _
  · exact (writeFrame_padJunk g aw _ _).trans (writeFrame_afterWrite _ ori acc)

/-- **Frame of the writes of a poll**, also of a loop that has not ended. -/
theorem writeFrame_pollWrites (c : Codec σ β) (ks : List Kernel) (g : Globals)
    (p : PacketState σ β) : (pollWrites c ks g p).All (fun r => WriteFrame g r.1) :=
  inv_pollWrites (J := fun g' _ => WriteFrame g g')
    (fun _ _ _ _ _ _ _ hp h => hp.trans (writeFrame_packetWritePollOneWrite h)) ks g p (.refl g)

theorem writeFrame_finishPoll (inp : PollInput) (g : Globals) (p : PacketState σ β) :
    WriteFrame g (finishPoll inp g p).1 := by
  unfold finishPoll
  dsimp only
  split
  · exact ⟨rfl, Or.inr rfl⟩
  · exact .refl g

/-- **Frame rule, `packet_write_poll`.** -/
theorem writeFrame_packetWritePoll (c : Codec σ β) (inp : PollInput) (g : Globals)
    (p : PacketState σ β) : (packetWritePoll c inp g p).All (fun r => WriteFrame g r.1) := by
  unfold packetWritePoll
  split
  · exact .refl g
  · have h0 : WriteFrame g { g with paddedJunk := 0 } := ⟨rfl, Or.inl rfl⟩
    have hw := writeFrame_pollWrites c inp.kernel { g with paddedJunk := 0 } p
    revert hw
    cases pollWrites c inp.kernel { g with paddedJunk := 0 } p with
    | returned r => exact fun hw => (h0.trans hw).trans (writeFrame_finishPoll inp r.1 r.2)
    | looping r => exact fun hw => h0.trans hw
    | fatal => exact id

/-- **Frame rule, `packet_write_wait`.** -/
theorem writeFrame_packetWriteWait {inps : List PollInput} {t : Globals × PacketState σ β}
    (h : packetWriteWait c inps g p = some t) : WriteFrame g t.1 := by
  induction inps generalizing g p with
  | nil => cases h
  | cons inp rest ih =>
    have hpoll := writeFrame_packetWritePoll c inp g p
    unfold packetWriteWait at h
    cases hres : packetWritePoll c inp g p with
    | returned r =>
      rw [hres] at h hpoll
      dsimp only at h
      split at h
      · rw [← Option.some.inj h]
        exact hpoll
      · exact hpoll.trans (ih h)
    | looping r =>
      rw [hres] at h
      cases h
    | fatal =>
      rw [hres] at h
      cases h

/-- What a poll that passed its gate and returned did: its writes, then `finishPoll`. -/
theorem packetWritePoll_eq_returned {inp : PollInput} {r : Globals × PacketState σ β}
    (h : packetWritePoll c inp g p = .returned r) (hgate : p.packetTimeToWrite ≤ inp.now) :
    ∃ g' p', pollWrites c inp.kernel { g with paddedJunk := 0 } p = .returned (g', p') ∧
      r = finishPoll inp g' p' := by
  unfold packetWritePoll at h
  rw [if_neg (by omega)] at h
  revert h
  cases pollWrites c inp.kernel { g with paddedJunk := 0 } p with
  | returned t => exact fun h => ⟨t.1, t.2, rfl, (Outcome.returned.inj h).symm⟩
  | looping t => exact fun h => nomatch h
  | fatal => exact fun h => nomatch h

end CSBuFLO
