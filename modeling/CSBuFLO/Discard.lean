/-
# Discarding a corrupted packet (`packet.c`)

With a CBC cipher the connection is not closed at once when a packet turns out to be corrupted: the
point where it is closed would tell how much of the packet was decrypted.  `packet_start_discard`
goes on reading, and `packet_stop_discard` ends the process once a certain number of bytes has been
received.  That number is computed in three places, after different parts of the packet were taken
out of the input.

* `packetFailure` : how the packet at the beginning of a stream fails;
* `stopsAt_stopPoint` : where the process ends, for every way the stream is cut into reads;
* `discard_point_iff` : that is after `PACKET_MAX_SIZE` bytes unless the MAC is wrong.

The functions of `PacketRead` do not tell why the process ends.  Here they do; `toOption_readPoll`
and `toOption_processIncoming` relate the two.
-/
import CSBuFLO.Cells
import CSBuFLO.PacketRead

namespace CSBuFLO

open Cells

variable {κ : Type}

/-! ## Why the process ends -/

/-- The ways to end. -/
inductive Exit where
  | stopDiscard
  /-- `packet_disconnect` or `fatal`. -/
  | other
  deriving DecidableEq

/-- `packet_process_incoming`. -/
def processIncoming (r : RecvState κ) (buf : List UInt8) : Except Exit (RecvState κ) :=
  if r.discard ≠ 0 then
    if r.discard ≤ buf.length then .error .stopDiscard
    else .ok { r with discard := r.discard - buf.length }
  else .ok { r with input := r.input ++ buf }

/-- `packet_start_discard`. -/
def startDiscard (K : Keys κ) (amount : ℕ) (r : RecvState κ) : Except Exit (RecvState κ) :=
  if K.cbc = false then .error .other
  else if amount ≤ r.input.length then .error .stopDiscard
  else .ok { r with discard := amount - r.input.length }

/-- The part of `packet_read_poll2` after the first block. -/
def readRestExit (K : Keys κ) (r : RecvState κ) :
    Except Exit (Option (List UInt8) × RecvState κ) :=
  let b := K.cipher.blockSize
  let need := needBytes b r.packlen
  if need % b ≠ 0 then (startDiscard K (packetMaxSize - b) r).map fun r' => (none, r')
  else if r.input.length < need + K.macLen then .ok (none, r)
  else
    let d := K.cipher.dec r.ctx (r.input.take need)
    let r1 := { r with ctx := d.2, incoming := r.incoming ++ d.1, input := r.input.drop need }
    if K.mac r1.seqnr r1.incoming ≠ r1.input.take K.macLen then
      if need > packetMaxSize then .error .other
      else (startDiscard K (packetMaxSize - need) r1).map fun r' => (none, r')
    else
      match finishPacket K { r1 with input := r1.input.drop K.macLen } with
      | none => .error .other
      | some x => .ok x

/-- `packet_read_poll2`. -/
def readPoll (K : Keys κ) (r : RecvState κ) : Except Exit (Option (List UInt8) × RecvState κ) :=
  let b := K.cipher.blockSize
  if r.discard ≠ 0 then .ok (none, r)
  else if r.packlen = 0 then
    if r.input.length < b then .ok (none, r)
    else
      let d := K.cipher.dec r.ctx (r.input.take b)
      let r1 := { r with ctx := d.2, incoming := d.1, packlen := getU32 d.1 }
      if r1.packlen < 5 ∨ packetMaxSize < r1.packlen then
        (startDiscard K packetMaxSize r1).map fun r' => (none, r')
      else readRestExit K { r1 with input := r1.input.drop b }
  else readRestExit K r

theorem toOption_processIncoming (r : RecvState κ) (buf : List UInt8) :
    (processIncoming r buf).toOption = packetProcessIncoming r buf := by
  unfold processIncoming packetProcessIncoming
  split_ifs <;> rfl

theorem toOption_startDiscard (K : Keys κ) (amount : ℕ) (r : RecvState κ) :
    ((startDiscard K amount r).map fun r' => ((none : Option (List UInt8)), r')).toOption =
      (packetStartDiscard K amount r).map fun r' => (none, r') := by
  unfold startDiscard packetStartDiscard
  split_ifs <;> rfl

theorem toOption_readRest (K : Keys κ) (r : RecvState κ) :
    (readRestExit K r).toOption = readRest K r := by
  unfold readRestExit readRest
  dsimp only
  split_ifs
  · exact toOption_startDiscard K _ r
  · rfl
  · rfl
  · exact toOption_startDiscard K _ _
  · generalize finishPacket K _ = x
    cases x <;> rfl

/-- **The reasons are added to what `packet_read_poll2` does.** -/
theorem toOption_readPoll (K : Keys κ) (r : RecvState κ) :
    (readPoll K r).toOption = packetReadPoll2 K r := by
  unfold readPoll packetReadPoll2
  dsimp only
  split_ifs
  · rfl
  · rfl
  · exact toOption_startDiscard K _ _
  · exact toOption_readRest K _
  · exact toOption_readRest K r

/-! ## Reading a stream -/

/-- Poll until there is no packet, at most `fuel` times. -/
def pollAll (K : Keys κ) : ℕ → RecvState κ → Except Exit (RecvState κ)
  | 0, r => .ok r
  | fuel + 1, r =>
    match readPoll K r with
    | .error x => .error x
    | .ok (none, r') => .ok r'
    | .ok (some _, r') => pollAll K fuel r'

/-- Read a stream in pieces of these lengths, from its byte `n` on.  After each read the packets are
polled: there are not more of them than bytes. -/
def receiveReads (K : Keys κ) (S : ℕ → UInt8) : RecvState κ → ℕ → List ℕ → Except Exit (RecvState κ)
  | r, _, [] => .ok r
  | r, n, m :: ms =>
    match processIncoming r (segment S n m) with
    | .error x => .error x
    | .ok r1 =>
      match pollAll K (r1.input.length + 1) r1 with
      | .error x => .error x
      | .ok r2 => receiveReads K S r2 (n + m) ms

/-- The process goes on until `N` bytes have been received; the read that brings the number to `N`
or more reaches `packet_stop_discard`. -/
def StopsAt (K : Keys κ) (r : RecvState κ) (S : ℕ → UInt8) (N : ℕ) : Prop :=
  ∀ reads : List ℕ,
    (reads.sum < N → ∃ r', receiveReads K S r 0 reads = .ok r') ∧
    (N ≤ reads.sum → receiveReads K S r 0 reads = .error .stopDiscard)

/-- Between two packets, with no byte of the next one. -/
structure RecvState.Fresh (r : RecvState κ) : Prop where
  input : r.input = []
  packlen : r.packlen = 0
  discard : r.discard = 0

/-! ## Corrupted packets -/

/-- How a packet fails; with a wrong MAC, the number of bytes after the first block. -/
inductive Failure where
  | badLength
  | misaligned
  | badMac (need : ℕ)

/-- How the packet at the beginning of a stream fails: its length is out of range, it does not
consist of whole blocks, or its MAC is wrong. -/
def packetFailure (K : Keys κ) (r : RecvState κ) (S : ℕ → UInt8) : Option Failure :=
  let b := K.cipher.blockSize
  let d := K.cipher.dec r.ctx (segment S 0 b)
  let packlen := getU32 d.1
  if packlen < 5 ∨ packetMaxSize < packlen then some .badLength
  else
    let need := needBytes b packlen
    if need % b ≠ 0 then some .misaligned
    else if K.mac r.seqnr (d.1 ++ (K.cipher.dec d.2 (segment S b need)).1) ≠
        segment S (b + need) K.macLen then
      some (.badMac need)
    else none

namespace Failure

/-- How many bytes of the packet there are when the failure is found. -/
def detected (b macLen : ℕ) : Failure → ℕ
  | badLength => b
  | misaligned => b
  | badMac need => b + need + macLen

/-- How many bytes the code makes it discard, from the first byte of the packet on. -/
def discarded (b : ℕ) : Failure → ℕ
  | badLength => packetMaxSize
  | misaligned => packetMaxSize
  | badMac _ => packetMaxSize + b

/-- Where the process ends. -/
def stopPoint (b macLen : ℕ) (f : Failure) : ℕ := max (f.discarded b) (f.detected b macLen)

end Failure

/-- The state after the first block of the packet, with `n` bytes received. -/
def afterBlock (K : Keys κ) (r : RecvState κ) (S : ℕ → UInt8) (n : ℕ) : RecvState κ :=
  let b := K.cipher.blockSize
  let d := K.cipher.dec r.ctx (segment S 0 b)
  { r with
    ctx := d.2
    incoming := d.1
    packlen := getU32 d.1
    input := segment S b (n - b) }

/-- The states after `n` bytes of a packet that fails, before the process ends: the first block is
not there, the rest of a packet with a wrong MAC is not there, or bytes are discarded. -/
inductive Discarding (K : Keys κ) (r : RecvState κ) (S : ℕ → UInt8) (f : Failure) (n : ℕ) :
    RecvState κ → Prop where
  | start (hn : n < K.cipher.blockSize) : Discarding K r S f n { r with input := segment S 0 n }
  | half {need : ℕ} (hf : f = .badMac need) (hb : K.cipher.blockSize ≤ n)
      (hn : n < K.cipher.blockSize + need + K.macLen) : Discarding K r S f n (afterBlock K r S n)
  | discard {r' : RecvState κ} (hpos : r'.discard ≠ 0)
      (heq : r'.discard + n = f.discarded K.cipher.blockSize)
      (hn : f.detected K.cipher.blockSize K.macLen ≤ n) : Discarding K r S f n r'

/-- What a poll with `n` bytes does: the process goes on, without a packet, or it ends. -/
def PollsTo (K : Keys κ) (r : RecvState κ) (S : ℕ → UInt8) (f : Failure) (n : ℕ)
    (x : Except Exit (Option (List UInt8) × RecvState κ)) : Prop :=
  (∃ r', x = .ok (none, r') ∧ Discarding K r S f n r' ∧
    n < f.stopPoint K.cipher.blockSize K.macLen) ∨
  (x = .error .stopDiscard ∧ f.stopPoint K.cipher.blockSize K.macLen ≤ n)

section Failing

variable {K : Keys κ} {r : RecvState κ} {S : ℕ → UInt8} {f : Failure} {n : ℕ}

/-- **Where the discarding ends**, when it begins with some bytes of the packet taken out of the
input. -/
theorem pollsTo_startDiscard (hcbc : K.cbc = true) {amount : ℕ} {r1 : RecvState κ}
    (heq : amount + n = f.discarded K.cipher.blockSize + r1.input.length)
    (hn : f.detected K.cipher.blockSize K.macLen ≤ n) :
    PollsTo K r S f n ((startDiscard K amount r1).map fun r' => (none, r')) := by
  unfold startDiscard
  rw [if_neg (by rw [hcbc]; decide)]
  by_cases hstop : amount ≤ r1.input.length
  · rw [if_pos hstop]
    exact Or.inr ⟨rfl, max_le (by omega) hn⟩
  · rw [if_neg hstop]
    refine Or.inl ⟨_, rfl, .discard ?_ ?_ hn, lt_of_lt_of_le ?_ (le_max_left _ _)⟩
    · show amount - r1.input.length ≠ 0
      omega
    · show amount - r1.input.length + n = _
      omega
    · omega

/-- The number of bytes after the first block is not that of a packet shorter than a block. -/
theorem needBytes_le {b packlen : ℕ} (hb : b = 8 ∨ b = 16)
    (hlen : ¬ (packlen < 5 ∨ packetMaxSize < packlen)) (halign : needBytes b packlen % b = 0) :
    needBytes b packlen ≤ packetMaxSize := by
  unfold packetMaxSize at hlen ⊢
  unfold needBytes at halign ⊢
  rcases hb with rfl | rfl
  · rw [if_pos (by omega)]
    omega
  · split at halign
    · rw [if_pos (by assumption)]
      omega
    · omega

/-- **A packet with a wrong MAC**, after its first block. -/
theorem pollsTo_badMac (hcbc : K.cbc = true) {need : ℕ}
    (hlen : ¬ ((afterBlock K r S n).packlen < 5 ∨ packetMaxSize < (afterBlock K r S n).packlen))
    (hneed : needBytes K.cipher.blockSize (afterBlock K r S n).packlen = need)
    (halign : need % K.cipher.blockSize = 0)
    (hmac : K.mac (afterBlock K r S n).seqnr ((afterBlock K r S n).incoming ++
      (K.cipher.dec (afterBlock K r S n).ctx (segment S K.cipher.blockSize need)).1) ≠
        segment S (K.cipher.blockSize + need) K.macLen)
    (hb : K.cipher.blockSize ≤ n) :
    PollsTo K r S (.badMac need) n (readRestExit K (afterBlock K r S n)) := by
  have hle : need ≤ packetMaxSize := by
    rw [← hneed] at halign ⊢
    exact needBytes_le K.blockSize_eq hlen halign
  have hinput : (afterBlock K r S n).input =
      segment S K.cipher.blockSize (n - K.cipher.blockSize) := rfl
  unfold readRestExit
  dsimp only
  rw [hneed, if_neg (not_not.mpr halign)]
  by_cases hshort : (afterBlock K r S n).input.length < need + K.macLen
  · rw [if_pos hshort]
    rw [hinput, length_segment] at hshort
    have hn : n < K.cipher.blockSize + need + K.macLen := by omega
    exact Or.inl ⟨_, rfl, .half rfl hb hn, lt_of_lt_of_le hn (le_max_right _ _)⟩
  · rw [if_neg hshort]
    rw [hinput, length_segment] at hshort
    rw [hinput, take_segment _ _ (by omega), drop_segment _ _ (by omega),
      take_segment _ _ (by omega)]
    rw [if_pos hmac, if_neg (not_lt.mpr hle)]
    refine pollsTo_startDiscard hcbc ?_ ?_
    · show packetMaxSize - need + n = packetMaxSize + K.cipher.blockSize + (segment _ _ _).length
      rw [length_segment]
      omega
    · show K.cipher.blockSize + need + K.macLen ≤ n
      omega

/-- What the three kinds of failure say of the packet. -/
theorem packetFailure_cases (hf : packetFailure K r S = some f) :
    (f = .badLength ∧
      ((afterBlock K r S n).packlen < 5 ∨ packetMaxSize < (afterBlock K r S n).packlen)) ∨
    (¬ ((afterBlock K r S n).packlen < 5 ∨ packetMaxSize < (afterBlock K r S n).packlen) ∧
      ((f = .misaligned ∧
        needBytes K.cipher.blockSize (afterBlock K r S n).packlen % K.cipher.blockSize ≠ 0) ∨
      ∃ need, f = .badMac need ∧
        needBytes K.cipher.blockSize (afterBlock K r S n).packlen = need ∧
        need % K.cipher.blockSize = 0 ∧
        K.mac (afterBlock K r S n).seqnr ((afterBlock K r S n).incoming ++
          (K.cipher.dec (afterBlock K r S n).ctx (segment S K.cipher.blockSize need)).1) ≠
            segment S (K.cipher.blockSize + need) K.macLen)) := by
  unfold packetFailure at hf
  dsimp only at hf
  split_ifs at hf with hlen halign hmac
  · exact Or.inl ⟨(Option.some.inj hf).symm, hlen⟩
  · exact Or.inr ⟨hlen, Or.inl ⟨(Option.some.inj hf).symm, halign⟩⟩
  · exact Or.inr ⟨hlen, Or.inr ⟨_, (Option.some.inj hf).symm, rfl, not_not.mp halign, hmac⟩⟩

/-- **The first block.**  With its bytes in the input the failure is found, or the rest of the
packet is waited for. -/
theorem pollsTo_firstBlock (hcbc : K.cbc = true) (hfresh : r.Fresh)
    (hf : packetFailure K r S = some f)
    (hb : K.cipher.blockSize ≤ n) :
    PollsTo K r S f n (readPoll K { r with input := segment S 0 n }) := by
  have hpoll : readPoll K { r with input := segment S 0 n } =
      if (afterBlock K r S n).packlen < 5 ∨ packetMaxSize < (afterBlock K r S n).packlen then
        (startDiscard K packetMaxSize { afterBlock K r S n with input := segment S 0 n }).map
          fun r' => (none, r')
      else readRestExit K (afterBlock K r S n) := by
    unfold readPoll
    dsimp only
    rw [if_neg (not_not.mpr hfresh.discard), if_pos hfresh.packlen,
      if_neg (not_lt.mpr (by rw [length_segment]; exact hb)), take_segment S 0 hb,
      drop_segment S 0 hb, Nat.zero_add]
    rfl
  rw [hpoll]
  rcases packetFailure_cases (n := n) hf with
    ⟨rfl, hlen⟩ | ⟨hlen, ⟨rfl, halign⟩ | ⟨need, rfl, hneed, halign, hmac⟩⟩
  · -- The input still has the whole packet.
    rw [if_pos hlen]
    refine pollsTo_startDiscard hcbc ?_ hb
    show packetMaxSize + n = packetMaxSize + (segment S 0 n).length
    rw [length_segment]
  · -- The first block has been taken out.
    rw [if_neg hlen]
    unfold readRestExit
    dsimp only
    rw [if_pos halign]
    refine pollsTo_startDiscard hcbc ?_ hb
    show packetMaxSize - K.cipher.blockSize + n =
      packetMaxSize + (segment S K.cipher.blockSize (n - K.cipher.blockSize)).length
    have hsize := K.blockSize_eq
    rw [length_segment]
    unfold packetMaxSize
    omega
  · rw [if_neg hlen]
    exact pollsTo_badMac hcbc hlen hneed halign hmac hb

/-- The rest of a packet with a wrong MAC. -/
theorem pollsTo_half (hcbc : K.cbc = true) (hfresh : r.Fresh) {need : ℕ}
    (hf : packetFailure K r S = some (.badMac need)) (hb : K.cipher.blockSize ≤ n) :
    PollsTo K r S (.badMac need) n (readPoll K (afterBlock K r S n)) := by
  rcases packetFailure_cases (n := n) hf with
    ⟨h, _⟩ | ⟨hlen, ⟨h, _⟩ | ⟨need', h, hneed, halign, hmac⟩⟩
  · cases h
  · cases h
  · cases h
    have hdiscard : (afterBlock K r S n).discard = 0 := hfresh.discard
    have hpoll : readPoll K (afterBlock K r S n) = readRestExit K (afterBlock K r S n) := by
      unfold readPoll
      dsimp only
      rw [if_neg (not_not.mpr hdiscard), if_neg (by omega)]
    rw [hpoll]
    exact pollsTo_badMac hcbc hlen hneed halign hmac hb

/-- **One read.**  The bytes are added to the input and polled, or they are discarded. -/
theorem Discarding.read (hcbc : K.cbc = true) (hfresh : r.Fresh) (hf : packetFailure K r S = some f)
    {r' : RecvState κ} (h : Discarding K r S f n r') (m : ℕ) :
    PollsTo K r S f (n + m)
      ((processIncoming r' (segment S n m)).bind fun r1 => readPoll K r1) := by
  cases h with
  | start hn =>
    have hread : processIncoming { r with input := segment S 0 n } (segment S n m) =
        .ok { r with input := segment S 0 (n + m) } := by
      unfold processIncoming
      rw [if_neg (not_not.mpr hfresh.discard), ← segment_append S 0 n m, Nat.zero_add]
    rw [hread]
    show PollsTo K r S f (n + m) (readPoll K { r with input := segment S 0 (n + m) })
    by_cases hb : K.cipher.blockSize ≤ n + m
    · exact pollsTo_firstBlock hcbc hfresh hf hb
    · have hpoll : readPoll K { r with input := segment S 0 (n + m) } =
          .ok (none, { r with input := segment S 0 (n + m) }) := by
        unfold readPoll
        dsimp only
        rw [if_neg (not_not.mpr hfresh.discard), if_pos hfresh.packlen,
          if_pos (by rw [length_segment]; omega)]
      have hlt : n + m < f.detected K.cipher.blockSize K.macLen := by
        cases f <;> simp only [Failure.detected] <;> omega
      exact Or.inl ⟨_, hpoll, .start (by omega), lt_of_lt_of_le hlt (le_max_right _ _)⟩
  | half hmac hb hn =>
    subst hmac
    have hread : processIncoming (afterBlock K r S n) (segment S n m) =
        .ok (afterBlock K r S (n + m)) := by
      have happend := segment_append S K.cipher.blockSize (n - K.cipher.blockSize) m
      rw [Nat.add_sub_cancel' hb] at happend
      unfold processIncoming afterBlock
      dsimp only
      rw [if_neg (not_not.mpr hfresh.discard), happend, Nat.sub_add_comm hb]
    rw [hread]
    exact pollsTo_half hcbc hfresh hf (by omega)
  | discard hpos heq hn =>
    unfold processIncoming
    rw [if_pos hpos, length_segment]
    by_cases hstop : r'.discard ≤ m
    · rw [if_pos hstop]
      exact Or.inr ⟨rfl, max_le (by omega) (by omega)⟩
    · rw [if_neg hstop]
      have hpos' : r'.discard - m ≠ 0 := by omega
      have hpoll : readPoll K { r' with discard := r'.discard - m } =
          .ok (none, { r' with discard := r'.discard - m }) := by
        unfold readPoll
        exact if_pos hpos'
      refine Or.inl ⟨_, hpoll, .discard hpos' ?_ (by omega), lt_of_lt_of_le ?_ (le_max_left _ _)⟩
      · show r'.discard - m + (n + m) = _
        omega
      · omega

/-- **A run.**  However the stream is cut, the process ends at the same number of bytes. -/
theorem receiveReads_discarding (hcbc : K.cbc = true) (hfresh : r.Fresh)
    (hf : packetFailure K r S = some f) :
    ∀ (reads : List ℕ) (n : ℕ) (r' : RecvState κ), Discarding K r S f n r' →
      n < f.stopPoint K.cipher.blockSize K.macLen →
      (n + reads.sum < f.stopPoint K.cipher.blockSize K.macLen →
        ∃ r'', receiveReads K S r' n reads = .ok r'') ∧
      (f.stopPoint K.cipher.blockSize K.macLen ≤ n + reads.sum →
        receiveReads K S r' n reads = .error .stopDiscard) := by
  intro reads
  induction reads with
  | nil =>
    intro n r' _ hn
    refine ⟨fun _ => ⟨r', rfl⟩, fun hle => ?_⟩
    rw [List.sum_nil] at hle
    omega
  | cons m reads ih =>
    intro n r' h hn
    have hstep := h.read hcbc hfresh hf m
    rw [List.sum_cons, ← Nat.add_assoc]
    unfold receiveReads
    cases hread : processIncoming r' (segment S n m) with
    | error x =>
      rw [hread] at hstep
      rcases hstep with ⟨_, hx, _⟩ | ⟨hx, hle⟩
      · cases hx
      · cases hx
        exact ⟨fun hlt => by omega, fun _ => rfl⟩
    | ok r1 =>
      rw [hread] at hstep
      dsimp only
      unfold pollAll
      rcases hstep with ⟨r2, hx, hnext, hlt⟩ | ⟨hx, hle⟩
      · have hpoll : readPoll K r1 = .ok (none, r2) := hx
        rw [hpoll]
        exact ih (n + m) r2 hnext hlt
      · have hpoll : readPoll K r1 = .error .stopDiscard := hx
        rw [hpoll]
        exact ⟨fun hlt => by omega, fun _ => rfl⟩

/-- **Where the process ends**, for each kind of failure. -/
theorem stopsAt_stopPoint (hcbc : K.cbc = true) (hfresh : r.Fresh)
    (hf : packetFailure K r S = some f) :
    StopsAt K r S (f.stopPoint K.cipher.blockSize K.macLen) := by
  intro reads
  have hstart : Discarding K r S f 0 r := by
    have h := Discarding.start (K := K) (r := r) (S := S) (f := f) (n := 0)
      K.cipher.blockSize_pos
    have hinput : segment S 0 0 = r.input := hfresh.input.symm
    rw [hinput] at h
    exact h
  have hpos : 0 < f.stopPoint K.cipher.blockSize K.macLen := by
    refine lt_of_lt_of_le ?_ (le_max_left _ _)
    cases f <;> simp only [Failure.discarded, packetMaxSize] <;> omega
  have hrun := receiveReads_discarding hcbc hfresh hf reads 0 r hstart hpos
  rw [Nat.zero_add] at hrun
  exact hrun

/-- The process does not end at two numbers of bytes. -/
theorem StopsAt.unique {N M : ℕ} (hN : StopsAt K r S N) (hM : StopsAt K r S M) : N = M := by
  have hle : ∀ {N M : ℕ}, StopsAt K r S N → StopsAt K r S M → N ≤ M := by
    intro N M hN hM
    by_contra hlt
    obtain ⟨r', hgo⟩ := (hN [M]).1 (by rw [List.sum_singleton]; omega)
    have hend := (hM [M]).2 (by rw [List.sum_singleton])
    rw [hgo] at hend
    cases hend
  exact Nat.le_antisymm (hle hN hM) (hle hM hN)

/-- **Where a corrupted packet is disconnected.**  With a CBC cipher, and however the stream is cut
into reads, `packet_stop_discard` is reached once `PACKET_MAX_SIZE` bytes have been received since
the first byte of the packet, exactly if the packet did not fail by its MAC.  `packet_read_poll2`
subtracts `need` there, although the first block has been taken out of the input too. -/
theorem discard_point_iff (hcbc : K.cbc = true) (hfresh : r.Fresh)
    (hf : packetFailure K r S = some f) :
    StopsAt K r S packetMaxSize ↔ ∀ need, f ≠ .badMac need := by
  have hsize := K.blockSize_eq
  have hpoint := stopsAt_stopPoint hcbc hfresh hf
  constructor
  · rintro hstop need rfl
    have heq : packetMaxSize = max (packetMaxSize + K.cipher.blockSize) _ := hstop.unique hpoint
    have hle := le_max_left (packetMaxSize + K.cipher.blockSize)
      (K.cipher.blockSize + need + K.macLen)
    omega
  · intro hmac
    have hle : K.cipher.blockSize ≤ packetMaxSize := by
      unfold packetMaxSize
      omega
    have heq : f.stopPoint K.cipher.blockSize K.macLen = packetMaxSize := by
      cases f with
      | badLength => exact max_eq_left hle
      | misaligned => exact max_eq_left hle
      | badMac need => exact absurd rfl (hmac need)
    rw [heq] at hpoint
    exact hpoint

end Failing

/-- A CBC cipher with blocks of eight bytes and a MAC of one byte, which is 0. -/
def cbcKeys : Keys Unit := { identityKeys 8 1 blockSize_eight with cbc := true }

/-- A packet of length 0. -/
def zeroStream : ℕ → UInt8 := fun _ => 0

/-- A packet of length 12 with the MAC 1. -/
def wrongMacStream : ℕ → UInt8 := fun k => if k = 3 then 12 else if k = 16 then 1 else 0

theorem discard_point_zeroStream :
    StopsAt cbcKeys ⟨(), 0, 0, [], [], 0, 0⟩ zeroStream packetMaxSize :=
  (discard_point_iff (K := cbcKeys) (r := ⟨(), 0, 0, [], [], 0, 0⟩) (S := zeroStream)
    (f := .badLength) rfl ⟨rfl, rfl, rfl⟩ rfl).mpr fun _ h => Failure.noConfusion h

/-- The packet with the wrong MAC is disconnected eight bytes after the one with the wrong length,
so there is no number for both. -/
theorem discard_point_differs :
    ¬ ∃ N, ∀ S, packetFailure cbcKeys ⟨(), 0, 0, [], [], 0, 0⟩ S ≠ none →
      StopsAt cbcKeys ⟨(), 0, 0, [], [], 0, 0⟩ S N := by
  rintro ⟨N, hstop⟩
  have hzero : packetFailure cbcKeys ⟨(), 0, 0, [], [], 0, 0⟩ zeroStream = some .badLength := rfl
  have hmac : packetFailure cbcKeys ⟨(), 0, 0, [], [], 0, 0⟩ wrongMacStream =
      some (.badMac 8) := rfl
  have hfirst : N = packetMaxSize :=
    (hstop zeroStream (by rw [hzero]; exact Option.some_ne_none _)).unique
      (stopsAt_stopPoint rfl ⟨rfl, rfl, rfl⟩ hzero)
  have hsecond : N = packetMaxSize + 8 :=
    (hstop wrongMacStream (by rw [hmac]; exact Option.some_ne_none _)).unique
      (stopsAt_stopPoint rfl ⟨rfl, rfl, rfl⟩ hmac)
  omega

end CSBuFLO
