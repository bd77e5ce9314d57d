/-
# Draining the output buffer

What repeated calls of `packet_write_poll` do to the length of the output buffer when
nothing more is queued, the calls are made past `packet_time_to_write` and the kernel
takes every write in full.

While flushing (normal mode, or transcript mode after the own `TEND`) a remainder between
33 and 127 bytes is padded up to 128, and the tail of that padding packet stays behind.
The length of the buffer then follows the map `drainStep`, which depends on the cipher's
block size and the MAC length only.  `exists_drainStep_eq_zero_iff` says from which lengths
the map reaches zero, for the MACs of `mac.c`.
-/
import CSBuFLO.PacketRead
import CSBuFLO.Transition

namespace CSBuFLO

/-! ## The MAC table (`mac.c`) -/

/-- How a MAC is computed: `SSH_EVP` with a digest of `size` bytes, or `SSH_UMAC` with its
own key and tag lengths in bits. -/
inductive MacType where
  | evp (size : ℕ)
  | umac (keyLen len : ℕ)
  deriving DecidableEq, Repr

/-- An entry of `macs`. -/
structure MacEntry where
  name : String
  type : MacType
  truncatebits : ℕ
  deriving DecidableEq, Repr

/-- The table `macs`. -/
def macs : List MacEntry :=
  [⟨"hmac-sha1", .evp 20, 0⟩, ⟨"hmac-sha1-96", .evp 20, 96⟩,
    ⟨"hmac-sha2-256", .evp 32, 0⟩, ⟨"hmac-sha2-256-96", .evp 32, 96⟩,
    ⟨"hmac-sha2-512", .evp 64, 0⟩, ⟨"hmac-sha2-512-96", .evp 64, 96⟩,
    ⟨"hmac-md5", .evp 16, 0⟩, ⟨"hmac-md5-96", .evp 16, 96⟩,
    ⟨"hmac-ripemd160", .evp 20, 0⟩, ⟨"hmac-ripemd160@openssh.com", .evp 20, 0⟩,
    ⟨"umac-64@openssh.com", .umac 128 64, 0⟩]

/-- The lengths `mac_setup_by_id` sets, in bytes. -/
structure Mac where
  keyLen : ℕ
  macLen : ℕ
  deriving DecidableEq, Repr

/-- `mac_setup_by_id`. -/
def macSetupById (e : MacEntry) : Mac :=
  let mac : Mac :=
    match e.type with
    | .evp size => ⟨size, size⟩
    | .umac keyLen len => ⟨keyLen / 8, len / 8⟩
  if e.truncatebits ≠ 0 then { mac with macLen := e.truncatebits / 8 } else mac

/-- The MAC lengths that occur. -/
theorem macLen_cases {e : MacEntry} (h : e ∈ macs) :
    (macSetupById e).macLen ∈ [8, 12, 16, 20, 32, 64] := by
  revert e
  decide

/-! ## Writes taken in full -/

variable {σ β : Type}

/-- How many packets the padding step sends. -/
def padPackets (aw len : ℕ) : ℕ := if aw ≤ len then 0 else 1

theorem padPackets_le (aw len : ℕ) : padPackets aw len ≤ 1 := by
  unfold padPackets
  split <;> omega

/-- From `p` to `p'` at most `k` packets were sent. -/
def Spends (c : Codec σ β) (k : ℕ) (p p' : PacketState σ β) : Prop :=
  ∀ n, c.Room (k + n) p.snd → c.Room n p'.snd

theorem Spends.refl (c : Codec σ β) (p : PacketState σ β) : Spends c 0 p p := by
  intro n h
  rwa [Nat.zero_add] at h

variable {c : Codec σ β} {p : PacketState σ β} {g : Globals} {m len b : ℕ}
  {s : Globals × PacketState σ β}

theorem Spends.trans {k l : ℕ} {q r : PacketState σ β} (hpq : Spends c k p q)
    (hqr : Spends c l q r) : Spends c (k + l) p r := by
  intro n h
  rw [Nat.add_assoc] at h
  exact hqr n (hpq (l + n) h)

theorem spends_packetSendIgnore {k : ℕ} {p' : PacketState σ β}
    (h : packetSendIgnore c k p = some p') : Spends c 1 p p' := by
  intro n hroom
  rw [Nat.add_comm] at hroom
  obtain ⟨r, hr, hrest⟩ := hroom k 0 (ignorePayload (c.arc4random p.snd k).1)
  obtain ⟨bs, t, hsend, rfl⟩ := packetSend_eq_some h
  obtain rfl := Option.some.inj (hr.symm.trans hsend)
  exact hrest

theorem exists_packetSendIgnore (h : c.Room 1 p.snd) (k : ℕ) :
    ∃ p', packetSendIgnore c k p = some p' := by
  obtain ⟨⟨bs, t⟩, hr, -⟩ := h k 0 (ignorePayload (c.arc4random p.snd k).1)
  exact ⟨_, by simp only [packetSendIgnore, packetSend, hr]; rfl⟩

theorem spends_padOutput {aw : ℕ} {p' : PacketState σ β} (h : padOutput c aw p = some p') :
    Spends c (padPackets aw p.outputLen) p p' := by
  rw [padOutput_eq] at h
  unfold padPackets
  split_ifs at h ⊢
  · obtain rfl := Option.some.inj h
    exact .refl c p
  · exact spends_packetSendIgnore h

theorem exists_padOutput {aw : ℕ} (h : c.Room (padPackets aw p.outputLen) p.snd) :
    ∃ p', padOutput c aw p = some p' := by
  rw [padOutput_eq]
  unfold padPackets at h
  split_ifs at h ⊢
  · exact ⟨p, rfl⟩
  · exact exists_packetSendIgnore h _

/-- The length one write that aims at `aw` bytes hands over when `len` bytes are buffered. -/
def fullWrite (c : Codec σ β) (g : Globals) (aw len : ℕ) : ℕ :=
  handedLength g aw len (paddedLength c.blockSize c.macLen aw len)

theorem le_fullWrite (c : Codec σ β) (g : Globals) (aw len : ℕ) : aw ≤ fullWrite c g aw len := by
  have := le_paddedLength c.blockSize_eq c.macLen aw len
  unfold fullWrite handedLength
  split
  · exact le_refl aw
  · split <;> omega

/-- Outside csbuflo mode a write hands over what it aims at. -/
theorem fullWrite_of_ne (c : Codec σ β) (h : g.stmode ≠ .csbuflo) (aw len : ℕ) :
    fullWrite c g aw len = aw := by
  unfold fullWrite handedLength
  rw [if_pos h, ite_self]

/-- **A write taken in full.**  If the padding can be sent, what is handed over leaves the
buffer. -/
theorem packetWritePollOneWrite_full {ori : ℤ} {k : Kernel} {p1 : PacketState σ β} {aw : ℕ}
    (haw : actualWrite g ori k.outq p.outputLen = aw) (hpos : 0 < aw) (hk : k.result = .accepted m)
    (hm : fullWrite c g aw p.outputLen ≤ m) (hp1 : padOutput c aw p = some p1) :
    ∃ g1 p', packetWritePollOneWrite c g ori k p =
        some ((afterWrite g1 ori (fullWrite c g aw p.outputLen)).1,
          (afterWrite g1 ori (fullWrite c g aw p.outputLen)).2, p') ∧
      g1 = { g with paddedJunk := g1.paddedJunk } ∧
      p'.outputLen = paddedLength c.blockSize c.macLen aw p.outputLen -
        fullWrite c g aw p.outputLen ∧
      p'.snd = p1.snd := by
  have hlen := outputLen_padOutput hp1
  have hle := le_fullWrite c g aw p.outputLen
  have hhanded : handedLength g aw p.outputLen p1.outputLen = fullWrite c g aw p.outputLen := by
    rw [hlen]; rfl
  generalize fullWrite c g aw p.outputLen = n at hm hle hhanded ⊢
  have htaken : k.result.taken n = some n := by
    rw [hk, WriteResult.taken, Nat.min_eq_right hm, if_neg (by omega)]
  refine ⟨padJunk g aw p.outputLen p1.outputLen, (p1.handOver n).consume n, ?_, ?_, ?_, rfl⟩
  · rw [packetWritePollOneWrite_eq, haw, if_neg (by omega), Int.toNat_natCast, hp1]
    simp only [Option.bind_some, hhanded, htaken, Option.map_some]
  · unfold padJunk
    split <;> rfl
  · rw [outputLen_consume_handOver, hlen]

/-- A write whose padding cannot be sent. -/
theorem packetWritePollOneWrite_fatal {ori : ℤ} {k : Kernel} {aw : ℕ}
    (haw : actualWrite g ori k.outq p.outputLen = aw) (hpos : 0 < aw)
    (hp1 : padOutput c aw p = none) : packetWritePollOneWrite c g ori k p = none := by
  rw [packetWritePollOneWrite_eq, haw, if_neg (by omega), Int.toNat_natCast, hp1]
  rfl

/-! ## Flushing -/

/-- The length of a flushing write. -/
def flushAim (owed : ℤ) (len : ℕ) : ℕ := if owed ≤ 0 ∧ len ≤ 32 then len else 128

/-- The length of the buffer after a flushing write with `owed` bytes of padding owed. -/
def flushStep (blockSize macLen : ℕ) (owed : ℤ) (len : ℕ) : ℕ :=
  paddedLength blockSize macLen (flushAim owed len) len - flushAim owed len

/-- The padding owed after a flushing write. -/
def owedStep (owed : ℤ) : ℤ := if owed > 0 then (if owed ≥ 128 then owed - 128 else 0) else owed

theorem actualWrite_flushing (h : flushing g = true) (ori : ℤ) (outq len : ℕ) :
    actualWrite g ori outq len = (flushAim g.transPaddedRemaining len : ℕ) := by
  unfold actualWrite flushAim
  simp only [h, if_true]
  split_ifs <;> first | rfl | omega

/-- The globals after a flushing write. -/
def flushed (g : Globals) (junk : ℤ) : Globals :=
  { g with paddedJunk := junk, transPaddedRemaining := owedStep g.transPaddedRemaining }

/-- A state in which `packet_write_poll` makes one flushing write. -/
structure Flushes (g : Globals) : Prop where
  flushing : flushing g = true
  w2w : g.stmode = .supertrace → g.w2w = 0

/-- A kernel that takes the first write in full if it has at most `n` bytes. -/
def TakesFirst (n : ℕ) (ks : List Kernel) : Prop :=
  ∃ k rest m, ks = k :: rest ∧ k.result = .accepted m ∧ n ≤ m

theorem Flushes.mode_ne (h : Flushes g) : g.stmode ≠ .csbuflo := by
  intro hmode
  have := h.flushing
  simp [CSBuFLO.flushing, hmode] at this

theorem singleWrite_of_eq_some {k : Kernel} {rest : List Kernel} {g' : Globals} {i : ℤ}
    {p' : PacketState σ β} (h : packetWritePollOneWrite c g g.w2w k p = some (i, g', p')) :
    singleWrite c (k :: rest) g p = .returned (g', p') := by
  simp only [singleWrite, h]

theorem singleWrite_of_eq_none {k : Kernel} {rest : List Kernel}
    (h : packetWritePollOneWrite c g g.w2w k p = none) :
    singleWrite c (k :: rest) g p = .fatal := by
  simp only [singleWrite, h]

/-- The packets a flushing write sends. -/
def flushPackets (owed : ℤ) (len : ℕ) : ℕ := padPackets (flushAim owed len) len

/-- One flushing write taken in full: only the padding can fail. -/
theorem singleWrite_flush (c : Codec σ β) (hg : Flushes g) {ks : List Kernel}
    (hks : TakesFirst 128 ks) (p : PacketState σ β) :
    (¬ c.Room (flushPackets g.transPaddedRemaining p.outputLen) p.snd ∧
      singleWrite c ks g p = .fatal) ∨
    ∃ junk p', singleWrite c ks g p = .returned (flushed g junk, p') ∧
      p'.outputLen = flushStep c.blockSize c.macLen g.transPaddedRemaining p.outputLen ∧
      Spends c (flushPackets g.transPaddedRemaining p.outputLen) p p' := by
  obtain ⟨k, rest, m, rfl, hk, hm⟩ := hks
  have haw := actualWrite_flushing hg.flushing g.w2w k.outq p.outputLen
  have hfull :=
    fullWrite_of_ne c hg.mode_ne (flushAim g.transPaddedRemaining p.outputLen) p.outputLen
  by_cases hzero : flushAim g.transPaddedRemaining p.outputLen = 0
  · -- nothing is buffered and nothing owed
    have howed : g.transPaddedRemaining ≤ 0 ∧ p.outputLen = 0 := by
      unfold flushAim at hzero
      split at hzero <;> omega
    have hone : packetWritePollOneWrite c g g.w2w k p = some (g.w2w, g, p) := by
      rw [packetWritePollOneWrite_eq, haw, hzero, if_pos (by simp)]
    refine Or.inr ⟨g.paddedJunk, p, ?_, ?_, ?_⟩
    · rw [singleWrite_of_eq_some hone, flushed, owedStep,
        if_neg (show ¬ g.transPaddedRemaining > 0 by omega)]
    · rw [flushStep, hzero, paddedLength, if_pos (Nat.zero_le _), Nat.sub_zero]
    · rw [flushPackets, hzero, padPackets, if_pos (Nat.zero_le _)]
      exact .refl c p
  cases hp1 : padOutput c (flushAim g.transPaddedRemaining p.outputLen) p with
  | none =>
    refine Or.inl ⟨fun hroom => ?_, singleWrite_of_eq_none
      (packetWritePollOneWrite_fatal haw (Nat.pos_of_ne_zero hzero) hp1)⟩
    obtain ⟨p1, hsome⟩ := exists_padOutput hroom
    exact absurd (hp1.symm.trans hsome) (by simp)
  | some p1 =>
    right
    have hle : flushAim g.transPaddedRemaining p.outputLen ≤ 128 := by
      unfold flushAim
      split <;> omega
    obtain ⟨g1, p', hone, hg1, hlen, hsnd⟩ := packetWritePollOneWrite_full haw
      (Nat.pos_of_ne_zero hzero) hk (by omega) hp1
    rw [hfull] at hone hlen
    have hspends : Spends c (flushPackets g.transPaddedRemaining p.outputLen) p p' := by
      intro n hroom
      rw [hsnd]
      exact spends_padOutput hp1 n hroom
    refine ⟨g1.paddedJunk, p', ?_, hlen, hspends⟩
    rw [singleWrite_of_eq_some hone, Outcome.returned.injEq, Prod.mk.injEq]
    refine ⟨?_, rfl⟩
    have hflush1 : flushing g1 = true := by rw [hg1]; exact hg.flushing
    have howed1 : g1.transPaddedRemaining = g.transPaddedRemaining := by rw [hg1]
    simp only [afterWrite, hflush1, true_and, howed1, flushed]
    by_cases howed : g.transPaddedRemaining > 0
    · have haim : flushAim g.transPaddedRemaining p.outputLen = 128 := by
        unfold flushAim
        rw [if_neg (by omega)]
      rw [if_pos howed, haim, Globals.decreaseTransPaddedRemaining, howed1, owedStep,
        if_pos howed]
      rw [hg1]
      rfl
    · rw [if_neg howed, owedStep, if_neg howed, hg1]

/-- While flushing a poll makes one write. -/
theorem Flushes.pollWrites_eq (hg : Flushes g) (c : Codec σ β) (ks : List Kernel)
    (p : PacketState σ β) : pollWrites c ks g p = singleWrite c ks g p := by
  unfold pollWrites
  by_cases hmode : g.stmode = .supertrace
  · have htend : g.sentTend = true := by
      have := hg.flushing
      simpa [CSBuFLO.flushing, hmode] using this
    rw [if_pos hmode, if_pos ⟨hg.w2w hmode, htend⟩]
  · rw [if_neg hmode]

/-! ## Repeated polls -/

/-- A call of `packet_write_poll` that returns. -/
def pollStep (c : Codec σ β) (s : Globals × PacketState σ β) (inp : PollInput) :
    Option (Globals × PacketState σ β) :=
  match packetWritePoll c inp s.1 s.2 with
  | .returned r => some r
  | _ => none

/-- The state after the first `n` polls of a sequence. -/
def afterPolls (c : Codec σ β) (inp : ℕ → PollInput) (s : Globals × PacketState σ β) (n : ℕ) :
    Option (Globals × PacketState σ β) :=
  Transition.run (pollStep c) s ((List.range n).map inp)

theorem afterPolls_succ (c : Codec σ β) (inp : ℕ → PollInput) (s : Globals × PacketState σ β)
    (n : ℕ) : afterPolls c inp s (n + 1) = (afterPolls c inp s n).bind (pollStep c · (inp n)) := by
  unfold afterPolls
  rw [List.range_succ, List.map_append, Transition.run_append]
  refine congrArg _ (funext fun t => ?_)
  cases h : pollStep c t (inp n) <;> simp [Transition.run, h]

theorem pollStep_early {x : PollInput} (h : x.now < s.2.packetTimeToWrite) :
    pollStep c s x = some s := by
  unfold pollStep packetWritePoll
  rw [if_pos h]

/-- A poll past its time. -/
theorem pollStep_past {x : PollInput} (h : s.2.packetTimeToWrite ≤ x.now)
    {t : Globals × PacketState σ β} :
    pollStep c s x = some t ↔
      ∃ r, pollWrites c x.kernel { s.1 with paddedJunk := 0 } s.2 = .returned r ∧
        t = finishPoll x r.1 r.2 := by
  unfold pollStep packetWritePoll
  rw [if_neg (by omega)]
  cases pollWrites c x.kernel { s.1 with paddedJunk := 0 } s.2 with
  | returned r => simp [eq_comm]
  | looping r => simp
  | fatal => simp

/-- Padding owed and bytes buffered, over one flushing poll. -/
def flushPair (blockSize macLen : ℕ) (x : ℤ × ℕ) : ℤ × ℕ :=
  (owedStep x.1, flushStep blockSize macLen x.1 x.2)

/-- Padding owed and bytes buffered. -/
def owedAndLen (s : Globals × PacketState σ β) : ℤ × ℕ :=
  (s.1.transPaddedRemaining, s.2.outputLen)

/-- The packets of a flushing poll. -/
def pairPackets (x : ℤ × ℕ) : ℕ := flushPackets x.1 x.2

/-- **A poll while flushing.**  Past its time gate, with a kernel that takes what it gets,
`packet_write_poll` makes one flushing write; it returns if the padding can be sent. -/
theorem pollStep_flush (c : Codec σ β) (hs : Flushes s.1) {x : PollInput}
    (hks : TakesFirst 128 x.kernel) (hgate : s.2.packetTimeToWrite ≤ x.now) :
    (∀ t, pollStep c s x = some t → Flushes t.1 ∧
      owedAndLen t = flushPair c.blockSize c.macLen (owedAndLen s) ∧
      Spends c (pairPackets (owedAndLen s)) s.2 t.2) ∧
    (c.Room (pairPackets (owedAndLen s)) s.2.snd → ∃ t, pollStep c s x = some t) := by
  have hs0 : Flushes { s.1 with paddedJunk := 0 } := ⟨hs.flushing, hs.w2w⟩
  have hwrites : pollWrites c x.kernel { s.1 with paddedJunk := 0 } s.2 =
      singleWrite c x.kernel { s.1 with paddedJunk := 0 } s.2 := hs0.pollWrites_eq c _ _
  obtain ⟨hroom, hfatal⟩ | ⟨junk, p', hreturned, hlen, hspends⟩ := singleWrite_flush c hs0 hks s.2
  · refine ⟨fun t ht => ?_, fun h => absurd h hroom⟩
    obtain ⟨r, hr, -⟩ := (pollStep_past hgate).mp ht
    rw [hwrites, hfatal] at hr
    cases hr
  -- the budget was zero already, so clearing it changes nothing
  have hclear : (finishPoll x (flushed { s.1 with paddedJunk := 0 } junk) p').1 =
      flushed { s.1 with paddedJunk := 0 } junk := by
    unfold finishPoll
    dsimp only
    split
    · rename_i hmode
      simp [Globals.setW2w, flushed, hs.w2w hmode]
    · rfl
  refine ⟨fun t ht => ?_, fun _ => ⟨_, (pollStep_past hgate).mpr ⟨_, hwrites.trans hreturned, rfl⟩⟩⟩
  obtain ⟨r, hr, rfl⟩ := (pollStep_past hgate).mp ht
  obtain rfl := Outcome.returned.inj (hr.symm.trans (hwrites.trans hreturned))
  refine ⟨?_, ?_, hspends⟩
  · rw [hclear]
    exact ⟨hs.flushing, hs.w2w⟩
  · unfold owedAndLen
    rw [hclear]
    exact Prod.ext rfl hlen

/-! ## Polls as an iteration -/

section Simulation

variable {c : Codec σ β} {inp : ℕ → PollInput} {M : Type}
  {I : Globals × PacketState σ β → Prop} {f : Globals × PacketState σ β → M} {F : M → M}
  {cost : M → ℕ} {s t : Globals × PacketState σ β}

/-- The packets of the first `k` rounds of `F`. -/
def packetsOf (F : M → M) (cost : M → ℕ) : ℕ → M → ℕ
  | 0, _ => 0
  | k + 1, x => cost x + packetsOf F cost k (F x)

/-- Some iterate of `F` has length zero, and at most `N` packets are sent on the way. -/
def Within (F : M → M) (cost l : M → ℕ) (N : ℕ) (x : M) : Prop :=
  ∃ k, l (F^[k] x) = 0 ∧ packetsOf F cost k x ≤ N

theorem Within.of_zero {l : M → ℕ} {x : M} (h : l x = 0) (N : ℕ) : Within F cost l N x :=
  ⟨0, h, Nat.zero_le N⟩

theorem Within.of_step {l : M → ℕ} {N N' : ℕ} {x : M} (h : Within F cost l N (F x))
    (hle : cost x + N ≤ N') : Within F cost l N' x := by
  obtain ⟨k, hk, hpackets⟩ := h
  refine ⟨k + 1, hk, ?_⟩
  unfold packetsOf
  omega

/-- Polls past their time apply `F`. -/
def Applies (c : Codec σ β) (inp : ℕ → PollInput) (I : Globals × PacketState σ β → Prop)
    (f : Globals × PacketState σ β → M) (F : M → M) (cost : M → ℕ)
    (s : Globals × PacketState σ β) : Prop :=
  ∀ n u t, afterPolls c inp s n = some u → I u → u.2.packetTimeToWrite ≤ (inp n).now →
    pollStep c u (inp n) = some t → I t ∧ f t = F (f u) ∧ Spends c (cost (f u)) u.2 t.2

/-- Polls past their time return if their packets can be sent. -/
def Returns (c : Codec σ β) (inp : ℕ → PollInput) (I : Globals × PacketState σ β → Prop)
    (f : Globals × PacketState σ β → M) (cost : M → ℕ) (s : Globals × PacketState σ β) : Prop :=
  ∀ n u, afterPolls c inp s n = some u → I u → u.2.packetTimeToWrite ≤ (inp n).now →
    c.Room (cost (f u)) u.2.snd → ∃ t, pollStep c u (inp n) = some t

/-- After every poll there is a later one past its time. -/
def Progress (c : Codec σ β) (inp : ℕ → PollInput) (s : Globals × PacketState σ β) : Prop :=
  ∀ n t, afterPolls c inp s n = some t →
    ∃ n' ≥ n, afterPolls c inp s n' = some t ∧ t.2.packetTimeToWrite ≤ (inp n').now

/-- If every poll past its time applies `F`, the state after any number of polls is one of
the iterates. -/
theorem iterate_of_afterPolls (hstep : Applies c inp I f F cost s) {n : ℕ}
    (h : afterPolls c inp s n = some t) (hs : I s) : I t ∧ ∃ k, f t = F^[k] (f s) := by
  induction n generalizing t with
  | zero =>
    obtain rfl := Option.some.inj h
    exact ⟨hs, 0, rfl⟩
  | succ n ih =>
    rw [afterPolls_succ] at h
    obtain ⟨u, hu, hlast⟩ := Option.bind_eq_some_iff.mp h
    obtain ⟨hI, k, hk⟩ := ih hu
    rcases Nat.lt_or_ge (inp n).now u.2.packetTimeToWrite with hearly | hgate
    · rw [pollStep_early hearly] at hlast
      obtain rfl := Option.some.inj hlast
      exact ⟨hI, k, hk⟩
    · obtain ⟨hIt, ht, -⟩ := hstep n u t hu hI hgate hlast
      exact ⟨hIt, k + 1, by rw [ht, hk, Function.iterate_succ_apply']⟩

/-- If moreover the polls return, every iterate whose packets can be sent is reached. -/
theorem afterPolls_iterate (hstep : Applies c inp I f F cost s)
    (hreturn : Returns c inp I f cost s) (hprog : Progress c inp s) (k : ℕ) {n : ℕ}
    (h : afterPolls c inp s n = some t) (hI : I t)
    (hroom : c.Room (packetsOf F cost k (f t)) t.2.snd) :
    ∃ n' ≥ n, ∃ u, afterPolls c inp s n' = some u ∧ I u ∧ f u = F^[k] (f t) := by
  induction k generalizing n t with
  | zero => exact ⟨n, le_refl n, t, h, hI, rfl⟩
  | succ k ih =>
    obtain ⟨n1, hn1, ht, hgate⟩ := hprog n t h
    unfold packetsOf at hroom
    obtain ⟨u, hu⟩ := hreturn n1 t ht hI hgate (hroom.mono (Nat.le_add_right _ _))
    obtain ⟨hIu, hfu, hspends⟩ := hstep n1 t u ht hI hgate hu
    have hafter : afterPolls c inp s (n1 + 1) = some u := by
      rw [afterPolls_succ, ht, Option.bind_some, hu]
    obtain ⟨n2, hn2, v, hv, hIv, hfv⟩ := ih hafter hIu (by rw [hfu]; exact hspends _ hroom)
    refine ⟨n2, by omega, v, hv, hIv, ?_⟩
    rw [hfv, hfu, Function.iterate_succ_apply]

end Simulation

/-- Every poll is made past its time gate, and the kernel takes every write in full. -/
def FullPolls (c : Codec σ β) (inp : ℕ → PollInput) (s : Globals × PacketState σ β) (m : ℕ) :
    Prop :=
  ∀ n t, afterPolls c inp s n = some t →
    t.2.packetTimeToWrite ≤ (inp n).now ∧ TakesFirst m (inp n).kernel

theorem FullPolls.progress {inp : ℕ → PollInput} (h : FullPolls c inp s m) : Progress c inp s :=
  fun n t ht => ⟨n, le_refl n, ht, (h n t ht).1⟩

/-- **Repeated flushing polls** follow `flushPair`. -/
theorem FullPolls.applies {inp : ℕ → PollInput} (h : FullPolls c inp s 128) :
    Applies c inp (fun s => Flushes s.1) owedAndLen
      (flushPair c.blockSize c.macLen) pairPackets s :=
  fun n u t hu hI hgate ht => (pollStep_flush c hI (h n u hu).2 hgate).1 t ht

theorem FullPolls.returns {inp : ℕ → PollInput} (h : FullPolls c inp s 128) :
    Returns c inp (fun s => Flushes s.1) owedAndLen pairPackets s :=
  fun n u hu hI hgate hroom => (pollStep_flush c hI (h n u hu).2 hgate).2 hroom

/-- `packet_write_wait` returns after the first poll that leaves the buffer empty. -/
theorem packetWriteWait_isSome_iff (c : Codec σ β) (inps : List PollInput) (g : Globals)
    (p : PacketState σ β) :
    (∃ t, packetWriteWait c inps g p = some t) ↔
      ∃ n t, n < inps.length ∧ Transition.run (pollStep c) (g, p) (inps.take (n + 1)) = some t ∧
        t.2.output = [] := by
  induction inps generalizing g p with
  | nil => simp [packetWriteWait]
  | cons inp rest ih =>
    cases hpoll : packetWritePoll c inp g p with
    | looping r =>
      simp [packetWriteWait, hpoll, Transition.run, pollStep]
    | fatal =>
      simp [packetWriteWait, hpoll, Transition.run, pollStep]
    | returned r =>
      have hstep : pollStep c (g, p) inp = some r := by simp only [pollStep, hpoll]
      by_cases hempty : r.2.output = []
      · simp only [packetWriteWait, hpoll, hempty, if_true]
        refine ⟨fun _ => ⟨0, r, by simp, by simp [Transition.run, hstep], hempty⟩, fun _ => ?_⟩
        exact ⟨_, rfl⟩
      · simp only [packetWriteWait, hpoll, hempty, if_false, ih]
        constructor
        · rintro ⟨n, t, hn, hrun, ht⟩
          exact ⟨n + 1, t, by simpa using hn, by simp [Transition.run, hstep, hrun], ht⟩
        · rintro ⟨n, t, hn, hrun, ht⟩
          rw [List.take_succ_cons, Transition.run, hstep, Option.bind_some] at hrun
          cases n with
          | zero =>
            rw [List.take_zero] at hrun
            exact absurd (Option.some.inj hrun ▸ ht) hempty
          | succ n => exact ⟨n, t, by simpa using hn, hrun, ht⟩

/-- `packet_write_wait` over a sequence of polls. -/
theorem exists_packetWriteWait_iff (c : Codec σ β) (inp : ℕ → PollInput) (g : Globals)
    (p : PacketState σ β) :
    (∃ n t, packetWriteWait c ((List.range n).map inp) g p = some t) ↔
      ∃ n t, afterPolls c inp (g, p) (n + 1) = some t ∧ t.2.output = [] := by
  constructor
  · rintro ⟨n, h⟩
    obtain ⟨i, t, hi, hrun, ht⟩ := (packetWriteWait_isSome_iff c _ g p).mp h
    rw [List.length_map, List.length_range] at hi
    refine ⟨i, t, ?_, ht⟩
    rwa [← List.map_take, List.take_range, Nat.min_eq_left (by omega)] at hrun
  · rintro ⟨n, t, hrun, ht⟩
    refine ⟨n + 1, (packetWriteWait_isSome_iff c _ g p).mpr ⟨n, t, by simp, ?_, ht⟩⟩
    rwa [← List.map_take, List.take_range, Nat.min_self]

/-! ## The residual map -/

/-- The length of the buffer after one flushing poll when no padding is owed. -/
def drainStep (blockSize macLen len : ℕ) : ℕ := flushStep blockSize macLen 0 len

theorem drainStep_of_le (b m : ℕ) (h : len ≤ 32) : drainStep b m len = 0 := by
  simp [drainStep, flushStep, flushAim, paddedLength, h]

theorem drainStep_of_ge (b m : ℕ) (h : 128 ≤ len) : drainStep b m len = len - 128 := by
  simp [drainStep, flushStep, flushAim, paddedLength, h, show ¬ len ≤ 32 by omega]

/-- A remainder of 33 to 111 bytes leaves the padding and the MAC of the padding packet. -/
theorem drainStep_of_mid (b m : ℕ) (h : 32 < len) (h' : len < 112) :
    drainStep b m len = padLength b 0 (128 - len) + m := by
  have hlen := ignoreLength_of_gt b m (show 16 < 128 - len by omega)
  simp only [drainStep, flushStep, flushAim, paddedLength, if_neg (show ¬ 128 ≤ len by omega), hlen,
    show ¬ ((0 : ℤ) ≤ 0 ∧ len ≤ 32) by omega, if_false]
  omega

/-- A remainder of 112 to 127 bytes is topped up with an empty padding packet. -/
theorem drainStep_of_high (hb : b = 8 ∨ b = 16) (m : ℕ) (h : 112 ≤ len) (h' : len < 128) :
    drainStep b m len = len - 112 + m := by
  have hlen := ignoreLength_of_le hb m (show 128 - len ≤ 16 by omega)
  simp only [drainStep, flushStep, flushAim, paddedLength, if_neg (show ¬ 128 ≤ len by omega), hlen,
    show ¬ ((0 : ℤ) ≤ 0 ∧ len ≤ 32) by omega, if_false]
  omega

/-- The lengths from which the buffer empties.  Whole writes of 128 bytes do not matter, a
remainder of at most 32 bytes is sent as it is, and MACs of 8, 12 or 20 bytes always lead
there.  With a 16-byte MAC and 16-byte blocks the remainders 1, 2, 3 modulo 16 are kept
for ever; longer MACs alone exceed 32 bytes. -/
def Drains (blockSize macLen len : ℕ) : Prop :=
  len % 128 ≤ 32 ∨ macLen = 8 ∨ macLen = 12 ∨ macLen = 20 ∨
    (macLen = 16 ∧ ¬ (blockSize = 16 ∧ len % 128 < 112 ∧ 1 ≤ len % 16 ∧ len % 16 ≤ 3)) ∨
    (macLen = 32 ∧ len % 128 = 112)

instance (b m len : ℕ) : Decidable (Drains b m len) := by
  unfold Drains
  infer_instance

/-- A length that does not drain is followed by another one. -/
theorem not_drains_drainStep (hb : b = 8 ∨ b = 16) (hm : m ∈ [8, 12, 16, 20, 32, 64])
    (h : ¬ Drains b m len) : ¬ Drains b m (drainStep b m len) := by
  have hlow : 32 < len := by
    by_contra hle
    exact h (Or.inl (by omega))
  simp only [List.mem_cons, List.not_mem_nil, or_false] at hm
  unfold Drains at h ⊢
  rcases Nat.lt_or_ge len 128 with hlt | hge
  · rcases Nat.lt_or_ge len 112 with hmid | hhigh
    · have hpad := padLength_bounds hb (128 - len)
      obtain ⟨k, hk⟩ := padLength_dvd hb (128 - len)
      rw [drainStep_of_mid b m hlow hmid]
      generalize padLength b 0 (128 - len) = pad at hpad hk ⊢
      rcases hb with rfl | rfl <;> omega
    · rw [drainStep_of_high hb m hhigh hlt]
      omega
  · rw [drainStep_of_ge b m hge]
    omega

/-- **The map reaches zero only from lengths that drain.** -/
theorem drains_of_iterate (hb : b = 8 ∨ b = 16) (hm : m ∈ [8, 12, 16, 20, 32, 64]) {n : ℕ}
    (h : (drainStep b m)^[n] len = 0) : Drains b m len := by
  by_contra hnot
  have hall : ¬ Drains b m ((drainStep b m)^[n] len) := by
    clear h
    induction n with
    | zero => exact hnot
    | succ n ih =>
      rw [Function.iterate_succ_apply']
      exact not_drains_drainStep hb hm ih
  rw [h] at hall
  exact hall (Or.inl (by decide))

/-- The map reaches zero, and at most `N` padding packets are sent on the way. -/
def DrainsWithin (blockSize macLen N len : ℕ) : Prop :=
  Within (drainStep blockSize macLen) (flushPackets 0) id N len

/-- No padding is needed for the last remainder, nor for a whole write. -/
theorem flushPackets_zero (h : len ≤ 32 ∨ 128 ≤ len) : flushPackets 0 len = 0 := by
  unfold flushPackets padPackets flushAim
  split_ifs <;> omega

theorem drainsWithin_of_le (b m N : ℕ) (h : len ≤ 32) : DrainsWithin b m N len := by
  have hzero : id (drainStep b m len) = 0 := drainStep_of_le b m h
  refine Within.of_step (.of_zero hzero 0) ?_
  rw [flushPackets_zero (.inl h)]
  omega

/-- One more round. -/
theorem DrainsWithin.of_round {N : ℕ} (h : DrainsWithin b m N (drainStep b m len)) :
    DrainsWithin b m (N + 1) len := by
  have hle : flushPackets 0 len ≤ 1 := padPackets_le _ _
  exact Within.of_step h (by omega)

/-- With a 20-byte MAC, 16-byte blocks can leave 33 to 39 bytes for up to two rounds. -/
theorem drainsWithin_mac20 (hb : b = 8 ∨ b = 16) (h : 32 < len) (h' : len ≤ 39) :
    DrainsWithin b 20 2 len := by
  have hround : ∀ x, 32 < x → x ≤ 39 →
      drainStep b 20 x ≤ 32 ∨ (x < 36 ∧ 36 ≤ drainStep b 20 x ∧ drainStep b 20 x ≤ 39) := by
    intro x hx hx'
    have hpad := padLength_bounds hb (128 - x)
    obtain ⟨k, hk⟩ := padLength_dvd hb (128 - x)
    rw [drainStep_of_mid b 20 hx (by omega)]
    generalize padLength b 0 (128 - x) = pad at hpad hk ⊢
    rcases hb with rfl | rfl <;> omega
  apply DrainsWithin.of_round
  obtain hle | ⟨-, hlo, hhi⟩ := hround len h h'
  · exact drainsWithin_of_le b 20 1 hle
  · apply DrainsWithin.of_round
    obtain hle | ⟨hlt, -⟩ := hround _ (by omega) hhi
    · exact drainsWithin_of_le b 20 0 hle
    · omega

/-- A remainder that drains is at most 32 bytes after one round, or the MAC has 20. -/
theorem drainStep_le_of_drains (hb : b = 8 ∨ b = 16) (h : 32 < len) (h' : len < 128)
    (hd : Drains b m len) : drainStep b m len ≤ 32 ∨ (m = 20 ∧ drainStep b m len ≤ 39) := by
  unfold Drains at hd
  rcases Nat.lt_or_ge len 112 with hmid | hhigh
  · have hpad := padLength_bounds hb (128 - len)
    obtain ⟨k, hk⟩ := padLength_dvd hb (128 - len)
    rw [drainStep_of_mid b m h hmid]
    generalize padLength b 0 (128 - len) = pad at hpad hk ⊢
    rcases hb with rfl | rfl <;> omega
  · rw [drainStep_of_high hb m hhigh h']
    omega

/-- **A length that drains** does so with at most three padding packets. -/
theorem drainsWithin_of_drains (hb : b = 8 ∨ b = 16) (hd : Drains b m len) :
    DrainsWithin b m 3 len := by
  induction len using Nat.strong_induction_on with
  | _ len ih =>
    rcases Nat.lt_or_ge len 128 with hlt | hge
    · rcases Nat.lt_or_ge 32 len with hgt | hle
      · apply DrainsWithin.of_round
        obtain hle | ⟨rfl, hle⟩ := drainStep_le_of_drains hb hgt hlt hd
        · exact drainsWithin_of_le b m 2 hle
        · rcases Nat.lt_or_ge 32 (drainStep b 20 len) with hgt' | hle'
          · exact drainsWithin_mac20 hb hgt' hle
          · exact drainsWithin_of_le b 20 2 hle'
      · exact drainsWithin_of_le b m 3 hle
    · have hrest : DrainsWithin b m 3 (len - 128) := by
        refine ih (len - 128) (by omega) ?_
        unfold Drains at hd ⊢
        omega
      rw [← drainStep_of_ge b m hge] at hrest
      refine Within.of_step hrest ?_
      rw [flushPackets_zero (.inr hge)]

/-- Without padding owed polls follow the residual map. -/
theorem flushPair_of_paid (b m : ℕ) {owed : ℤ} (h : owed ≤ 0) (len : ℕ) :
    flushPair b m (owed, len) = (owed, drainStep b m len) := by
  have haim : flushAim owed len = flushAim 0 len := by
    unfold flushAim
    simp only [h, le_refl]
  unfold flushPair drainStep flushStep owedStep
  dsimp only
  rw [if_neg (by omega), haim]

theorem iterate_flushPair_of_paid (b m : ℕ) {owed : ℤ} (h : owed ≤ 0) (len k : ℕ) :
    (flushPair b m)^[k] (owed, len) = (owed, (drainStep b m)^[k] len) := by
  induction k with
  | zero => rfl
  | succ k ih =>
    rw [Function.iterate_succ_apply', ih, flushPair_of_paid b m h, Function.iterate_succ_apply']

/-- Without padding owed the packets are those of the residual map. -/
theorem within_of_drainsWithin {N : ℕ} {owed : ℤ} (h : owed ≤ 0) (hd : DrainsWithin b m N len) :
    Within (flushPair b m) pairPackets Prod.snd N (owed, len) := by
  obtain ⟨k, hk, hpackets⟩ := hd
  refine ⟨k, by rw [iterate_flushPair_of_paid b m h]; exact hk, ?_⟩
  have hsame : ∀ len, pairPackets (owed, len) = flushPackets 0 len := by
    intro len
    unfold pairPackets flushPackets flushAim
    simp only [h, le_refl]
  have hsum : packetsOf (flushPair b m) pairPackets k (owed, len) =
      packetsOf (drainStep b m) (flushPackets 0) k len := by
    clear hk hpackets
    induction k generalizing len with
    | zero => rfl
    | succ k ih =>
      unfold packetsOf
      rw [hsame, flushPair_of_paid b m h, ih]
  rw [hsum]
  exact hpackets

/-! ## Normal mode -/

theorem flushes_of_normal (h : g.stmode = .normal) : Flushes g :=
  ⟨by simp [flushing, h], by simp [h]⟩

/-- An empty buffer stays empty when no padding is owed. -/
theorem pollStep_empty (c : Codec σ β) (hs : Flushes s.1) (howed : s.1.transPaddedRemaining ≤ 0)
    (hempty : s.2.outputLen = 0) {x : PollInput} (hks : TakesFirst 128 x.kernel)
    (hgate : s.2.packetTimeToWrite ≤ x.now) :
    ∃ t, pollStep c s x = some t ∧ Flushes t.1 ∧ t.1.transPaddedRemaining ≤ 0 ∧
      t.2.outputLen = 0 := by
  obtain ⟨hstep, hreturn⟩ := pollStep_flush c hs hks hgate
  have hnone : pairPackets (owedAndLen s) = 0 := by
    have haim : flushAim s.1.transPaddedRemaining 0 = 0 := if_pos ⟨howed, Nat.zero_le 32⟩
    unfold pairPackets owedAndLen flushPackets
    dsimp only
    rw [hempty, haim, padPackets, if_pos (le_refl 0)]
  rw [hnone] at hreturn
  obtain ⟨t, ht⟩ := hreturn trivial
  obtain ⟨hflush, hpair, -⟩ := hstep t ht
  unfold owedAndLen at hpair
  rw [flushPair_of_paid _ _ howed, hempty, drainStep_of_le _ _ (Nat.zero_le 32)] at hpair
  obtain ⟨howed', hlen'⟩ := Prod.mk.inj hpair
  exact ⟨t, ht, hflush, by omega, hlen'⟩

/-- **When normal mode drains.**  In normal mode with no padding owed, with a block size of
8 or 16 and a MAC of the table, and with polls past their time gate whose writes are taken
in full: the buffer empties, and `packet_write_wait` returns, only for the lengths of
`Drains`; and for those they do, and the buffer stays empty, if three more packets can be sent
under the current keys. -/
theorem normal_mode_drains_iff {c : Codec σ β} {e : MacEntry} (he : e ∈ macs)
    (hmac : c.macLen = (macSetupById e).macLen) {g : Globals} {p : PacketState σ β}
    (hmode : g.stmode = .normal) (howed : g.transPaddedRemaining = 0) {inp : ℕ → PollInput}
    (hinp : FullPolls c inp (g, p) 128) :
    ((∃ n t, afterPolls c inp (g, p) n = some t ∧ t.2.output = []) →
      Drains c.blockSize c.macLen p.outputLen) ∧
    ((∃ n t, packetWriteWait c ((List.range n).map inp) g p = some t) →
      Drains c.blockSize c.macLen p.outputLen) ∧
    (c.Room 3 p.snd → Drains c.blockSize c.macLen p.outputLen →
      (∃ n t, packetWriteWait c ((List.range n).map inp) g p = some t) ∧
      ∃ N, ∀ n ≥ N, ∃ t, afterPolls c inp (g, p) n = some t ∧ t.2.output = []) := by
  have hm : c.macLen ∈ [8, 12, 16, 20, 32, 64] := hmac ▸ macLen_cases he
  have hflush : Flushes g := flushes_of_normal hmode
  have honly : (∃ n t, afterPolls c inp (g, p) n = some t ∧ t.2.output = []) →
      Drains c.blockSize c.macLen p.outputLen := by
    rintro ⟨n, t, ht, hempty⟩
    obtain ⟨-, k, hk⟩ := iterate_of_afterPolls hinp.applies ht hflush
    unfold owedAndLen at hk
    rw [iterate_flushPair_of_paid _ _ howed.le, PacketState.outputLen, hempty] at hk
    exact drains_of_iterate c.blockSize_eq hm (Prod.mk.inj hk).2.symm
  refine ⟨honly, ?_, ?_⟩
  · rw [exists_packetWriteWait_iff]
    rintro ⟨n, t, ht, hempty⟩
    exact honly ⟨n + 1, t, ht, hempty⟩
  · intro hroom hd
    obtain ⟨k, hk, hpackets⟩ : Within (flushPair c.blockSize c.macLen) pairPackets Prod.snd 3
        (owedAndLen (g, p)) :=
      within_of_drainsWithin howed.le (drainsWithin_of_drains c.blockSize_eq hd)
    obtain ⟨N, -, u, hu, hflushu, hfu⟩ := afterPolls_iterate (n := 0) hinp.applies hinp.returns
      hinp.progress k rfl hflush (hroom.mono hpackets)
    unfold owedAndLen at hfu hk
    rw [iterate_flushPair_of_paid _ _ howed.le] at hfu hk
    obtain ⟨howedu, hlenu⟩ := Prod.mk.inj hfu
    -- from then on every poll finds an empty buffer
    have hstay : ∀ d, ∃ t, afterPolls c inp (g, p) (N + d) = some t ∧ Flushes t.1 ∧
        t.1.transPaddedRemaining ≤ 0 ∧ t.2.outputLen = 0 := by
      intro d
      induction d with
      | zero => exact ⟨u, hu, hflushu, by omega, hlenu.trans hk⟩
      | succ d ih =>
        obtain ⟨t, ht, hflusht, howedt, hlent⟩ := ih
        obtain ⟨hgate, htakes⟩ := hinp _ t ht
        obtain ⟨t', ht', h'⟩ := pollStep_empty c hflusht howedt hlent htakes hgate
        exact ⟨t', by rw [← Nat.add_assoc, afterPolls_succ, ht, Option.bind_some, ht'], h'⟩
    refine ⟨?_, N, fun n hn => ?_⟩
    · rw [exists_packetWriteWait_iff]
      obtain ⟨t, ht, -, -, hlent⟩ := hstay 1
      exact ⟨N, t, ht, List.length_eq_zero_iff.mp hlent⟩
    · obtain ⟨d, rfl⟩ := Nat.exists_eq_add_of_le hn
      obtain ⟨t, ht, -, -, hlent⟩ := hstay d
      exact ⟨t, ht, List.length_eq_zero_iff.mp hlent⟩

/-! ## Sample runs -/

/-- Polls at time 0 that draw 0 and whose one write is taken in full. -/
def stillPolls (_ : ℕ) : PollInput := ⟨0, 0, [⟨0, .accepted 20000⟩]⟩

/-- Outside transcript mode a poll at time 0 that draws 0 leaves the time gate at 0. -/
theorem fullPolls_stillPolls (c : Codec σ β) (hmode : s.1.stmode ≠ .supertrace)
    (htime : s.2.packetTimeToWrite = 0) (hm : m ≤ 20000) : FullPolls c stillPolls s m := by
  have hinv : ∀ n t, afterPolls c stillPolls s n = some t →
      t.1.stmode ≠ .supertrace ∧ t.2.packetTimeToWrite = 0 := by
    intro n
    induction n with
    | zero => exact fun t ht => Option.some.inj ht ▸ ⟨hmode, htime⟩
    | succ n ih =>
      intro t ht
      rw [afterPolls_succ] at ht
      obtain ⟨u, hu, hstep⟩ := Option.bind_eq_some_iff.mp ht
      obtain ⟨humode, hutime⟩ := ih u hu
      unfold pollStep at hstep
      split at hstep
      · rename_i r hpoll
        obtain ⟨g', p', hwrites, hr⟩ := packetWritePoll_eq_returned hpoll (by omega)
        have hframe :=
          writeFrame_pollWrites c (stillPolls n).kernel { u.1 with paddedJunk := 0 } u.2
        rw [hwrites] at hframe
        have hg' : g'.stmode ≠ .supertrace := by rw [hframe.stmode]; exact humode
        obtain rfl := Option.some.inj hstep
        rw [hr]
        refine ⟨by rw [(writeFrame_finishPoll _ _ _).stmode]; exact hg', ?_⟩
        simp [finishPoll, PacketState.setUpdatedTime, updateTime, hg', stillPolls, addTime]
      · cases hstep
  exact fun n t ht => ⟨by rw [(hinv n t ht).2]; exact Nat.zero_le _, ⟨_, _, _, rfl, rfl, hm⟩⟩

/-- 100 bytes under a 16-byte cipher and `hmac-sha1` drain. -/
theorem normal_mode_drains_sha1 :
    ∃ n t, afterPolls (packetCodec (identityKeys 16 20 (Or.inr rfl))) stillPolls
      ({}, bufferedState 100) n = some t ∧ t.2.output = [] := by
  obtain ⟨-, -, hdrains⟩ := normal_mode_drains_iff
    (c := packetCodec (identityKeys 16 20 (Or.inr rfl))) (e := ⟨"hmac-sha1", .evp 20, 0⟩)
    (by decide) rfl rfl rfl
    (fullPolls_stillPolls _ (s := (({} : Globals), bufferedState 100)) (by decide) rfl (by decide))
  obtain ⟨-, N, hN⟩ := hdrains (room_packetCodec _ (by decide)) (by decide)
  exact ⟨N, hN N (le_refl N)⟩

/-- **A buffer that never drains.**  With `hmac-sha2-256` and a 16-byte cipher, the smallest
packet takes 48 bytes.  Every poll pads it to 128 bytes, and 48 bytes stay behind: the polls
return, as long as the packet counter does not wrap, and never leave the buffer empty. -/
theorem normal_mode_never_drains :
    (⟨"hmac-sha2-256", .evp 32, 0⟩ : MacEntry) ∈ macs ∧
    (∀ n < 2 ^ 32, ∃ t, afterPolls (packetCodec (identityKeys 16 32 (Or.inr rfl))) stillPolls
      ({}, bufferedState 48) n = some t ∧ t.2.output ≠ []) ∧
    ∀ n, packetWriteWait (packetCodec (identityKeys 16 32 (Or.inr rfl)))
      ((List.range n).map stillPolls) {} (bufferedState 48) = none := by
  have hinp : FullPolls (packetCodec (identityKeys 16 32 (Or.inr rfl))) stillPolls
      (({} : Globals), bufferedState 48) 128 :=
    fullPolls_stillPolls _ (by decide) rfl (by decide)
  have hflush : Flushes ({} : Globals) := flushes_of_normal rfl
  have hnever : ∀ n t, afterPolls (packetCodec (identityKeys 16 32 (Or.inr rfl))) stillPolls
      ({}, bufferedState 48) n = some t → t.2.output ≠ [] := by
    intro n t ht hempty
    obtain ⟨-, k, hk⟩ := iterate_of_afterPolls hinp.applies ht hflush
    unfold owedAndLen at hk
    rw [iterate_flushPair_of_paid _ _ (show (0 : ℤ) ≤ 0 from le_refl 0), PacketState.outputLen,
      hempty] at hk
    have hdrains := drains_of_iterate (Or.inr rfl) (by decide) (Prod.mk.inj hk).2.symm
    exact absurd hdrains (by decide)
  -- a poll sends at most one packet
  have hreturns : ∀ n < 2 ^ 32, ∃ t, afterPolls (packetCodec (identityKeys 16 32 (Or.inr rfl)))
      stillPolls ({}, bufferedState 48) n = some t ∧ Flushes t.1 ∧
        (packetCodec (identityKeys 16 32 (Or.inr rfl))).Room (2 ^ 32 - 1 - n) t.2.snd := by
    intro n hn
    induction n with
    | zero => exact ⟨_, rfl, hflush, room_packetCodec _ (by decide)⟩
    | succ n ih =>
      obtain ⟨t, ht, hflusht, hroom⟩ := ih (by omega)
      obtain ⟨hgate, htakes⟩ := hinp n t ht
      obtain ⟨hstep, hreturn⟩ := pollStep_flush _ hflusht htakes hgate
      have hone : pairPackets (owedAndLen t) ≤ 1 := padPackets_le _ _
      obtain ⟨u, hu⟩ := hreturn (hroom.mono (by omega))
      obtain ⟨hflushu, -, hspends⟩ := hstep u hu
      refine ⟨u, by rw [afterPolls_succ, ht, Option.bind_some, hu], hflushu, ?_⟩
      exact hspends _ (hroom.mono (by omega))
  refine ⟨by decide, fun n hn => ?_, fun n => ?_⟩
  · obtain ⟨t, ht, -⟩ := hreturns n hn
    exact ⟨t, ht, hnever n t ht⟩
  · by_contra hne
    obtain ⟨t, ht⟩ := Option.ne_none_iff_exists'.mp hne
    obtain ⟨k, t', ht', hempty⟩ := (exists_packetWriteWait_iff _ _ _ _).mp ⟨n, t, ht⟩
    exact hnever _ _ ht' hempty

end CSBuFLO
