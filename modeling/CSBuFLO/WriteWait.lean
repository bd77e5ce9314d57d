/-
# When `packet_write_wait` returns in the shaped modes

`packet_write_wait` polls until the output buffer is empty.  The polls it inherits from SSH
would make progress every time; the shaped ones write what the budget and the mode grant:

* csbuflo mode writes the same budget at every poll;
* transcript mode writes its budget once and then nothing, until the own `TEND` is queued;
* after the own `TEND` it pays the padding it owes and then flushes as normal mode does.

Polls before their time change nothing, so a whole `packet_write_wait` is the iteration of one
function on lengths (`wait_iff`).  `WaitFinishes` says for each mode from which states that
iteration reaches the empty buffer.
-/
import CSBuFLO.Drain
import CSBuFLO.Reach

open Filter

namespace CSBuFLO

variable {σ β : Type}

/-! ## Polls and early polls -/

/-- A poll at time `now i` on a socket with an empty send queue that takes all it is given,
for `j` writes. -/
def fullPoll (now rand : ℕ → ℕ) (j i : ℕ) : PollInput :=
  ⟨now i, rand i, List.replicate j ⟨0, .accepted 32768⟩⟩

variable {c : Codec σ β} {s t : Globals × PacketState σ β} {n len : ℕ} {g : Globals}
  {now rand : ℕ → ℕ} {p : PacketState σ β}

/-- A clock that goes on gets past every time. -/
theorem progress_of_clock {inp : ℕ → PollInput}
    (hclock : Tendsto (fun n => (inp n).now) atTop atTop) : Progress c inp s := by
  intro n t h
  obtain ⟨N, hN⟩ := eventually_atTop.mp (tendsto_atTop.mp hclock t.2.packetTimeToWrite)
  have hex : ∃ d, t.2.packetTimeToWrite ≤ (inp (n + d)).now := ⟨N, hN (n + N) (by omega)⟩
  -- up to the first poll past its time nothing changes
  have hstay : ∀ d ≤ Nat.find hex, afterPolls c inp s (n + d) = some t := by
    intro d hd
    induction d with
    | zero => exact h
    | succ d ih =>
      have hearly := Nat.find_min hex (show d < Nat.find hex by omega)
      rw [← Nat.add_assoc, afterPolls_succ, ih (by omega), Option.bind_some,
        pollStep_early (by omega)]
  exact ⟨n + Nat.find hex, by omega, hstay _ (le_refl _), Nat.find_spec hex⟩

section Wait

variable {c : Codec σ β} {now rand : ℕ → ℕ} {M : Type} {I : Globals × PacketState σ β → Prop}
  {f : Globals × PacketState σ β → M} {F : M → M} {cost l : M → ℕ} {g : Globals}
  {p : PacketState σ β}

/-- If polls past their time apply `F` whenever they return, `packet_write_wait` can only
return when an iterate of `F` has an empty buffer. -/
theorem iterate_of_wait (hlen : ∀ s, l (f s) = s.2.outputLen)
    (hsound : ∀ j, Applies c (fullPoll now rand j) I f F cost (g, p)) (hs : I (g, p)) {j : ℕ}
    (h : packetWriteWait c ((List.range n).map (fullPoll now rand j)) g p = some t) :
    ∃ k, l (F^[k] (f (g, p))) = 0 := by
  obtain ⟨i, u, hu, hempty⟩ := (exists_packetWriteWait_iff c (fullPoll now rand j) g p).mp ⟨n, t, h⟩
  obtain ⟨-, k, hk⟩ := iterate_of_afterPolls (hsound j) hu hs
  refine ⟨k, ?_⟩
  rw [← hk, hlen, PacketState.outputLen, hempty]
  rfl

/-- **`packet_write_wait` as an iteration.**  If moreover polls past their time return when
`J` answers are there, and an iterate of `F` has an empty buffer, `packet_write_wait` returns as
soon as the packets on the way there can be sent. -/
theorem wait_of_within {J N : ℕ} (hlen : ∀ s, l (f s) = s.2.outputLen)
    (hsound : Applies c (fullPoll now rand J) I f F cost (g, p))
    (hreturn : Returns c (fullPoll now rand J) I f cost (g, p))
    (hclock : Tendsto now atTop atTop) (hs : I (g, p)) (hne : p.output ≠ [])
    (hwithin : Within F cost l N (f (g, p))) (hroom : c.Room N p.snd) :
    ∃ n j t, packetWriteWait c ((List.range n).map (fullPoll now rand j)) g p = some t := by
  obtain ⟨k, hk, hpackets⟩ := hwithin
  obtain ⟨n, -, t, ht, -, hft⟩ := afterPolls_iterate (n := 0) hsound hreturn
    (progress_of_clock hclock) k rfl hs (hroom.mono hpackets)
  have hempty : t.2.output = [] := by
    rw [← hft, hlen] at hk
    exact List.length_eq_zero_iff.mp hk
  cases n with
  | zero =>
    obtain rfl := Option.some.inj ht
    exact absurd hempty hne
  | succ n =>
    obtain ⟨i, u, hu⟩ := (exists_packetWriteWait_iff c (fullPoll now rand J) g p).mpr
      ⟨n, t, ht, hempty⟩
    exact ⟨i, J, u, hu⟩

end Wait

/-! ## Csbuflo mode -/

/-- The bytes one csbuflo poll takes out of the buffer. -/
def csbufloAim (w : ℤ) : ℕ := (budgetAim w 0).toNat

theorem csbufloAim_le (w : ℤ) : csbufloAim w ≤ 16384 := by
  unfold csbufloAim budgetAim
  dsimp only
  split_ifs <;> omega

theorem csbufloAim_pos_iff (w : ℤ) : 0 < csbufloAim w ↔ 0 < toInt w := by
  unfold csbufloAim budgetAim
  dsimp only
  split_ifs <;> omega

/-- A csbuflo write covers at most the padded aim. -/
theorem fullWrite_le (hmac : c.macLen ≤ 64) (g : Globals) {aw : ℕ} (haw : aw ≤ 16384) (len : ℕ) :
    fullWrite c g aw len ≤ 32768 := by
  have hlen : paddedLength c.blockSize c.macLen aw len ≤ max len (aw + 99) := by
    unfold paddedLength
    split
    · omega
    · rcases Nat.lt_or_ge 16 (aw - len) with hgt | hle
      · have hpad := padLength_bounds c.blockSize_eq (aw - len)
        have hb := c.blockSize_eq
        rw [ignoreLength_of_gt _ _ hgt]
        omega
      · rw [ignoreLength_of_le c.blockSize_eq _ hle]
        omega
  unfold fullWrite handedLength
  split
  · omega
  · split <;> omega

/-- One csbuflo write taken in full: only the padding can fail. -/
theorem singleWrite_csbuflo (hmac : c.macLen ≤ 64) (hmode : g.stmode = .csbuflo)
    (rest : List Kernel) (p : PacketState σ β) :
    (¬ c.Room (padPackets (csbufloAim g.w2w) p.outputLen) p.snd ∧
      singleWrite c (⟨0, .accepted 32768⟩ :: rest) g p = .fatal) ∨
    ∃ g' p', singleWrite c (⟨0, .accepted 32768⟩ :: rest) g p = .returned (g', p') ∧
      g'.stmode = .csbuflo ∧ g'.w2w = g.w2w ∧
      p'.outputLen = p.outputLen - csbufloAim g.w2w ∧
      Spends c (padPackets (csbufloAim g.w2w) p.outputLen) p p' := by
  have hflush : flushing g = false := by simp [flushing, hmode]
  have hact : actualWrite g g.w2w 0 p.outputLen = budgetAim g.w2w 0 := by
    unfold actualWrite
    rw [hflush]
    rfl
  by_cases haim : budgetAim g.w2w 0 ≤ 0
  · have hone : packetWritePollOneWrite c g g.w2w ⟨0, .accepted 32768⟩ p = some (g.w2w, g, p) := by
      rw [packetWritePollOneWrite_eq, hact, if_pos haim]
    have hzero : csbufloAim g.w2w = 0 := Int.toNat_eq_zero.mpr haim
    refine Or.inr ⟨g, p, singleWrite_of_eq_some hone, hmode, rfl, ?_, ?_⟩
    · rw [hzero, Nat.sub_zero]
    · rw [hzero, padPackets, if_pos (Nat.zero_le _)]
      exact .refl c p
  have haw : actualWrite g g.w2w (0 : ℕ) p.outputLen = (csbufloAim g.w2w : ℕ) := by
    rw [hact]
    unfold csbufloAim
    omega
  have hpos : 0 < csbufloAim g.w2w := by
    unfold csbufloAim
    omega
  cases hp1 : padOutput c (csbufloAim g.w2w) p with
  | none =>
    refine Or.inl ⟨fun hroom => ?_, singleWrite_of_eq_none
      (packetWritePollOneWrite_fatal haw hpos hp1)⟩
    obtain ⟨p1, hsome⟩ := exists_padOutput hroom
    exact absurd (hp1.symm.trans hsome) (by simp)
  | some p1 =>
    right
    obtain ⟨g1, p', hone, hg1, hlen, hsnd⟩ := packetWritePollOneWrite_full
      (k := ⟨0, .accepted 32768⟩) haw hpos rfl (fullWrite_le hmac g (csbufloAim_le _) _) hp1
    refine ⟨_, p', singleWrite_of_eq_some hone, ?_, ?_, ?_, ?_⟩
    · rw [(writeFrame_afterWrite g1 _ _).stmode, hg1]
      exact hmode
    · have : flushing g1 = false := by rw [hg1]; exact hflush
      unfold afterWrite
      dsimp only
      rw [if_neg (by rw [this]; simp), hg1]
    · rw [hlen]
      unfold fullWrite handedLength
      -- the overshoot of the padding packet is sent along
      rw [if_neg (not_not.mpr hmode)]
      unfold paddedLength
      split <;> omega
    · intro n hroom
      rw [hsnd]
      exact spends_padOutput hp1 n hroom

/-- A csbuflo poll past its time. -/
theorem pollStep_csbuflo (hmac : c.macLen ≤ 64) (hmode : s.1.stmode = .csbuflo)
    (hgate : s.2.packetTimeToWrite ≤ now n) (j : ℕ) :
    (∀ t, pollStep c s (fullPoll now rand (j + 1) n) = some t →
      (t.1.stmode = .csbuflo ∧ t.1.w2w = s.1.w2w) ∧
      t.2.outputLen = s.2.outputLen - csbufloAim s.1.w2w ∧
      Spends c (padPackets (csbufloAim s.1.w2w) s.2.outputLen) s.2 t.2) ∧
    (c.Room (padPackets (csbufloAim s.1.w2w) s.2.outputLen) s.2.snd →
      ∃ t, pollStep c s (fullPoll now rand (j + 1) n) = some t) := by
  have hwrites :
      pollWrites c (fullPoll now rand (j + 1) n).kernel { s.1 with paddedJunk := 0 } s.2 =
      singleWrite c (⟨0, .accepted 32768⟩ :: List.replicate j ⟨0, .accepted 32768⟩)
        { s.1 with paddedJunk := 0 } s.2 := by
    unfold pollWrites
    rw [if_neg (by rw [hmode]; decide)]
    rfl
  have hgate' : s.2.packetTimeToWrite ≤ (fullPoll now rand (j + 1) n).now := hgate
  obtain ⟨hroom, hfatal⟩ | ⟨g', p', hone, hmode', hw', hlen, hspends⟩ := singleWrite_csbuflo hmac
    (g := { s.1 with paddedJunk := 0 }) hmode (List.replicate j ⟨0, .accepted 32768⟩) s.2
  · refine ⟨fun t ht => ?_, fun h => absurd h hroom⟩
    obtain ⟨r, hr, -⟩ := (pollStep_past hgate').mp ht
    rw [hwrites, hfatal] at hr
    cases hr
  · refine ⟨fun t ht => ?_, fun _ => ⟨_, (pollStep_past hgate').mpr ⟨_, hwrites.trans hone, rfl⟩⟩⟩
    obtain ⟨r, hr, rfl⟩ := (pollStep_past hgate').mp ht
    obtain rfl := Outcome.returned.inj (hr.symm.trans (hwrites.trans hone))
    refine ⟨?_, hlen, hspends⟩
    unfold finishPoll
    rw [if_neg (by rw [hmode']; decide)]
    exact ⟨hmode', hw'⟩

/-- Without an answer of the kernel a csbuflo poll past its time does not return. -/
theorem pollStep_csbuflo_zero (hmode : s.1.stmode = .csbuflo)
    (hgate : s.2.packetTimeToWrite ≤ now n) : pollStep c s (fullPoll now rand 0 n) = none := by
  by_contra hne
  obtain ⟨t, ht⟩ := Option.ne_none_iff_exists'.mp hne
  obtain ⟨r, hr, -⟩ := (pollStep_past hgate).mp ht
  unfold pollWrites at hr
  rw [if_neg (by rw [hmode]; decide)] at hr
  cases hr

theorem iterate_sub_eq (a len k : ℕ) : (fun x => x - a)^[k] len = len - k * a := by
  induction k with
  | zero => simp
  | succ k ih =>
    rw [Function.iterate_succ_apply', ih, Nat.add_mul]
    omega

/-- A positive budget empties the buffer, and only the last write is padded. -/
theorem within_sub {a : ℕ} (h : 0 < a) (len : ℕ) :
    Within (fun x => x - a) (padPackets a) id 1 len := by
  induction len using Nat.strong_induction_on with
  | _ len ih =>
    rcases Nat.lt_or_ge len a with hlt | hge
    · have hzero : id (len - a) = 0 := Nat.sub_eq_zero_of_le hlt.le
      exact Within.of_step (.of_zero hzero 0) (padPackets_le a len)
    · refine Within.of_step (ih (len - a) (by omega)) ?_
      rw [padPackets, if_pos hge]

/-- **Csbuflo mode**: `packet_write_wait` returns only if the budget is positive, and then it
does if one more packet can be sent. -/
theorem wait_csbuflo (hmac : c.macLen ≤ 64) (hclock : Tendsto now atTop atTop)
    (hmode : g.stmode = .csbuflo) (hne : p.output ≠ []) :
    ((∃ n j t, packetWriteWait c ((List.range n).map (fullPoll now rand j)) g p = some t) →
      0 < toInt g.w2w) ∧
    (c.Room 1 p.snd → 0 < toInt g.w2w →
      ∃ n j t, packetWriteWait c ((List.range n).map (fullPoll now rand j)) g p = some t) := by
  have hsound : ∀ j, Applies c (fullPoll now rand j)
      (fun s => s.1.stmode = .csbuflo ∧ s.1.w2w = g.w2w) (fun s => s.2.outputLen)
      (fun x => x - csbufloAim g.w2w) (padPackets (csbufloAim g.w2w)) (g, p) := by
    rintro j n s t - ⟨hm, hw⟩ hgate ht
    cases j with
    | zero =>
      rw [pollStep_csbuflo_zero hm hgate] at ht
      cases ht
    | succ j =>
      obtain ⟨⟨hm', hw'⟩, hlen, hspends⟩ := (pollStep_csbuflo hmac hm hgate j).1 t ht
      rw [hw] at hlen hspends
      exact ⟨⟨hm', hw'.trans hw⟩, hlen, hspends⟩
  constructor
  · rintro ⟨n, j, t, h⟩
    obtain ⟨k, hk⟩ := iterate_of_wait (l := id) (fun s => rfl) hsound ⟨hmode, rfl⟩ h
    rw [iterate_sub_eq] at hk
    by_contra hzero
    rw [← csbufloAim_pos_iff] at hzero
    have hlen : 0 < p.outputLen := List.length_pos_iff.mpr hne
    rw [show csbufloAim g.w2w = 0 by omega, Nat.mul_zero, Nat.sub_zero] at hk
    exact absurd hk hlen.ne'
  · intro hroom hpos
    refine wait_of_within (J := 1) (l := id) (fun s => rfl) (hsound 1) ?_ hclock ⟨hmode, rfl⟩ hne
      (within_sub ((csbufloAim_pos_iff _).mpr hpos) p.outputLen) hroom
    rintro n s - ⟨hm, hw⟩ hgate hspace
    exact (pollStep_csbuflo hmac hm hgate 0).2 (by rw [hw]; exact hspace)

/-! ## Transcript mode after the own `TEND` -/

/-- What is left of `len` buffered bytes after a write padded to `n`. -/
def padRound (blockSize macLen n len : ℕ) : ℕ := paddedLength blockSize macLen n len - n

theorem padRound_of_ge (b m : ℕ) (h : n ≤ len) : padRound b m n len = len - n := by
  unfold padRound paddedLength
  rw [if_pos h]

/-- A padded write leaves a part of its padding packet, and never more than 99 bytes. -/
theorem padRound_of_lt {b m : ℕ} (hb : b = 8 ∨ b = 16) (hm : 0 < m) (hm' : m ≤ 64) (h : len < n) :
    0 < padRound b m n len ∧ padRound b m n len < 100 := by
  unfold padRound paddedLength
  rw [if_neg (by omega)]
  rcases Nat.lt_or_ge 16 (n - len) with hgt | hle
  · have hpad := padLength_bounds hb (n - len)
    rw [ignoreLength_of_gt b m hgt]
    omega
  · rw [ignoreLength_of_le hb m hle]
    omega

/-- A padded write leaves nothing exactly if it takes all that is buffered. -/
theorem padRound_eq_zero_iff {b m : ℕ} (hb : b = 8 ∨ b = 16) (hm : 0 < m) (hm' : m ≤ 64) :
    padRound b m n len = 0 ↔ len = n := by
  rcases Nat.lt_or_ge len n with hlt | hge
  · have := padRound_of_lt hb hm hm' hlt
    omega
  · rw [padRound_of_ge b m hge]
    omega

/-- How many flushing polls pay the padding owed. -/
def owedRounds (owed : ℤ) : ℕ := (owed.toNat + 127) / 128

/-- While padding is owed every poll is padded to 128 bytes. -/
theorem flushPair_of_owed (b m : ℕ) {owed : ℤ} (h : 0 < owed) (len : ℕ) :
    (flushPair b m (owed, len)).2 = padRound b m 128 len ∧
      owedRounds (flushPair b m (owed, len)).1 + 1 = owedRounds owed := by
  have haim : flushAim owed len = 128 := by
    unfold flushAim
    rw [if_neg (by omega)]
  refine ⟨?_, ?_⟩
  · show flushStep b m owed len = _
    unfold flushStep
    rw [haim]
    rfl
  · show owedRounds (owedStep owed) + 1 = _
    unfold owedRounds owedStep
    rw [if_pos h]
    split <;> omega

/-- **Flushing with padding owed** empties the buffer only if it holds whole writes, or what is
left when the padding is paid drains. -/
theorem drains_of_iterate_flushPair {b m : ℕ} (hb : b = 8 ∨ b = 16)
    (hm : m ∈ [8, 12, 16, 20, 32, 64]) {owed : ℤ} {k : ℕ}
    (h : ((flushPair b m)^[k] (owed, len)).2 = 0) :
    len % 128 = 0 ∨ Drains b m ((padRound b m 128)^[owedRounds owed] len) := by
  have hpos : 0 < m ∧ m ≤ 64 := by
    simp only [List.mem_cons, List.not_mem_nil, or_false] at hm
    omega
  generalize hK : owedRounds owed = K
  induction K generalizing owed len k with
  | zero =>
    have hpaid : owed ≤ 0 := by
      unfold owedRounds at hK
      omega
    rw [iterate_flushPair_of_paid b m hpaid] at h
    exact Or.inr (drains_of_iterate hb hm h)
  | succ K ih =>
    have howed : 0 < owed := by
      unfold owedRounds at hK
      omega
    cases k with
    | zero =>
      have hzero : len = 0 := h
      exact Or.inl (by omega)
    | succ k =>
      obtain ⟨hlen, hrounds⟩ := flushPair_of_owed b m howed len
      have hpair : flushPair b m (owed, len) =
          ((flushPair b m (owed, len)).1, padRound b m 128 len) := Prod.ext rfl hlen
      rw [Function.iterate_succ_apply, hpair] at h
      obtain hmod | hdrains := ih h (by omega)
      · left
        rcases Nat.lt_or_ge len 128 with hlt | hge
        · have := padRound_of_lt hb hpos.1 hpos.2 hlt
          omega
        · rw [padRound_of_ge b m hge] at hmod
          omega
      · rw [Function.iterate_succ_apply]
        exact Or.inr hdrains

/-- In these cases it does, with one packet for each write that pays padding and three more. -/
theorem within_flushPair {b m : ℕ} (hb : b = 8 ∨ b = 16) {owed : ℤ}
    (h : len % 128 = 0 ∨ Drains b m ((padRound b m 128)^[owedRounds owed] len)) :
    Within (flushPair b m) pairPackets Prod.snd (owedRounds owed + 3) (owed, len) := by
  generalize hK : owedRounds owed = K at h
  induction K generalizing owed len with
  | zero =>
    have hpaid : owed ≤ 0 := by
      unfold owedRounds at hK
      omega
    have hdrains : Drains b m len := by
      obtain hmod | hdrains := h
      · exact Or.inl (by omega)
      · exact hdrains
    rw [Nat.zero_add]
    exact within_of_drainsWithin hpaid (drainsWithin_of_drains hb hdrains)
  | succ K ih =>
    have howed : 0 < owed := by
      unfold owedRounds at hK
      omega
    by_cases hzero : len = 0
    · exact .of_zero hzero _
    obtain ⟨hlen, hrounds⟩ := flushPair_of_owed b m howed len
    have hpair : flushPair b m (owed, len) =
        ((flushPair b m (owed, len)).1, padRound b m 128 len) := Prod.ext rfl hlen
    have hone : pairPackets (owed, len) ≤ 1 := padPackets_le _ _
    have hnext :
        Within (flushPair b m) pairPackets Prod.snd (K + 3) (flushPair b m (owed, len)) := by
      rw [hpair]
      refine ih (by omega) ?_
      obtain hmod | hdrains := h
      · left
        rw [padRound_of_ge b m (by omega)]
        omega
      · rw [Function.iterate_succ_apply] at hdrains
        exact Or.inr hdrains
    exact Within.of_step hnext (by omega)

/-- **Flushing**: after the own `TEND`, and in normal mode. -/
theorem wait_flush (hm : c.macLen ∈ [8, 12, 16, 20, 32, 64]) (hclock : Tendsto now atTop atTop)
    (hg : Flushes g) (hne : p.output ≠ []) :
    ((∃ n j t, packetWriteWait c ((List.range n).map (fullPoll now rand j)) g p = some t) →
      p.outputLen % 128 = 0 ∨ Drains c.blockSize c.macLen
        ((padRound c.blockSize c.macLen 128)^[owedRounds g.transPaddedRemaining] p.outputLen)) ∧
    (c.Room (owedRounds g.transPaddedRemaining + 3) p.snd →
      p.outputLen % 128 = 0 ∨ Drains c.blockSize c.macLen
        ((padRound c.blockSize c.macLen 128)^[owedRounds g.transPaddedRemaining] p.outputLen) →
      ∃ n j t, packetWriteWait c ((List.range n).map (fullPoll now rand j)) g p = some t) := by
  have htakes : ∀ j n, TakesFirst 128 (fullPoll now rand (j + 1) n).kernel :=
    fun j n => ⟨_, _, 32768, rfl, rfl, by decide⟩
  have hsound : ∀ j, Applies c (fullPoll now rand j) (fun s => Flushes s.1) owedAndLen
      (flushPair c.blockSize c.macLen) pairPackets (g, p) := by
    intro j n s t _ hs hgate ht
    cases j with
    | zero =>
      obtain ⟨r, hr, -⟩ := (pollStep_past hgate).mp ht
      have hs0 : Flushes { s.1 with paddedJunk := 0 } := ⟨hs.flushing, hs.w2w⟩
      rw [hs0.pollWrites_eq] at hr
      cases hr
    | succ j => exact (pollStep_flush c hs (htakes j n) hgate).1 t ht
  constructor
  · rintro ⟨n, j, t, h⟩
    obtain ⟨k, hk⟩ := iterate_of_wait (l := Prod.snd) (fun s => rfl) hsound hg h
    exact drains_of_iterate_flushPair c.blockSize_eq hm hk
  · intro hroom hfin
    refine wait_of_within (J := 1) (l := Prod.snd) (fun s => rfl) (hsound 1) ?_ hclock hg hne
      (within_flushPair c.blockSize_eq hfin) hroom
    intro n s _ hs hgate hspace
    exact (pollStep_flush c hs (htakes 0 n) hgate).2 hspace

/-! ## Transcript mode before the own `TEND` -/

/-- What the budget `w` leaves of `len` buffered bytes: full writes of 16384 bytes and a last
one. -/
def replayRest (blockSize macLen w len : ℕ) : ℕ :=
  if w = 0 then len
  else padRound blockSize macLen ((w - 1) % 16384 + 1)
    ((padRound blockSize macLen 16384)^[(w - 1) / 16384] len)

theorem replayRest_of_le (b m : ℕ) {w : ℕ} (h0 : 0 < w) (h : w ≤ 16384) (len : ℕ) :
    replayRest b m w len = padRound b m w len := by
  unfold replayRest
  rw [if_neg (by omega), show (w - 1) / 16384 = 0 by omega, show (w - 1) % 16384 + 1 = w by omega]
  rfl

theorem replayRest_of_gt (b m : ℕ) {w : ℕ} (h : 16384 < w) (len : ℕ) :
    replayRest b m w len = replayRest b m (w - 16384) (padRound b m 16384 len) := by
  unfold replayRest
  rw [if_neg (by omega), if_neg (by omega), ← Function.iterate_succ_apply,
    show (w - 1) / 16384 = (w - 16384 - 1) / 16384 + 1 by omega,
    show (w - 1) % 16384 = (w - 16384 - 1) % 16384 by omega]

/-- The budget takes its aim and what it leaves. -/
theorem replayRest_aim (b m : ℕ) {w : ℤ} (h0 : 0 < w) (h : w < 2 ^ 31) (len : ℕ) :
    0 < csbufloAim w ∧ (csbufloAim w : ℤ) ≤ w ∧
      replayRest b m w.toNat len =
        replayRest b m (w - csbufloAim w).toNat (padRound b m (csbufloAim w) len) := by
  have htoInt := toInt_of_lt (le_of_lt h0) h
  have haim : csbufloAim w = min 16384 w.toNat := by
    unfold csbufloAim budgetAim
    rw [htoInt]
    dsimp only
    split_ifs <;> omega
  refine ⟨by omega, by omega, ?_⟩
  rw [haim]
  rcases Nat.lt_or_ge 16384 w.toNat with hgt | hle
  · rw [Nat.min_eq_left (by omega), replayRest_of_gt b m hgt,
      show (w - ((16384 : ℕ) : ℤ)).toNat = w.toNat - 16384 by omega]
  · rw [Nat.min_eq_right hle, replayRest_of_le b m (by omega) hle,
      show (w - (w.toNat : ℤ)).toNat = 0 by omega]
    unfold replayRest
    rw [if_pos rfl]

/-- How many writes the budget takes. -/
def replayWrites (w : ℤ) : ℕ := (w.toNat + 16383) / 16384

/-- A write takes one of them. -/
theorem replayWrites_aim {w : ℤ} (h0 : 0 < w) (h : w < 2 ^ 31) :
    1 + replayWrites (w - csbufloAim w) = replayWrites w := by
  have htoInt := toInt_of_lt (le_of_lt h0) h
  have haim : csbufloAim w = min 16384 w.toNat := by
    unfold csbufloAim budgetAim
    rw [htoInt]
    dsimp only
    split_ifs <;> omega
  unfold replayWrites
  omega

/-- One write of the replay taken in full: only the padding can fail. -/
theorem packetWritePollOneWrite_replay_full (c : Codec σ β) (hg : ReplayMode g) {w : ℤ} (hw : 0 < w)
    (p : PacketState σ β) :
    (csbufloAim w = 0 ∧ packetWritePollOneWrite c g w ⟨0, .accepted 32768⟩ p = some (w, g, p)) ∨
    (¬ c.Room 1 p.snd ∧ packetWritePollOneWrite c g w ⟨0, .accepted 32768⟩ p = none) ∨
    (0 < csbufloAim w ∧ ∃ g' p', packetWritePollOneWrite c g w ⟨0, .accepted 32768⟩ p =
        some (w - csbufloAim w, g', p') ∧ ReplayMode g' ∧
      p'.outputLen = padRound c.blockSize c.macLen (csbufloAim w) p.outputLen ∧
      Spends c 1 p p') := by
  have hact := actualWrite_replaying hg w 0 p.outputLen
  rcases Nat.eq_zero_or_pos (csbufloAim w) with hzero | hpos
  · refine Or.inl ⟨hzero, ?_⟩
    rw [packetWritePollOneWrite_eq, hact, if_pos (Int.toNat_eq_zero.mp hzero)]
  right
  have haw : actualWrite g w (0 : ℕ) p.outputLen = (csbufloAim w : ℕ) := by
    rw [hact]
    unfold csbufloAim at hpos ⊢
    omega
  have hone := padPackets_le (csbufloAim w) p.outputLen
  cases hp1 : padOutput c (csbufloAim w) p with
  | none =>
    refine Or.inl ⟨fun hroom => ?_, packetWritePollOneWrite_fatal haw hpos hp1⟩
    obtain ⟨p1, hsome⟩ := exists_padOutput (hroom.mono hone)
    exact absurd (hp1.symm.trans hsome) (by simp)
  | some p1 =>
    right
    have hne : g.stmode ≠ .csbuflo := by rw [hg.stmode]; decide
    have hfull := fullWrite_of_ne c hne (csbufloAim w) p.outputLen
    have hle := csbufloAim_le w
    obtain ⟨g1, p', hwrite, hg1, hlen, hsnd⟩ := packetWritePollOneWrite_full
      (k := ⟨0, .accepted 32768⟩) haw hpos rfl (by omega) hp1
    have hg1' : ReplayMode g1 := by
      rw [hg1]
      exact ⟨hg.stmode, hg.sentTend⟩
    rw [hfull, afterWrite_replaying hg1' hw] at hwrite
    rw [hfull] at hlen
    refine ⟨hpos, g1, p', hwrite, hg1', hlen, fun n hroom => ?_⟩
    rw [hsnd]
    exact spends_padOutput hp1 n (hroom.mono (by omega))

/-- **The loop of the replay, taken in full.**  It returns only with a budget that fits into
an `int`, and leaves `replayRest`. -/
theorem writePollLoop_replay_full (j : ℕ) {w : ℤ} {g' : Globals} {p' : PacketState σ β}
    (hg : ReplayMode g) (hw : 0 ≤ w)
    (h : writePollLoop c (List.replicate j ⟨0, .accepted 32768⟩) w g p = .returned (g', p')) :
    w < 2 ^ 31 ∧ ReplayMode g' ∧
      p'.outputLen = replayRest c.blockSize c.macLen w.toNat p.outputLen ∧
      Spends c (replayWrites w) p p' := by
  induction j generalizing w g p with
  | zero =>
    unfold List.replicate writePollLoop at h
    split at h
    · cases h
    · cases h
      obtain rfl : w = 0 := by omega
      exact ⟨by norm_num, hg, rfl, .refl c p'⟩
  | succ j ih =>
    rw [List.replicate_succ, writePollLoop] at h
    by_cases hpos : w > 0
    · rw [if_pos hpos] at h
      rcases packetWritePollOneWrite_replay_full c hg hpos p with
        ⟨hzero, hone⟩ | ⟨-, hfatal⟩ | ⟨haim, g1, p1, hone, hg1, hlen, hspends⟩
      · rw [hone] at h
        obtain ⟨hlt, -⟩ := ih hg hw h
        have := (replayRest_aim c.blockSize c.macLen hpos hlt p.outputLen).1
        omega
      · rw [hfatal] at h
        cases h
      · rw [hone] at h
        have haimw : (csbufloAim w : ℤ) ≤ w := by
          have := budgetAim_le (le_of_lt hpos) 0
          unfold csbufloAim at haim ⊢
          omega
        obtain ⟨hlt, hg', hrest, hspends'⟩ := ih hg1 (by omega) h
        -- a budget beyond the `int` range would not have had an aim
        have hlt' : w < 2 ^ 31 := by
          have hle := csbufloAim_le w
          have htoInt := (csbufloAim_pos_iff w).mp haim
          by_contra hge
          unfold toInt at htoInt
          rw [Int.bmod_def] at htoInt
          split at htoInt <;> omega
        obtain ⟨-, -, heq⟩ := replayRest_aim c.blockSize c.macLen hpos hlt' p.outputLen
        refine ⟨hlt', hg', by rw [hrest, hlen, heq], ?_⟩
        rw [← replayWrites_aim hpos hlt']
        exact hspends.trans hspends'
    · rw [if_neg hpos] at h
      cases h
      obtain rfl : w = 0 := by omega
      exact ⟨by norm_num, hg, rfl, .refl c p'⟩

/-- With enough answers the loop returns. -/
theorem exists_writePollLoop_replay (j : ℕ) {w : ℤ} (hg : ReplayMode g) (hw : w < 2 ^ 31)
    (hj : w.toNat ≤ j) (hroom : c.Room (replayWrites w) p.snd) :
    ∃ r, writePollLoop c (List.replicate j ⟨0, .accepted 32768⟩) w g p = .returned r := by
  induction j generalizing w g p with
  | zero =>
    refine ⟨(g, p), ?_⟩
    unfold List.replicate writePollLoop
    rw [if_neg (by omega)]
  | succ j ih =>
    rw [List.replicate_succ, writePollLoop]
    by_cases hpos : w > 0
    · rw [if_pos hpos]
      obtain ⟨haim, hle, -⟩ := replayRest_aim c.blockSize c.macLen hpos hw p.outputLen
      rw [← replayWrites_aim hpos hw] at hroom
      rcases packetWritePollOneWrite_replay_full c hg hpos p with
        ⟨hzero, -⟩ | ⟨hfull, -⟩ | ⟨-, g1, p1, hone, hg1, -, hspends⟩
      · omega
      · exact absurd (hroom.mono (Nat.le_add_right _ _)) hfull
      · rw [hone]
        exact ih hg1 (by omega) (by omega) (hspends _ hroom)
    · rw [if_neg hpos]
      exact ⟨(g, p), rfl⟩

/-- A poll of the replay past its time writes the budget in a loop. -/
theorem pollStep_replay {x : PollInput} (hs : ReplayMode s.1) (h : s.2.packetTimeToWrite ≤ x.now) :
    pollStep c s x = some t ↔
      ∃ r, writePollLoop c x.kernel s.1.w2w { s.1 with paddedJunk := 0 } s.2 = .returned r ∧
        t = finishPoll x r.1 r.2 := by
  have hloop : pollWrites c x.kernel { s.1 with paddedJunk := 0 } s.2 =
      writePollLoop c x.kernel s.1.w2w { s.1 with paddedJunk := 0 } s.2 := by
    unfold pollWrites
    rw [if_pos hs.stmode, if_neg (fun hc => by rw [hs.sentTend] at hc; simp at hc)]
  rw [pollStep_past h, hloop]

theorem pollStep_replay_full {j : ℕ} (hs : ReplayMode s.1) (hw : 0 ≤ s.1.w2w)
    (hgate : s.2.packetTimeToWrite ≤ now n) (h : pollStep c s (fullPoll now rand j n) = some t) :
    s.1.w2w < 2 ^ 31 ∧ (ReplayMode t.1 ∧ t.1.w2w = 0) ∧
      t.2.outputLen = replayRest c.blockSize c.macLen s.1.w2w.toNat s.2.outputLen ∧
      Spends c (replayWrites s.1.w2w) s.2 t.2 := by
  obtain ⟨⟨g', p'⟩, hloop, rfl⟩ := (pollStep_replay hs hgate).mp h
  have hs0 : ReplayMode { s.1 with paddedJunk := 0 } := ⟨hs.stmode, hs.sentTend⟩
  obtain ⟨hlt, hg', hlen, hspends⟩ := writePollLoop_replay_full j hs0 hw hloop
  refine ⟨hlt, ?_, hlen, hspends⟩
  unfold finishPoll
  rw [if_pos hg'.stmode]
  exact ⟨⟨hg'.stmode, hg'.sentTend⟩, rfl⟩

/-- What the first poll of the replay past its time leaves, and the budget after it. -/
def replayPair (blockSize macLen : ℕ) (x : ℤ × ℕ) : ℤ × ℕ :=
  (0, replayRest blockSize macLen x.1.toNat x.2)

/-- After the first poll nothing changes any more. -/
theorem iterate_replayPair (b m : ℕ) (x : ℤ × ℕ) (k : ℕ) :
    (replayPair b m)^[k + 1] x = (0, replayRest b m x.1.toNat x.2) := by
  induction k with
  | zero => rfl
  | succ k ih =>
    rw [Function.iterate_succ_apply', ih]
    rfl

/-- The budget takes all exactly if the buffer holds what it asks for. -/
theorem replayRest_eq_zero_iff {b m : ℕ} (hb : b = 8 ∨ b = 16) (hm : 0 < m ∧ m ≤ 64) {w : ℤ}
    (hlen : 0 < len) :
    replayRest b m w.toNat len = 0 ↔
      0 < w ∧ (padRound b m 16384)^[(w.toNat - 1) / 16384] len = (w.toNat - 1) % 16384 + 1 := by
  unfold replayRest
  by_cases hzero : w.toNat = 0
  · rw [if_pos hzero]
    omega
  · rw [if_neg hzero, padRound_eq_zero_iff hb hm.1 hm.2]
    exact ⟨fun h => ⟨by omega, h⟩, fun h => h.2⟩

/-- **The replay**: `packet_write_wait` returns only if the buffer holds what the first poll past
its time takes, and then it does if a packet for each of its writes can be sent. -/
theorem wait_replay (hm : 0 < c.macLen ∧ c.macLen ≤ 64) (hclock : Tendsto now atTop atTop)
    (hg : ReplayMode g) (hw : 0 ≤ g.w2w) (hne : p.output ≠ []) :
    ((∃ n j t, packetWriteWait c ((List.range n).map (fullPoll now rand j)) g p = some t) →
      0 < g.w2w ∧ g.w2w < 2 ^ 31 ∧
        (padRound c.blockSize c.macLen 16384)^[(g.w2w.toNat - 1) / 16384] p.outputLen =
          (g.w2w.toNat - 1) % 16384 + 1) ∧
    (c.Room (replayWrites g.w2w) p.snd →
      0 < g.w2w ∧ g.w2w < 2 ^ 31 ∧
        (padRound c.blockSize c.macLen 16384)^[(g.w2w.toNat - 1) / 16384] p.outputLen =
          (g.w2w.toNat - 1) % 16384 + 1 →
      ∃ n j t, packetWriteWait c ((List.range n).map (fullPoll now rand j)) g p = some t) := by
  have hlen : 0 < p.outputLen := List.length_pos_iff.mpr hne
  have hsound : ∀ j, Applies c (fullPoll now rand j)
      (fun s => ReplayMode s.1 ∧ 0 ≤ s.1.w2w ∧ s.1.w2w ≤ g.w2w)
      (fun s => (s.1.w2w, s.2.outputLen)) (replayPair c.blockSize c.macLen)
      (fun x => replayWrites x.1) (g, p) := by
    rintro j n s t - ⟨hs, hs0, hsw⟩ hgate ht
    obtain ⟨-, ⟨hmode, hzero⟩, hrest, hspends⟩ := pollStep_replay_full hs hs0 hgate ht
    exact ⟨⟨hmode, by omega, by omega⟩, Prod.ext hzero hrest, hspends⟩
  constructor
  · rintro ⟨n, j, t, h⟩
    have hbig : g.w2w < 2 ^ 31 := by
      -- with a larger budget no poll past its time returns
      by_contra hbig
      have hstuck : ∀ j, Applies c (fullPoll now rand j)
          (fun s => ReplayMode s.1 ∧ s.1.w2w = g.w2w) (fun s => s.2.outputLen) id (fun _ => 0)
          (g, p) := by
        intro j n s t _ hs hgate ht
        have hlt := (pollStep_replay_full hs.1 (by rw [hs.2]; exact hw) hgate ht).1
        rw [hs.2] at hlt
        exact absurd hlt hbig
      obtain ⟨k, hk⟩ := iterate_of_wait (l := id) (fun s => rfl) hstuck ⟨hg, rfl⟩ h
      rw [Function.iterate_id] at hk
      exact absurd hk hlen.ne'
    obtain ⟨k, hk⟩ := iterate_of_wait (l := Prod.snd) (fun s => rfl) hsound ⟨hg, hw, le_refl _⟩ h
    cases k with
    | zero => exact absurd hk hlen.ne'
    | succ k =>
      rw [iterate_replayPair] at hk
      obtain ⟨hpos, heq⟩ := (replayRest_eq_zero_iff c.blockSize_eq hm hlen).mp hk
      exact ⟨hpos, hbig, heq⟩
  · rintro hroom ⟨hpos, hbig, heq⟩
    have hrest : (replayPair c.blockSize c.macLen (g.w2w, p.outputLen)).2 = 0 :=
      (replayRest_eq_zero_iff c.blockSize_eq hm hlen).mpr ⟨hpos, heq⟩
    have hwithin : Within (replayPair c.blockSize c.macLen) (fun x => replayWrites x.1) Prod.snd
        (replayWrites g.w2w) (g.w2w, p.outputLen) :=
      Within.of_step (.of_zero hrest 0) (Nat.le_of_eq (Nat.add_zero _))
    refine wait_of_within (J := g.w2w.toNat) (l := Prod.snd) (fun s => rfl) (hsound _) ?_ hclock
      ⟨hg, hw, le_refl _⟩ hne hwithin hroom
    rintro n s - ⟨hs, hs0, hsw⟩ hgate hspace
    have hs1 : ReplayMode { s.1 with paddedJunk := 0 } := ⟨hs.stmode, hs.sentTend⟩
    obtain ⟨r, hr⟩ := exists_writePollLoop_replay g.w2w.toNat (w := s.1.w2w) (p := s.2) hs1
      (by omega) (by omega) hspace
    exact ⟨_, (pollStep_replay hs hgate).mpr ⟨r, hr, rfl⟩⟩

/-! ## When `packet_write_wait` returns -/

/-- `packet_write_wait` returns with an empty buffer. -/
theorem output_of_packetWriteWait {inps : List PollInput}
    (h : packetWriteWait c inps g p = some t) : t.2.output = [] := by
  induction inps generalizing g p with
  | nil => cases h
  | cons inp rest ih =>
    unfold packetWriteWait at h
    split at h
    · split at h
      · cases h
        assumption
      · exact ih h
    · cases h

/-- The states from which `packet_write_wait` returns:

* while flushing, that is in normal mode and after the own `TEND`, the buffer holds whole
  writes of 128 bytes, or what is left of it when the owed padding is paid drains;
* in csbuflo mode the budget, read as an `int`, is positive;
* before the own `TEND` the buffer holds just what the budget takes: for a budget of up to
  16384 bytes this says that it is as long as the budget. -/
def WaitFinishes (blockSize macLen : ℕ) (g : Globals) (len : ℕ) : Prop :=
  if flushing g then
    len % 128 = 0 ∨ Drains blockSize macLen
      ((padRound blockSize macLen 128)^[owedRounds g.transPaddedRemaining] len)
  else if g.stmode = .csbuflo then 0 < toInt g.w2w
  else
    0 < g.w2w ∧ g.w2w < 2 ^ 31 ∧
      (padRound blockSize macLen 16384)^[(g.w2w.toNat - 1) / 16384] len =
        (g.w2w.toNat - 1) % 16384 + 1

instance (b m : ℕ) (g : Globals) (len : ℕ) : Decidable (WaitFinishes b m g len) := by
  unfold WaitFinishes
  infer_instance

/-- After the own `TEND` the budget of a reachable state is used up, so polls flush. -/
theorem Reached.flushes {r : Role} {e : Endpoint σ β} (he : Reached r e)
    (h : flushing e.g = true) : Flushes e.g := by
  refine ⟨h, fun hmode => ?_⟩
  have hsent : e.g.sentTend = true := by simpa [flushing, hmode] using h
  exact (he.done hmode hsent).1

/-- The packets a `packet_write_wait` that returns may have to send. -/
def waitPackets (g : Globals) : ℕ :=
  if flushing g then owedRounds g.transPaddedRemaining + 3
  else if g.stmode = .csbuflo then 1
  else replayWrites g.w2w

/-- **When `packet_write_wait` returns.**  From every state an endpoint can reach with output
buffered, with a MAC of the table, a kernel that takes every write and a clock that goes on,
`packet_write_wait` returns, and then with an empty buffer, only if `WaitFinishes` holds; and if
it holds it does, provided that the packets it sends on the way fit under the current keys. -/
theorem packet_write_wait_returns_iff {c : Codec σ β} {m : MacEntry}
    (hm : m ∈ macs) (hmac : c.macLen = (macSetupById m).macLen) {T : Tables} {r : Role}
    {e : Endpoint σ β} (he : Started c T r e) (hne : e.pkt.output ≠ []) {now rand : ℕ → ℕ}
    (hclock : Tendsto now atTop atTop) :
    ((∃ n j t, packetWriteWait c ((List.range n).map (fullPoll now rand j)) e.g e.pkt = some t) →
      WaitFinishes c.blockSize c.macLen e.g e.pkt.outputLen) ∧
    (c.Room (waitPackets e.g) e.pkt.snd → WaitFinishes c.blockSize c.macLen e.g e.pkt.outputLen →
      ∃ n j t, packetWriteWait c ((List.range n).map (fullPoll now rand j)) e.g e.pkt = some t ∧
        t.2.output = []) := by
  have hcases : c.macLen ∈ [8, 12, 16, 20, 32, 64] := hmac ▸ macLen_cases hm
  have hsize : 0 < c.macLen ∧ c.macLen ≤ 64 := by
    simp only [List.mem_cons, List.not_mem_nil, or_false] at hcases
    omega
  have hempty : (∃ n j t, packetWriteWait c ((List.range n).map (fullPoll now rand j)) e.g e.pkt =
        some t ∧ t.2.output = []) ↔
      ∃ n j t, packetWriteWait c ((List.range n).map (fullPoll now rand j)) e.g e.pkt = some t :=
    ⟨fun ⟨n, j, t, h, _⟩ => ⟨n, j, t, h⟩,
      fun ⟨n, j, t, h⟩ => ⟨n, j, t, h, output_of_packetWriteWait h⟩⟩
  rw [hempty]
  unfold WaitFinishes waitPackets
  by_cases hflush : flushing e.g = true
  · rw [if_pos hflush, if_pos hflush]
    exact wait_flush hcases hclock (he.reached.flushes hflush) hne
  · rw [if_neg hflush, if_neg hflush]
    cases hmode : e.g.stmode with
    | normal => exact absurd (by simp [flushing, hmode]) hflush
    | csbuflo =>
      rw [if_pos rfl, if_pos rfl]
      exact wait_csbuflo hsize.2 hclock hmode hne
    | supertrace =>
      rw [if_neg (by decide), if_neg (by decide)]
      have hsent : e.g.sentTend = false := by
        cases hs : e.g.sentTend with
        | false => rfl
        | true => exact absurd (by simp [flushing, hmode, hs]) hflush
      exact wait_replay hsize hclock ⟨hmode, hsent⟩ he.reached.nonneg hne

/-- Keys of a 16-byte cipher with `hmac-sha1`, without encryption. -/
def sha1Codec : Codec (SendState Unit) UInt8 := packetCodec (identityKeys 16 20 blockSize_sixteen)

/-- A page without a trace: the first slot of csbuflo mode sets the budget, and what is queued
afterwards is sent. -/
theorem packet_write_wait_returns_iff_csbuflo :
    ∃ e, Transition.run (endpointStep sha1Codec noTables .client) plainEndpoint
        [.socks (urlRequest 97), .slot (openSlot 100000), .data 0 [98]] = some e ∧
      e.g.stmode = .csbuflo ∧ e.pkt.output ≠ [] ∧
      ∃ n j t, packetWriteWait sha1Codec ((List.range n).map (fullPoll id (fun _ => 0) j))
        e.g e.pkt = some t ∧ t.2.output = [] := by
  obtain ⟨e, he, hmode, hne, hfin, hroom⟩ : ∃ e, Transition.run
      (endpointStep sha1Codec noTables .client) plainEndpoint
        [.socks (urlRequest 97), .slot (openSlot 100000), .data 0 [98]] = some e ∧
      e.g.stmode = .csbuflo ∧ e.pkt.output ≠ [] ∧ WaitFinishes 16 20 e.g e.pkt.outputLen ∧
      e.pkt.snd.packets + waitPackets e.g < 2 ^ 32 := by
    decide +kernel
  exact ⟨e, he, hmode, hne, (packet_write_wait_returns_iff (m := ⟨"hmac-sha1", .evp 20, 0⟩)
    (by decide) rfl (started_of_run he) hne tendsto_id).2 (room_packetCodec _ hroom) hfin⟩

/-- Tables with one cluster, whose trace is one burst of the client. -/
def oneBurst : Tables := ⟨⟨fun _ => [([97], 1)], Hashmap.pos_pageA⟩, fun _ => [⟨-400, 50, 0, 0⟩]⟩

/-- **A page request that is never sent.**  Right after a URL request for a page with a trace
the budget is zero and the own `TEND` is not queued.  No poll writes anything, so
`packet_write_wait` never returns. -/
theorem packet_write_wait_never_returns :
    ∃ e, Transition.run (endpointStep sha1Codec oneBurst .client) plainEndpoint
        [.socks (urlRequest 97)] = some e ∧
      e.g.stmode = .supertrace ∧ e.g.sentTend = false ∧ e.g.w2w = 0 ∧ e.pkt.output ≠ [] ∧
      ∀ n j, packetWriteWait sha1Codec ((List.range n).map (fullPoll id (fun _ => 0) j))
        e.g e.pkt = none := by
  obtain ⟨e, he, hmode, hsent, hw, hne⟩ : ∃ e, Transition.run
      (endpointStep sha1Codec oneBurst .client) plainEndpoint [.socks (urlRequest 97)] = some e ∧
      e.g.stmode = .supertrace ∧ e.g.sentTend = false ∧ e.g.w2w = 0 ∧ e.pkt.output ≠ [] := by
    decide +kernel
  refine ⟨e, he, hmode, hsent, hw, hne, fun n j => ?_⟩
  rw [Option.eq_none_iff_forall_ne_some]
  intro t ht
  have hpos := ((wait_replay (by decide) tendsto_id ⟨hmode, hsent⟩ hw.ge hne).1 ⟨n, j, t, ht⟩).1
  omega

end CSBuFLO
