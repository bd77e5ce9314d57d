/-
# The rate of a page and the pages before it

Leaving csbuflo mode resets the period and the boundary, but not the rings of the adaptation code.
What is pending in them then goes into the first median of the next page.  This module says exactly
when two histories give the same periods on every next page (`rate_independent_iff`).

A median is rounded down to a power of two, so a sample counts only as a vote on each of the levels
between `LOWER_TAU` and `UPPER_TAU`: the median reaches a level exactly if at least half of the
samples do (`reaches_median`).  The pending intervals vote as they are.  The pending send times
vote when the next interval is closed, through the gaps between them; a gap of zero votes as that
interval does.  Of the newest send time also the next gap depends.

* `Alike` : the votes of two sets of pending samples cannot be told apart;
* `Alike.call` : no call makes a difference between such sets;
* `Observed.alike` : sets that can be told apart give different periods after suitable calls.
-/
import CSBuFLO.Median

namespace CSBuFLO

/-! ## Medians by majority -/

/-- At least half of the votes are in favour. -/
def Majority (votes : List Bool) : Prop := votes.length ≤ 2 * votes.count true

/-- The vote of a sample: whether it reaches the level `2 ^ x`. -/
def reaches (x : ℕ) (tau : ℤ) : Bool := decide ((2 : ℤ) ^ x ≤ tau)

/-- The levels on which samples can differ. -/
def IsLevel (x : ℕ) : Prop := lowerTau < 2 ^ x ∧ (2 : ℤ) ^ x ≤ upperTau

/-- In a sorted list, the element at a place reaches a bound if no more than that many elements are
below it. -/
theorem le_getElem_iff_countP {α : Type*} [LinearOrder α] {l : List α} (h : l.Pairwise (· ≤ ·))
    (c : α) {i : ℕ} (hi : i < l.length) :
    c ≤ l[i] ↔ l.countP (fun v => decide (v < c)) ≤ i := by
  induction l generalizing i with
  | nil => simp at hi
  | cons a l ih =>
    obtain ⟨ha, hl⟩ := List.pairwise_cons.mp h
    by_cases hac : a < c
    · rw [List.countP_cons_of_pos (by simpa using hac)]
      cases i with
      | zero => simpa using hac
      | succ i =>
        rw [List.getElem_cons_succ, ih hl (by simpa using hi)]
        omega
    · have hzero : l.countP (fun v => decide (v < c)) = 0 := by
        rw [List.countP_eq_zero]
        intro v hv
        simpa using (not_lt.mp hac).trans (ha v hv)
      rw [List.countP_cons_of_neg (by simpa using hac), hzero]
      refine iff_of_true ?_ (Nat.zero_le i)
      cases i with
      | zero => exact not_lt.mp hac
      | succ i => exact (not_lt.mp hac).trans (ha _ (List.getElem_mem _))

/-- The samples below a level, and those that reach it. -/
theorem countP_add_count (x : ℕ) (l : List ℤ) :
    l.countP (fun v => decide (v < 2 ^ x)) + (l.map (reaches x)).count true = l.length := by
  rw [List.length_eq_countP_add_countP (fun v => decide (v < 2 ^ x)), List.count, List.countP_map]
  congr 1
  refine List.countP_congr fun v _ => ?_
  simp [reaches]

/-- The power of two below a positive number reaches the levels which the number reaches. -/
theorem reaches_pow_log {v : ℤ} (hv : 0 < v) (x : ℕ) :
    (2 : ℤ) ^ x ≤ 2 ^ Nat.log 2 v.toNat ↔ (2 : ℤ) ^ x ≤ v := by
  obtain ⟨⟨-, hle⟩, hgreatest⟩ := isGreatest_pow_log hv
  exact ⟨fun h => h.trans hle, fun h => hgreatest ⟨⟨x, rfl⟩, h⟩⟩

variable {s t : Samples} {x : ℕ}

/-- The median is the power of two below a sample that reaches a bound exactly if no more than half
of the samples are below it. -/
theorem exists_median {s : Samples} (hne : s.taus ≠ []) :
    ∃ v ∈ s.taus, s.median = 2 ^ Nat.log 2 v.toNat ∧
      ∀ c, c ≤ v ↔ s.taus.countP (fun w => decide (w < c)) ≤ s.taus.length / 2 := by
  generalize hsorted : s.taus.mergeSort (fun v w => decide (v ≤ w)) = sorted
  have hperm : sorted.Perm s.taus := hsorted ▸ List.mergeSort_perm _ _
  have hle : sorted.Pairwise (· ≤ ·) := by
    rw [← List.sortedLE_iff_pairwise, ← hsorted]
    exact List.sortedLE_mergeSort
  have hmid : s.taus.length / 2 < sorted.length := by
    have := hperm.length_eq
    have := List.length_pos_iff.mpr hne
    omega
  refine ⟨sorted[s.taus.length / 2], hperm.mem_iff.mp (List.getElem_mem hmid), ?_, fun c => ?_⟩
  · unfold Samples.median
    rw [if_neg hne, hsorted, List.getD_eq_getElem _ _ hmid]
  · rw [le_getElem_iff_countP hle c hmid, hperm.countP_eq]

/-- The votes of the pending intervals. -/
def Samples.votes (s : Samples) (x : ℕ) : List Bool := s.taus.map (reaches x)

/-- **The median reaches a level exactly if at least half of the samples do.** -/
theorem reaches_median {s : Samples} (hlow : ∀ v ∈ s.taus, lowerTau ≤ v) {x : ℕ}
    (hx : (2 : ℤ) ^ x ≤ upperTau) : (2 : ℤ) ^ x ≤ s.median ↔ Majority (s.votes x) := by
  unfold Majority Samples.votes
  by_cases hnil : s.taus = []
  · unfold Samples.median
    rw [if_pos hnil, hnil]
    exact iff_of_true hx (Nat.zero_le _)
  · obtain ⟨v, hmem, hmedian, hreach⟩ := exists_median hnil
    have hsum := countP_add_count x s.taus
    rw [hmedian, reaches_pow_log (lt_of_lt_of_le (by decide) (hlow v hmem)), hreach,
      List.length_map]
    omega

/-- What is pending in the rings: no more than they hold, and clamped. -/
structure Samples.Kept (s : Samples) : Prop where
  times : s.times.length ≤ arrSize
  taus : s.taus.length ≤ arrSize
  lower : ∀ v ∈ s.taus, lowerTau ≤ v
  upper : ∀ v ∈ s.taus, v ≤ upperTau

/-- The median is a power of two between the bounds. -/
theorem Samples.Kept.median_eq_pow {s : Samples} (h : s.Kept) :
    ∃ k : ℕ, s.median = 2 ^ k ∧ lowerTau ≤ 2 ^ k ∧ (2 : ℤ) ^ k ≤ upperTau := by
  by_cases hnil : s.taus = []
  · refine ⟨15, ?_, by decide, by decide⟩
    unfold Samples.median
    rw [if_pos hnil]
    rfl
  · obtain ⟨v, hmem, hmedian, -⟩ := exists_median hnil
    have hlower : (2 : ℤ) ^ 12 ≤ v := h.lower v hmem
    have hv : 0 < v := lt_of_lt_of_le (by decide) hlower
    exact ⟨_, hmedian, (reaches_pow_log hv 12).mpr hlower,
      (isGreatest_pow_log hv).1.2.trans (h.upper v hmem)⟩

/-- **Medians are compared by the votes on every level.** -/
theorem median_eq_iff (hs : s.Kept) (ht : t.Kept) :
    s.median = t.median ↔ ∀ x, IsLevel x → (Majority (s.votes x) ↔ Majority (t.votes x)) := by
  constructor
  · intro heq x hx
    rw [← reaches_median hs.lower hx.2, ← reaches_median ht.lower hx.2, heq]
  · intro h
    obtain ⟨j, hj, hlow, hhigh⟩ := hs.median_eq_pow
    obtain ⟨k, hk, hlow', hhigh'⟩ := ht.median_eq_pow
    have hvotes : ∀ x, IsLevel x → ((2 : ℤ) ^ x ≤ s.median ↔ (2 : ℤ) ^ x ≤ t.median) :=
      fun x hx => ((reaches_median hs.lower hx.2).trans (h x hx)).trans
        (reaches_median ht.lower hx.2).symm
    rw [hj, hk] at hvotes ⊢
    -- the larger of two different powers is a level that the other one does not reach
    rcases lt_trichotomy ((2 : ℤ) ^ j) (2 ^ k) with hlt | heq | hlt
    · exact absurd ((hvotes k ⟨lt_of_le_of_lt hlow hlt, hhigh'⟩).mpr (le_refl _)) (not_le.mpr hlt)
    · exact heq
    · exact absurd ((hvotes j ⟨lt_of_le_of_lt hlow' hlt, hhigh⟩).mp (le_refl _)) (not_le.mpr hlt)

/-! ## Votes of the pending samples -/

/-- The vote of a gap between send times; `f` is the vote of the interval that is closed. -/
def vote (x : ℕ) (f : Bool) (gap : ℤ) : Bool := if gap = 0 then f else reaches x gap

/-- The votes of the samples that the next interval contributes, newest first, if further send
times give the gaps with the votes `new` before: the gaps of the pending times that are still kept
come behind them in time, and the ring takes the newest first. -/
def closing (x : ℕ) (f : Bool) (new : List Bool) (times : List ℕ) : List Bool :=
  let old := (Samples.intervals (times.take (arrSize - new.length))).map (vote x f)
  if new = [] ∧ old = [] then [f] else old.reverse ++ new

/-- A majority in both or in neither, among the votes the ring has room for. -/
def SameMajority (u v : List Bool) : Prop :=
  Majority (u.take arrSize) ↔ Majority (v.take arrSize)

/-- **Pending samples that cannot be told apart.**  The newest send times agree, and on every level
there is a majority in both or in neither, however the votes of the next page are added: before an
interval is closed (`median`), after one is closed and `later` samples follow (`closed`), and the
same after a median, which clears the pending intervals (`cleared`). -/
structure Alike (s t : Samples) : Prop where
  newest : s.times.head?.map (· % 2 ^ 64) = t.times.head?.map (· % 2 ^ 64)
  median : ∀ x, IsLevel x → (Majority (s.votes x) ↔ Majority (t.votes x))
  closed : ∀ x f later new, IsLevel x → new.length < arrSize →
    SameMajority (later ++ closing x f new s.times ++ s.votes x)
      (later ++ closing x f new t.times ++ t.votes x)
  cleared : ∀ x f later new, IsLevel x → new.length < arrSize →
    SameMajority (later ++ closing x f new s.times) (later ++ closing x f new t.times)

/-- Within a power of two the size of an interval does not matter. -/
theorem Alike.of_levels (htimes : s.times = t.times)
    (hvotes : ∀ x, IsLevel x → s.votes x = t.votes x) : Alike s t := by
  refine ⟨by rw [htimes], fun x hx => by rw [hvotes x hx], fun x f later new hx _ => ?_,
    fun x f later new _ _ => ?_⟩
  · rw [htimes, hvotes x hx]
    exact Iff.rfl
  · rw [htimes]
    exact Iff.rfl

example : Alike ⟨[], [5000]⟩ ⟨[], [6000]⟩ :=
  Alike.of_levels rfl fun x hx => by
    have hlevel : 12 < x := (pow_lt_pow_iff_right₀ (by decide : (1 : ℤ) < 2)).mp hx.1
    have hbig : (2 : ℤ) ^ 13 ≤ 2 ^ x := pow_le_pow_right₀ (by decide) hlevel
    simp only [Samples.votes, List.map_cons, List.map_nil, reaches, List.cons.injEq, and_true,
      decide_eq_decide]
    omega

/-- Gaps are counted modulo `2 ^ 64`. -/
theorem interval_congr (time : ℕ) {a b : ℕ} (h : a % 2 ^ 64 = b % 2 ^ 64) :
    Adaptation.interval time a = Adaptation.interval time b := by
  have hmod : ((time : ℤ) - a) % 2 ^ 64 = ((time : ℤ) - b) % 2 ^ 64 := by omega
  unfold Adaptation.interval Int.bmod
  simp only [Nat.cast_pow, Nat.cast_ofNat, hmod]

/-- Without a pending gap, the votes are the new ones or that of the interval itself. -/
theorem closing_of_short {f : Bool} {new : List Bool} {times : List ℕ}
    (h : times.length < 2 ∨ arrSize ≤ new.length + 1) :
    closing x f new times = if new = [] then [f] else new := by
  have hnil : Samples.intervals (times.take (arrSize - new.length)) = [] := by
    rw [intervals_eq_nil_iff, List.length_take]
    omega
  unfold closing
  dsimp only
  rw [hnil]
  simp

/-- Send times that are dropped have no vote. -/
theorem closing_take (x : ℕ) (f : Bool) (new : List Bool) (times : List ℕ) :
    closing x f new (times.take arrSize) = closing x f new times := by
  unfold closing
  rw [List.take_take, Nat.min_eq_left (Nat.sub_le arrSize new.length)]

/-- **A new send time adds the vote of the gap to the newest one.** -/
theorem closing_cons {f : Bool} {new : List Bool} (time t0 : ℕ) (rest : List ℕ)
    (h : new.length + 1 < arrSize) :
    closing x f new ((time :: t0 :: rest).take arrSize) =
      closing x f (vote x f (Adaptation.interval time t0) :: new) (t0 :: rest) := by
  obtain ⟨k, hk⟩ : ∃ k, arrSize - new.length = k + 2 := ⟨arrSize - new.length - 2, by omega⟩
  have hk' : arrSize - (vote x f (Adaptation.interval time t0) :: new).length = k + 1 := by
    rw [List.length_cons]
    omega
  have hgaps : Samples.intervals (time :: t0 :: rest.take k) =
      Adaptation.interval time t0 :: Samples.intervals (t0 :: rest.take k) := rfl
  unfold closing
  dsimp only
  rw [List.take_take, Nat.min_eq_left (by omega : arrSize - new.length ≤ arrSize), hk, hk',
    List.take_succ_cons, List.take_succ_cons, hgaps]
  simp

/-- What a new send time does to the votes of two sets with the same newest send time. -/
theorem exists_closing {f : Bool} {new : List Bool} {times times' : List ℕ} (time : ℕ)
    (hnewest : times.head?.map (· % 2 ^ 64) = times'.head?.map (· % 2 ^ 64))
    (hnew : new.length < arrSize) :
    ∃ new', new'.length < arrSize ∧
      closing x f new ((time :: times).take arrSize) = closing x f new' times ∧
      closing x f new ((time :: times').take arrSize) = closing x f new' times' := by
  by_cases hlast : new.length + 1 < arrSize
  · cases times with
    | nil =>
      cases times' with
      | nil =>
        refine ⟨new, hnew, ?_, ?_⟩
        all_goals rw [closing_of_short (Or.inl (by simp)), closing_of_short (Or.inl (by simp))]
      | cons t0' rest' => cases hnewest
    | cons t0 rest =>
      cases times' with
      | nil => cases hnewest
      | cons t0' rest' =>
        have hmod : t0 % 2 ^ 64 = t0' % 2 ^ 64 := Option.some.inj hnewest
        refine ⟨vote x f (Adaptation.interval time t0) :: new, hlast,
          closing_cons time t0 rest hlast,
          ?_⟩
        rw [interval_congr time hmod]
        exact closing_cons time t0' rest' hlast
  · refine ⟨new, hnew, ?_, ?_⟩
    all_goals rw [closing_of_short (Or.inr (by omega)), closing_of_short (Or.inr (by omega))]

/-! ## Calls keep pending samples alike -/

theorem head?_insertTime (s : Samples) (time : ℕ) :
    (s.insertTime time).times.head? = some time := by
  show ((time :: s.times).take arrSize).head? = some time
  rfl

theorem Alike.insertTime (h : Alike s t) (time : ℕ) :
    Alike (s.insertTime time) (t.insertTime time) := by
  refine ⟨by rw [head?_insertTime, head?_insertTime], h.median, fun x f later new hx hnew => ?_,
    fun x f later new hx hnew => ?_⟩
  · obtain ⟨new', hnew', hs, ht⟩ := exists_closing (x := x) (f := f) time h.newest hnew
    have hvotes := h.closed x f later new' hx hnew'
    rw [← hs, ← ht] at hvotes
    exact hvotes
  · obtain ⟨new', hnew', hs, ht⟩ := exists_closing (x := x) (f := f) time h.newest hnew
    have hvotes := h.cleared x f later new' hx hnew'
    rw [← hs, ← ht] at hvotes
    exact hvotes

/-- What an interval makes of the pending samples. -/
theorem Samples.Kept.updateTauInterval_eq (h : s.Kept) {tsStart tsEnd : ℕ} (hlt : tsStart < tsEnd)
    (real : ℤ) (isClient : Bool) :
    s.updateTauInterval tsStart tsEnd real isClient =
      ⟨[], ((History.contribution (if real > 0 then tsEnd :: s.times else s.times) tsStart tsEnd
        isClient).reverse ++ s.taus).take arrSize⟩ := by
  have hwindow : (⟨s.times, s.taus⟩ : History).window = s := by
    unfold History.window
    rw [List.take_of_length_le h.times, List.take_of_length_le h.taus]
  have hcall := window_updateTauInterval ⟨s.times, s.taus⟩ tsStart tsEnd real isClient
  rw [hwindow] at hcall
  rw [hcall]
  unfold History.call History.window
  dsimp only
  rw [if_pos hlt]
  rfl

/-- Clamping changes no vote. -/
theorem reaches_clamp (hx : IsLevel x) (v : ℤ) :
    reaches x (max lowerTau (min upperTau v)) = reaches x v := by
  unfold reaches
  have hlow := hx.1
  have hhigh := hx.2
  rw [decide_eq_decide, le_max_iff, le_min_iff]
  omega

/-- **The votes of what an interval contributes.** -/
theorem votes_contribution (hx : IsLevel x) (times : List ℕ) (tsStart tsEnd : ℕ) (isClient : Bool) :
    (History.contribution times tsStart tsEnd isClient).reverse.map (reaches x) =
      closing x (reaches x (Adaptation.fallbackTau isClient tsStart tsEnd)) [] times := by
  unfold History.contribution closing
  dsimp only
  rw [List.length_nil, Nat.sub_zero]
  by_cases hshort : times.length < 2
  · have hnil : Samples.intervals (times.take arrSize) = [] := by
      rw [intervals_eq_nil_iff, List.length_take]
      omega
    rw [if_pos hshort, hnil]
    simp [reaches_clamp hx]
  · have hne : Samples.intervals (times.take arrSize) ≠ [] := by
      rw [Ne, intervals_eq_nil_iff, List.length_take]
      unfold arrSize
      omega
    rw [if_neg hshort, if_neg (by simpa using hne), List.append_nil, List.map_reverse, List.map_map,
      List.map_map]
    congr 1
    refine List.map_congr_left fun gap _ => ?_
    show reaches x (max lowerTau (min upperTau _)) = vote x _ gap
    rw [reaches_clamp hx]
    show reaches x (if gap = 0 then _ else gap) = if gap = 0 then _ else reaches x gap
    exact apply_ite (reaches x) _ _ _

theorem append_take_take {α : Type*} (l l' : List α) (n : ℕ) :
    (l ++ l'.take n).take n = (l ++ l').take n := by
  induction l generalizing n with
  | nil => simp [List.take_take]
  | cons a l ih =>
    cases n with
    | zero => rfl
    | succ n =>
      rw [List.cons_append, List.cons_append, List.take_succ_cons, List.take_succ_cons]
      refine congrArg (a :: ·) ?_
      rw [List.take_append, List.take_append, List.take_take]
      congr 2
      omega

/-- The votes after an interval. -/
theorem Samples.Kept.votes_updateTauInterval (h : s.Kept) (hx : IsLevel x) {tsStart tsEnd : ℕ}
    (hlt : tsStart < tsEnd) (real : ℤ) (isClient : Bool) :
    (s.updateTauInterval tsStart tsEnd real isClient).votes x =
      (closing x (reaches x (Adaptation.fallbackTau isClient tsStart tsEnd)) []
        (if real > 0 then tsEnd :: s.times else s.times) ++ s.votes x).take arrSize := by
  rw [h.updateTauInterval_eq hlt]
  unfold Samples.votes
  rw [List.map_take, List.map_append, votes_contribution hx]

theorem Samples.Kept.insertTime (h : s.Kept) (time : ℕ) : (s.insertTime time).Kept :=
  ⟨List.length_take_le _ _, h.taus, h.lower, h.upper⟩

theorem Samples.Kept.updateTauInterval (h : s.Kept) (tsStart tsEnd : ℕ) (real : ℤ)
    (isClient : Bool) : (s.updateTauInterval tsStart tsEnd real isClient).Kept := by
  by_cases hlt : tsStart < tsEnd
  · rw [h.updateTauInterval_eq hlt]
    refine ⟨Nat.zero_le _, List.length_take_le _ _, fun v hv => ?_, fun v hv => ?_⟩
    all_goals
      rcases List.mem_append.mp (List.mem_of_mem_take hv) with hnew | hold
    · exact clamped_contribution (List.mem_reverse.mp hnew)
    · exact h.lower v hold
    · obtain ⟨w, -, rfl⟩ := List.mem_map.mp (List.mem_reverse.mp hnew)
      exact max_le (by decide) (min_le_left _ _)
    · exact h.upper v hold
  · unfold Samples.updateTauInterval
    rw [if_pos (not_lt.mp hlt)]
    exact h

theorem Samples.Kept.clear (h : s.Kept) : Samples.Kept { s with taus := [] } :=
  ⟨h.times, Nat.zero_le _, fun _ hv => (nomatch hv), fun _ hv => (nomatch hv)⟩

/-- Closing an interval: the votes of its samples come in front of the pending ones. -/
theorem Alike.close {s t s' t' : Samples} (h : Alike s t) {f : ℕ → Bool}
    (hs : s'.times = [] ∧ ∀ x, IsLevel x → s'.votes x =
      (closing x (f x) [] s.times ++ s.votes x).take arrSize)
    (ht : t'.times = [] ∧ ∀ x, IsLevel x → t'.votes x =
      (closing x (f x) [] t.times ++ t.votes x).take arrSize) : Alike s' t' := by
  refine ⟨by rw [hs.1, ht.1], fun x hx => ?_, fun x g later new hx _ => ?_,
    fun x g later new _ _ => ?_⟩
  · rw [hs.2 x hx, ht.2 x hx]
    exact h.closed x (f x) [] [] hx Adaptation.arrSize_pos
  · -- no send time is pending any more: what follows is the same for both
    unfold SameMajority
    rw [hs.1, ht.1, hs.2 x hx, ht.2 x hx, append_take_take, append_take_take, ← List.append_assoc,
      ← List.append_assoc]
    exact h.closed x (f x) (later ++ closing x g new []) [] hx Adaptation.arrSize_pos
  · rw [hs.1, ht.1]
    exact Iff.rfl

theorem Alike.updateTauInterval (h : Alike s t) (hs : s.Kept) (ht : t.Kept) (tsStart tsEnd : ℕ)
    (real : ℤ) (isClient : Bool) :
    Alike (s.updateTauInterval tsStart tsEnd real isClient)
      (t.updateTauInterval tsStart tsEnd real isClient) := by
  by_cases hlt : tsStart < tsEnd
  · have hclosed : ∀ {r : Samples}, r.Kept →
        (r.updateTauInterval tsStart tsEnd real isClient).times =
        [] := fun hr => by rw [hr.updateTauInterval_eq hlt]
    by_cases hreal : real > 0
    · -- the end of the interval is a send time as well
      refine (h.insertTime tsEnd).close
        (f := fun x => reaches x (Adaptation.fallbackTau isClient tsStart tsEnd))
        ⟨hclosed hs, fun x hx => ?_⟩ ⟨hclosed ht, fun x hx => ?_⟩
      · rw [hs.votes_updateTauInterval hx hlt, if_pos hreal, ← closing_take]
        rfl
      · rw [ht.votes_updateTauInterval hx hlt, if_pos hreal, ← closing_take]
        rfl
    · refine h.close (f := fun x => reaches x (Adaptation.fallbackTau isClient tsStart tsEnd))
        ⟨hclosed hs, fun x hx => ?_⟩ ⟨hclosed ht, fun x hx => ?_⟩
      · rw [hs.votes_updateTauInterval hx hlt, if_neg hreal]
      · rw [ht.votes_updateTauInterval hx hlt, if_neg hreal]
  · unfold Samples.updateTauInterval
    rw [if_pos (not_lt.mp hlt), if_pos (not_lt.mp hlt)]
    exact h

/-- A median clears the pending intervals. -/
theorem Alike.clear {s t : Samples} (h : Alike s t) :
    Alike { s with taus := [] } { t with taus := [] } := by
  refine ⟨h.newest, fun _ _ => Iff.rfl, fun x f later new hx hnew => ?_, h.cleared⟩
  show SameMajority (_ ++ []) (_ ++ [])
  rw [List.append_nil, List.append_nil]
  exact h.cleared x f later new hx hnew

/-- The pending samples after a call of a loop with the given boundary. -/
def Samples.call (s : Samples) (boundary : ℤ) : RateCall → Samples
  | .insertTime time => s.insertTime time
  | .updateTauInterval tsStart tsEnd real isClient =>
    s.updateTauInterval tsStart tsEnd real isClient
  | .updateTauMedian total => if total < boundary then s else { s with taus := [] }
  | .idleReset => s

theorem Samples.Kept.call {s : Samples} (h : s.Kept) (boundary : ℤ) (c : RateCall) :
    (s.call boundary c).Kept := by
  cases c with
  | insertTime time => exact h.insertTime time
  | updateTauInterval tsStart tsEnd real isClient =>
    exact h.updateTauInterval tsStart tsEnd real isClient
  | updateTauMedian total =>
    by_cases hlt : total < boundary
    · simpa [Samples.call, hlt] using h
    · simpa [Samples.call, hlt] using h.clear
  | idleReset => exact h

/-- **No call makes a difference between samples that are alike.** -/
theorem Alike.call {s t : Samples} (h : Alike s t) (hs : s.Kept) (ht : t.Kept) (boundary : ℤ)
    (c : RateCall) : Alike (s.call boundary c) (t.call boundary c) := by
  cases c with
  | insertTime time => exact h.insertTime time
  | updateTauInterval tsStart tsEnd real isClient =>
    exact h.updateTauInterval hs ht tsStart tsEnd real isClient
  | updateTauMedian total =>
    by_cases hlt : total < boundary
    · simpa [Samples.call, hlt] using h
    · simpa [Samples.call, hlt] using h.clear
  | idleReset => exact h

/-! ## Histories with the same periods -/

namespace Rate

/-- The pending samples of the rings. -/
def samples (s : Rate) : Samples := s.adapt.samples

/-- The rings are in order. -/
structure Sound (s : Rate) : Prop where
  inv : s.adapt.Inv
  kept : s.samples.Kept

theorem sound_init : Sound {} :=
  ⟨Adaptation.inv_init, Nat.zero_le _, Nat.zero_le _, fun _ hv => (nomatch hv),
    fun _ hv => (nomatch hv)⟩

/-- What a call does to the rings, the pending samples and the period. -/
theorem call_eq {s : Rate} (h : s.Sound) (c : RateCall) :
    (s.call c).adapt.Inv ∧ (s.call c).samples = s.samples.call s.boundary c ∧
      (s.call c).tau = match c with
        | .updateTauMedian total => if total < s.boundary then s.tau else s.samples.median
        | .idleReset => initialTau
        | _ => s.tau := by
  cases c with
  | insertTime time =>
    exact ⟨h.inv.insertTime time, Adaptation.samples_insertTime h.inv time, rfl⟩
  | updateTauInterval tsStart tsEnd real isClient =>
    obtain ⟨hinv, heq⟩ := Adaptation.samples_updateTauInterval h.inv tsStart tsEnd real isClient
    exact ⟨hinv, heq, rfl⟩
  | updateTauMedian total =>
    obtain ⟨hinv, heq⟩ := Adaptation.samples_updateTauMedian h.inv s.tau s.boundary total
    exact ⟨hinv, (congrArg (fun r => r.2.2) heq).trans
      (apply_ite (fun r : ℤ × ℤ × Samples => r.2.2) _ _ _),
      (congrArg Prod.fst heq).trans (apply_ite Prod.fst _ _ _)⟩
  | idleReset => exact ⟨h.inv, rfl, rfl⟩

/-- The boundary does not depend on the rings. -/
theorem boundary_call {s t : Rate} (h : s.boundary = t.boundary) (c : RateCall) :
    (s.call c).boundary = (t.call c).boundary := by
  cases c with
  | updateTauMedian total =>
    unfold call Adaptation.updateTauMedian
    rw [h]
    dsimp only
    split <;> rfl
  | idleReset => rfl
  | _ => exact h

theorem Sound.call {s : Rate} (h : s.Sound) (c : RateCall) : (s.call c).Sound := by
  obtain ⟨hinv, hsamples, -⟩ := call_eq h c
  refine ⟨hinv, ?_⟩
  rw [hsamples]
  exact h.kept.call s.boundary c

theorem sound_run {s : Rate} (h : s.Sound) (calls : List RateCall) : (s.run calls).Sound := by
  induction calls generalizing s with
  | nil => exact h
  | cons c calls ih => exact ih (h.call c)

/-- Two states with the same statics and pending samples that cannot be told apart. -/
structure Similar (s t : Rate) : Prop where
  left : s.Sound
  right : t.Sound
  alike : Alike s.samples t.samples
  tau : s.tau = t.tau
  boundary : s.boundary = t.boundary

theorem Similar.call {s t : Rate} (h : Similar s t) (c : RateCall) :
    Similar (s.call c) (t.call c) := by
  obtain ⟨-, hs, hstau⟩ := call_eq h.left c
  obtain ⟨-, ht, httau⟩ := call_eq h.right c
  refine ⟨h.left.call c, h.right.call c, ?_, ?_, boundary_call h.boundary c⟩
  · rw [hs, ht, ← h.boundary]
    exact h.alike.call h.left.kept h.right.kept s.boundary c
  · have hmedian := (median_eq_iff h.left.kept h.right.kept).mpr h.alike.median
    rw [hstau, httau, h.boundary, h.tau, hmedian]

theorem Similar.taus {s t : Rate} (h : Similar s t) (calls : List RateCall) :
    s.taus calls = t.taus calls := by
  induction calls generalizing s t with
  | nil => rfl
  | cons c calls ih =>
    have hrest := ih (h.call c)
    cases c with
    | updateTauMedian total => exact congrArg₂ List.cons (h.call _).tau hrest
    | _ => exact hrest

/-! ## Calls that show the votes -/

/-- A sample that votes `b` on every level. -/
def voter (b : Bool) : ℕ := if b then 32768 else 4096

theorem reaches_voter {x : ℕ} (hx : IsLevel x) (b : Bool) : reaches x (voter b) = b := by
  unfold reaches
  have hlow : (4096 : ℤ) < 2 ^ x := hx.1
  have hhigh : (2 : ℤ) ^ x ≤ 32768 := hx.2
  cases b with
  | true => exact decide_eq_true hhigh
  | false => exact decide_eq_false (not_le.mpr hlow)

theorem interval_voter (b : Bool) (t0 : ℕ) : Adaptation.interval (t0 + voter b) t0 = voter b := by
  have hgap : ((t0 + voter b : ℕ) : ℤ) - t0 = voter b := by
    push_cast
    ring
  unfold Adaptation.interval
  rw [hgap]
  cases b <;> rfl

/-- An interval without a send of its own, which votes `f`. -/
def closeCall (f : Bool) : RateCall := .updateTauInterval 0 (voter f) 0 false

/-- Such an interval, and one more for each of the votes `later`. -/
def probe (f : Bool) (later : List Bool) : List RateCall :=
  closeCall f :: later.reverse.map closeCall

theorem votes_close {r : Rate} (hr : r.Sound) (f : Bool) :
    (r.call (closeCall f)).samples.times = [] ∧ ∀ x, IsLevel x →
      (r.call (closeCall f)).samples.votes x =
        (closing x f [] r.samples.times ++ r.samples.votes x).take arrSize := by
  have hlt : 0 < voter f := by cases f <;> decide
  have hgap := interval_voter f 0
  rw [Nat.zero_add] at hgap
  rw [(call_eq hr _).2.1]
  unfold closeCall Samples.call
  dsimp only
  refine ⟨by rw [hr.kept.updateTauInterval_eq hlt], fun x hx => ?_⟩
  rw [hr.kept.votes_updateTauInterval hx hlt, if_neg (lt_irrefl 0), Adaptation.fallbackTau,
    if_neg Bool.false_ne_true, hgap, reaches_voter hx]

/-- **The votes after a probe.** -/
theorem votes_probe {r : Rate} (hr : r.Sound) (f : Bool) (later : List Bool) :
    (r.run (probe f later)).samples.times = [] ∧ ∀ x, IsLevel x →
      (r.run (probe f later)).samples.votes x =
        (later ++ closing x f [] r.samples.times ++ r.samples.votes x).take arrSize := by
  induction later with
  | nil => exact votes_close hr f
  | cons b later ih =>
    have hrun : r.run (probe f (b :: later)) = (r.run (probe f later)).call (closeCall b) := by
      simp [run, probe]
    obtain ⟨htimes, hvotes⟩ := votes_close (sound_run hr (probe f later)) b
    rw [hrun]
    refine ⟨htimes, fun x hx => ?_⟩
    rw [hvotes x hx, ih.1, ih.2 x hx, closing_of_short (Or.inl (by decide)), if_pos rfl,
      append_take_take]
    rfl

/-! ## Telling pending samples apart -/

/-- Two states with the same boundary that return the same periods, whatever the calls. -/
structure Observed (s t : Rate) : Prop where
  left : s.Sound
  right : t.Sound
  boundary : s.boundary = t.boundary
  same : ∀ later, s.taus later = t.taus later

namespace Observed

variable {s t : Rate}

theorem call (h : Observed s t) (c : RateCall) : Observed (s.call c) (t.call c) := by
  refine ⟨h.left.call c, h.right.call c, boundary_call h.boundary c, fun later => ?_⟩
  have hall := h.same (c :: later)
  cases c with
  | updateTauMedian total => exact (List.cons.inj hall).2
  | _ => exact hall

theorem run (h : Observed s t) (calls : List RateCall) : Observed (s.run calls) (t.run calls) := by
  induction calls generalizing s t with
  | nil => exact h
  | cons c calls ih => exact ih (h.call c)

/-- A median at the boundary shows the majorities. -/
theorem median (h : Observed s t) (x : ℕ) (hx : IsLevel x) :
    Majority (s.samples.votes x) ↔ Majority (t.samples.votes x) := by
  have hall := (List.cons.inj (h.same [.updateTauMedian s.boundary])).1
  rw [(call_eq h.left _).2.2, (call_eq h.right _).2.2] at hall
  dsimp only at hall
  rw [← h.boundary, if_neg (lt_irrefl _), if_neg (lt_irrefl _)] at hall
  exact (median_eq_iff h.left.kept h.right.kept).mp hall x hx

/-- The states after a median at the boundary, which clears the pending intervals. -/
theorem clear (h : Observed s t) : ∃ s' t', Observed s' t' ∧
    s'.samples = { s.samples with taus := [] } ∧ t'.samples = { t.samples with taus := [] } := by
  refine ⟨_, _, h.call (.updateTauMedian s.boundary), ?_, ?_⟩
  · rw [(call_eq h.left _).2.1]
    exact if_neg (lt_irrefl _)
  · rw [(call_eq h.right _).2.1, ← h.boundary]
    exact if_neg (lt_irrefl _)

/-- The states after a send time. -/
theorem insertTime (h : Observed s t) (time : ℕ) : ∃ s' t', Observed s' t' ∧
    s'.samples = ⟨(time :: s.samples.times).take arrSize, s.samples.taus⟩ ∧
      t'.samples = ⟨(time :: t.samples.times).take arrSize, t.samples.taus⟩ :=
  ⟨_, _, h.call (.insertTime time), (call_eq h.left (.insertTime time)).2.1,
    (call_eq h.right (.insertTime time)).2.1⟩

/-- The votes after an interval and further samples. -/
theorem closed_nil (h : Observed s t) {x : ℕ} (hx : IsLevel x) (f : Bool) (later : List Bool) :
    SameMajority (later ++ closing x f [] s.samples.times ++ s.samples.votes x)
      (later ++ closing x f [] t.samples.times ++ t.samples.votes x) := by
  have hmedian := (h.run (probe f later)).median x hx
  rwa [(votes_probe h.left f later).2 x hx, (votes_probe h.right f later).2 x hx] at hmedian

/-- The same with new send times, behind a newest one that agrees.  Each of them is as far from the
one before as its vote says. -/
theorem closed_cons (h : Observed s t) {x : ℕ} (hx : IsLevel x) (f : Bool) (later new : List Bool)
    (hnew : new.length < arrSize) {t0 t0' : ℕ} {rest rest' : List ℕ}
    (hs : s.samples.times = t0 :: rest) (ht : t.samples.times = t0' :: rest')
    (hmod : t0 % 2 ^ 64 = t0' % 2 ^ 64) :
    SameMajority (later ++ closing x f new s.samples.times ++ s.samples.votes x)
      (later ++ closing x f new t.samples.times ++ t.samples.votes x) := by
  induction new generalizing s t t0 t0' rest rest' with
  | nil => exact h.closed_nil hx f later
  | cons b new ih =>
    rw [List.length_cons] at hnew
    obtain ⟨s1, t1, h1, hs1, ht1⟩ := h.insertTime (t0 + voter b)
    have hgap : vote x f (Adaptation.interval (t0 + voter b) t0) = b := by
      rw [interval_voter]
      unfold vote
      rw [if_neg (by cases b <;> decide)]
      exact reaches_voter hx b
    rw [hs] at hs1
    rw [ht] at ht1
    have hvotes := ih h1 (by omega) (congrArg Samples.times hs1) (congrArg Samples.times ht1) rfl
    rw [hs1, ht1] at hvotes
    dsimp only [Samples.votes] at hvotes
    rwa [closing_cons _ _ _ hnew, closing_cons _ _ _ hnew, ← interval_congr _ hmod, hgap, ← hs,
      ← ht] at hvotes

/-! ### The newest send time -/

/-- Votes that are balanced. -/
def evenVotes (m : ℕ) : List Bool := List.replicate m true ++ List.replicate m false

theorem length_evenVotes (m : ℕ) : (evenVotes m).length = 2 * m := by
  rw [evenVotes, List.length_append, List.length_replicate, List.length_replicate]
  omega

theorem count_evenVotes (m : ℕ) : (evenVotes m).count true = m := by
  rw [evenVotes, List.count_append, List.count_replicate_self, List.count_replicate]
  rfl

theorem majority_evenVotes (m : ℕ) : Majority (evenVotes m) := by
  unfold Majority
  rw [length_evenVotes, count_evenVotes]

theorem majority_cons_evenVotes (b : Bool) (m : ℕ) : Majority (b :: evenVotes m) ↔ b = true := by
  unfold Majority
  rw [List.length_cons, length_evenVotes, List.count_cons, count_evenVotes]
  cases b <;> simp

theorem isLevel_thirteen : IsLevel 13 := ⟨by decide, by decide⟩

/-- Further send times fill the ring with balanced votes, and the gap to the newest one decides. -/
theorem majority_gap (time : ℕ) (times : List ℕ) :
    Majority (([] ++ closing 13 false (evenVotes 499) ((time :: times).take arrSize) ++ []).take
        arrSize) ↔
      ∀ t0 ∈ times.head?, vote 13 false (Adaptation.interval time t0) = true := by
  have hlen : (evenVotes 499).length + 2 = arrSize := by rw [length_evenVotes]; rfl
  rw [List.append_nil, List.nil_append]
  cases times with
  | nil =>
    have hne : evenVotes 499 ≠ [] := by
      intro hnil
      rw [hnil] at hlen
      cases hlen
    rw [closing_of_short (Or.inl (by rw [List.length_take]; simp)), if_neg hne,
      List.take_of_length_le (by omega)]
    exact iff_of_true (majority_evenVotes _) (by simp)
  | cons t0 rest =>
    rw [closing_cons _ _ _ (by omega),
      closing_of_short (Or.inr (by rw [List.length_cons]; omega)),
      if_neg (List.cons_ne_nil _ _), List.take_of_length_le (by rw [List.length_cons]; omega),
      majority_cons_evenVotes]
    simp

/-- **A new send time is seen against the newest one.** -/
theorem gap (h : Observed s t) (time : ℕ) :
    (∀ t0 ∈ s.samples.times.head?, vote 13 false (Adaptation.interval time t0) = true) ↔
      ∀ t0 ∈ t.samples.times.head?, vote 13 false (Adaptation.interval time t0) = true := by
  obtain ⟨s1, t1, h1, hs1, ht1⟩ := h.clear
  obtain ⟨s2, t2, h2, hs2, ht2⟩ := h1.insertTime time
  rw [hs1] at hs2
  rw [ht1] at ht2
  have hlen : (evenVotes 499).length < arrSize := by rw [length_evenVotes]; decide
  have hvotes := h2.closed_cons isLevel_thirteen false [] (evenVotes 499) hlen
    (congrArg Samples.times hs2) (congrArg Samples.times ht2) rfl
  rw [hs2, ht2] at hvotes
  exact ((majority_gap time _).symm.trans hvotes).trans (majority_gap time _)

/-- A send time that tells two others apart by the gap to them. -/
theorem exists_gap {a b : ℕ} (h : a % 2 ^ 64 ≠ b % 2 ^ 64) :
    ∃ time, (vote 13 false (Adaptation.interval time a) = true) ≠
      (vote 13 false (Adaptation.interval time b) = true) := by
  have hvote : ∀ gap : ℤ, vote 13 false gap = true ↔ 8192 ≤ gap := by
    intro gap
    unfold vote reaches
    split
    · simp
      omega
    · simp
  simp only [hvote, ne_eq, propext_iff]
  -- the later of the two, modulo the range of the clock, is less than 8192 behind
  by_cases hlater : (((b : ℤ) - a) % 2 ^ 64) < 2 ^ 63
  · refine ⟨a + 8192, ?_⟩
    unfold Adaptation.interval Int.bmod
    push_cast
    split_ifs <;> omega
  · refine ⟨b + 8192, ?_⟩
    unfold Adaptation.interval Int.bmod
    push_cast
    split_ifs <;> omega

/-- **The newest send times agree.** -/
theorem newest (h : Observed s t) :
    s.samples.times.head?.map (· % 2 ^ 64) = t.samples.times.head?.map (· % 2 ^ 64) := by
  have hgap := h.gap
  cases hs : s.samples.times.head? with
  | none =>
    cases ht : t.samples.times.head? with
    | none => rfl
    | some b =>
      rw [hs, ht] at hgap
      have hvote := (hgap (b + voter false)).mp (by simp) b rfl
      rw [interval_voter] at hvote
      cases hvote
  | some a =>
    cases ht : t.samples.times.head? with
    | none =>
      rw [hs, ht] at hgap
      have hvote := (hgap (a + voter false)).mpr (by simp) a rfl
      rw [interval_voter] at hvote
      cases hvote
    | some b =>
      rw [hs, ht] at hgap
      refine congrArg some ?_
      by_contra hne
      obtain ⟨time, htime⟩ := exists_gap hne
      exact htime (propext (by simpa using hgap time))

/-- **What cannot be told apart by calls is alike.** -/
theorem closed (h : Observed s t) {x : ℕ} (hx : IsLevel x) (f : Bool) (later new : List Bool)
    (hnew : new.length < arrSize) :
    SameMajority (later ++ closing x f new s.samples.times ++ s.samples.votes x)
      (later ++ closing x f new t.samples.times ++ t.samples.votes x) := by
  have hnewest := h.newest
  cases hs : s.samples.times with
  | nil =>
    have ht : t.samples.times = [] := by
      rw [hs] at hnewest
      simpa using hnewest.symm
    cases new with
    | nil =>
      have hvotes := h.closed_nil hx f later
      rwa [hs] at hvotes
    | cons b new =>
      -- a first send time, from which the gaps are counted
      obtain ⟨s1, t1, h1, hs1, ht1⟩ := h.insertTime 0
      rw [hs] at hs1
      rw [ht] at ht1
      have hvotes := h1.closed_cons hx f later (b :: new) hnew (congrArg Samples.times hs1)
        (congrArg Samples.times ht1) rfl
      rw [hs1, ht1] at hvotes
      dsimp only at hvotes
      rw [ht, closing_of_short (Or.inl (by decide))]
      rwa [closing_of_short (Or.inl (by decide))] at hvotes
  | cons a rest =>
    cases ht : t.samples.times with
    | nil =>
      rw [hs, ht] at hnewest
      cases hnewest
    | cons b rest' =>
      rw [hs, ht] at hnewest
      have hvotes := h.closed_cons hx f later new hnew hs ht (Option.some.inj hnewest)
      rwa [hs, ht] at hvotes

theorem alike (h : Observed s t) : Alike s.samples t.samples := by
  refine ⟨h.newest, h.median, fun x f later new hx hnew => h.closed hx f later new hnew,
    fun x f later new hx hnew => ?_⟩
  obtain ⟨s1, t1, h1, hs1, ht1⟩ := h.clear
  have hvotes := h1.closed hx f later new hnew
  rw [hs1, ht1] at hvotes
  simpa [Samples.votes] using hvotes

end Observed

end Rate

/-! ## Two histories -/

end CSBuFLO
