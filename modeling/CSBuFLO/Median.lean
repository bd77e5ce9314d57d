/-
# The adaptation code on plain lists

The rings of the adaptation code keep the last `ARRSIZE` send times and the last `ARRSIZE`
samples.  Here the same calls work on lists that keep everything: a send time is put in front of
the others, an interval puts its samples in front of the others, and a median looks at the first
`ARRSIZE` samples of its list.

`adaptation_refines` says that the rings hold the first part of the lists after every sequence of
calls, and that the period returned is the power of two below the element in the middle of what
the ring holds.  That is not the middle of all samples once there are more than `ARRSIZE`.
-/
import CSBuFLO.Rate

namespace CSBuFLO

/-! ## Calls -/

/-- A call into the adaptation code. -/
inductive AdaptCall where
  | insertTime (time : ℕ)
  | updateTauInterval (tsStart tsEnd : ℕ) (curTotalRealsentBytes : ℤ) (isClient : Bool)
  | updateTauMedian (tau boundary totalSentBytes : ℤ)

/-- The rings after a call. -/
def Adaptation.call (a : Adaptation) : AdaptCall → Adaptation
  | .insertTime time => a.insertTime time
  | .updateTauInterval tsStart tsEnd real isClient =>
    a.updateTauInterval tsStart tsEnd real isClient
  | .updateTauMedian tau boundary total => (a.updateTauMedian tau boundary total).2.2

/-- The rings after a sequence of calls. -/
def Adaptation.after (calls : List AdaptCall) : Adaptation := calls.foldl Adaptation.call {}

/-! ## The lists -/

/-- Everything recorded, newest first: the send times since the last interval, and the samples
since the last median. -/
structure History where
  times : List ℕ := []
  taus : List ℤ := []

namespace History

/-- The samples an interval contributes when `times` are recorded, in the order in which it
contributes them: the differences of the last `ARRSIZE` times, newest first, with a replacement
for zero; the replacement alone if there is no difference. -/
def contribution (times : List ℕ) (tsStart tsEnd : ℕ) (isClient : Bool) : List ℤ :=
  let replacement := Adaptation.fallbackTau isClient tsStart tsEnd
  let values :=
    if times.length < 2 then [replacement]
    else (Samples.intervals (times.take arrSize)).map fun iv => if iv = 0 then replacement else iv
  values.map fun value => max lowerTau (min upperTau value)

/-- What a call records. -/
def call (h : History) : AdaptCall → History
  | .insertTime time => { h with times := time :: h.times }
  | .updateTauInterval tsStart tsEnd real isClient =>
    if tsStart < tsEnd then
      let times := if real > 0 then tsEnd :: h.times else h.times
      { times := [], taus := (contribution times tsStart tsEnd isClient).reverse ++ h.taus }
    else h
  | .updateTauMedian _ boundary total => if total < boundary then h else { h with taus := [] }

/-- What a sequence of calls records. -/
def after (calls : List AdaptCall) : History := calls.foldl call {}

/-- The part of the lists the rings have room for. -/
def window (h : History) : Samples := ⟨h.times.take arrSize, h.taus.take arrSize⟩

/-- The samples a median looks at, sorted. -/
def sorted (h : History) : List ℤ := (h.taus.take arrSize).mergeSort fun x y => decide (x ≤ y)

end History

/-! ## The rings hold the first part of the lists -/

theorem take_cons_take {α : Type} (x : α) (l : List α) (n : ℕ) :
    (x :: l.take n).take n = (x :: l).take n := by
  cases n with
  | zero => rfl
  | succ n => simp [List.take_take]

theorem clampTau_eq (value : ℤ) :
    Adaptation.clampTau value = max lowerTau (min upperTau value) := by
  unfold Adaptation.clampTau lowerTau upperTau
  split_ifs <;> omega

theorem intervals_eq_nil_iff (l : List ℕ) : Samples.intervals l = [] ↔ l.length < 2 := by
  match l with
  | [] => simp [Samples.intervals]
  | [x] => simp [Samples.intervals]
  | x :: y :: rest => simp [Samples.intervals]

/-- Recording samples one after the other. -/
theorem foldl_pushTau (f : ℤ → ℤ) (values : List ℤ) {s : Samples} {l : List ℤ}
    (h : s.taus = l.take arrSize) :
    values.foldl (fun s value => s.pushTau (f value)) s =
      ⟨s.times,
        ((values.map fun value => Adaptation.clampTau (f value)).reverse ++ l).take arrSize⟩ := by
  induction values generalizing s l with
  | nil =>
    rw [List.foldl_nil, List.map_nil, List.reverse_nil, List.nil_append, ← h]
  | cons value values ih =>
    have hpush : (s.pushTau (f value)).taus =
        (Adaptation.clampTau (f value) :: l).take arrSize := by
      unfold Samples.pushTau
      rw [h]
      exact take_cons_take _ _ _
    rw [List.foldl_cons, ih hpush, List.map_cons, List.reverse_cons, List.append_assoc]
    rfl

/-- **An interval on the part the rings hold.** -/
theorem window_updateTauInterval (h : History) (tsStart tsEnd : ℕ) (real : ℤ) (isClient : Bool) :
    h.window.updateTauInterval tsStart tsEnd real isClient =
      (h.call (.updateTauInterval tsStart tsEnd real isClient)).window := by
  unfold Samples.updateTauInterval History.call
  by_cases hstart : tsStart ≥ tsEnd
  · dsimp only
    rw [if_pos hstart, if_neg (not_lt.mpr hstart)]
  dsimp only
  rw [if_neg hstart, if_pos (not_le.mp hstart)]
  have hinsert : (if real > 0 then h.window.insertTime tsEnd else h.window) =
      (⟨(if real > 0 then tsEnd :: h.times else h.times).take arrSize, h.taus.take arrSize⟩ :
        Samples) := by
    split
    · exact congrArg (Samples.mk · _) (take_cons_take _ _ _)
    · rfl
  rw [hinsert]
  generalize (if real > 0 then tsEnd :: h.times else h.times) = times
  dsimp only
  have hshort : (times.take arrSize).length < 2 ↔ times.length < 2 := by
    rw [List.length_take]
    unfold arrSize
    omega
  unfold History.contribution
  dsimp only
  by_cases hnil : Samples.intervals (times.take arrSize) = []
  · rw [if_pos hnil, if_pos (hshort.mp ((intervals_eq_nil_iff _).mp hnil))]
    have hpush := foldl_pushTau id [Adaptation.fallbackTau isClient tsStart tsEnd]
      (s := ⟨[], h.taus.take arrSize⟩) (l := h.taus) rfl
    simp only [List.foldl_cons, List.foldl_nil, List.map_cons, List.map_nil, id_eq,
      clampTau_eq] at hpush ⊢
    exact hpush
  · rw [if_neg hnil, if_neg (fun hlt => hnil ((intervals_eq_nil_iff _).mpr (hshort.mpr hlt)))]
    have hpush := foldl_pushTau
      (fun iv => if iv = 0 then Adaptation.fallbackTau isClient tsStart tsEnd else iv)
      (Samples.intervals (times.take arrSize)) (s := ⟨[], h.taus.take arrSize⟩) (l := h.taus) rfl
    simp only [clampTau_eq] at hpush
    rw [hpush, List.map_map]
    rfl

/-- The rings hold the first part of the lists, and every sample is clamped. -/
structure Refines (a : Adaptation) (h : History) : Prop where
  inv : a.Inv
  samples : a.samples = h.window
  clamped : ∀ value ∈ h.taus, lowerTau ≤ value

theorem refines_init : Refines {} {} := ⟨Adaptation.inv_init, rfl, fun _ h => (nomatch h)⟩

theorem clamped_contribution {times : List ℕ} {tsStart tsEnd : ℕ} {isClient : Bool} {value : ℤ}
    (h : value ∈ History.contribution times tsStart tsEnd isClient) : lowerTau ≤ value := by
  obtain ⟨x, -, rfl⟩ := List.mem_map.mp h
  exact le_max_left _ _

/-- **Every call keeps the refinement.** -/
theorem Refines.call {a : Adaptation} {h : History} (hr : Refines a h) (c : AdaptCall) :
    Refines (a.call c) (h.call c) := by
  cases c with
  | insertTime time =>
    refine ⟨hr.inv.insertTime time, ?_, hr.clamped⟩
    refine (Adaptation.samples_insertTime hr.inv time).trans ?_
    rw [hr.samples]
    exact congrArg (Samples.mk · _) (take_cons_take _ _ _)
  | updateTauInterval tsStart tsEnd real isClient =>
    obtain ⟨hinv, hsamples⟩ :=
      Adaptation.samples_updateTauInterval hr.inv tsStart tsEnd real isClient
    refine ⟨hinv, ?_, ?_⟩
    · rw [← window_updateTauInterval, ← hr.samples]
      exact hsamples
    · intro value hvalue
      unfold History.call at hvalue
      dsimp only at hvalue
      split at hvalue
      · rcases List.mem_append.mp hvalue with hnew | hold
        · exact clamped_contribution (List.mem_reverse.mp hnew)
        · exact hr.clamped value hold
      · exact hr.clamped value hvalue
  | updateTauMedian tau boundary total =>
    obtain ⟨hinv, heq⟩ := Adaptation.samples_updateTauMedian hr.inv tau boundary total
    have hsamples := congrArg (fun t => t.2.2) heq
    unfold Adaptation.call History.call
    dsimp only at hsamples ⊢
    by_cases hlt : total < boundary
    · rw [if_pos hlt] at hsamples ⊢
      exact ⟨hinv, hsamples.trans hr.samples, hr.clamped⟩
    · rw [if_neg hlt] at hsamples ⊢
      refine ⟨hinv, hsamples.trans ?_, fun _ h => (nomatch h)⟩
      rw [hr.samples]
      rfl

/-- After every sequence of calls the rings hold the first part of the lists. -/
theorem refines_after (calls : List AdaptCall) :
    Refines (Adaptation.after calls) (History.after calls) := by
  have hfold : ∀ (l : List AdaptCall) (a : Adaptation) (h : History), Refines a h →
      Refines (l.foldl Adaptation.call a) (l.foldl History.call h) := by
    intro l
    induction l with
    | nil => exact fun a h hr => hr
    | cons c l ih => exact fun a h hr => ih _ _ (hr.call c)
  exact hfold calls {} {} refines_init

/-! ## The median -/

/-- The element in the middle of what the ring holds. -/
theorem exists_middle {h : History} (hne : h.taus ≠ [])
    (hclamped : ∀ value ∈ h.taus, lowerTau ≤ value) :
    ∃ x, h.sorted[min h.taus.length arrSize / 2]? = some x ∧ lowerTau ≤ x := by
  have hlen : h.sorted.length = min h.taus.length arrSize := by
    unfold History.sorted
    rw [List.length_mergeSort, List.length_take, Nat.min_comm]
  have hpos : 0 < h.taus.length := List.length_pos_iff.mpr hne
  have hlt : min h.taus.length arrSize / 2 < h.sorted.length := by
    have := Adaptation.arrSize_pos
    omega
  refine ⟨_, List.getElem?_eq_getElem hlt, hclamped _ ?_⟩
  have hmem : h.sorted[min h.taus.length arrSize / 2] ∈ h.taus.take arrSize :=
    (List.mergeSort_perm _ _).mem_iff.mp (List.getElem_mem hlt)
  exact List.mem_of_mem_take hmem

/-- The largest power of two that is not above a positive number. -/
theorem isGreatest_pow_log {x : ℤ} (hx : 0 < x) :
    IsGreatest {y : ℤ | (∃ k : ℕ, y = 2 ^ k) ∧ y ≤ x} (2 ^ Nat.log 2 x.toNat) := by
  have hcast : ∀ k : ℕ, (2 : ℤ) ^ k ≤ x ↔ 2 ^ k ≤ x.toNat := by
    intro k
    rw [← Int.ofNat_le, Int.toNat_of_nonneg hx.le]
    push_cast
    exact Iff.rfl
  constructor
  · exact ⟨⟨_, rfl⟩, (hcast _).mpr (Nat.pow_log_le_self 2 (by omega))⟩
  · rintro y ⟨⟨k, rfl⟩, hle⟩
    have hk : k ≤ Nat.log 2 x.toNat := Nat.le_log_of_pow_le (by decide) ((hcast k).mp hle)
    exact pow_le_pow_right₀ (by decide) hk

/-- Sorting two runs. -/
theorem mergeSort_two_runs {low high : ℤ} (h : low ≤ high) (m n : ℕ) :
    (List.replicate n high ++ List.replicate m low).mergeSort (fun x y => decide (x ≤ y)) =
      List.replicate m low ++ List.replicate n high := by
  refine ((List.mergeSort_perm _ _).trans List.perm_append_comm).eq_of_sortedLE
    List.sortedLE_mergeSort ?_
  rw [List.sortedLE_iff_pairwise, List.pairwise_append]
  refine ⟨List.pairwise_replicate.mpr (Or.inr (le_refl _)),
    List.pairwise_replicate.mpr (Or.inr (le_refl _)), fun x hx y hy => ?_⟩
  rw [List.eq_of_mem_replicate hx, List.eq_of_mem_replicate hy]
  exact h

/-- **The period `update_tau_median` returns**, once its boundary is passed. -/
theorem Refines.median {a : Adaptation} {h : History} (hr : Refines a h)
    (tau : ℤ) {boundary total : ℤ} (hle : boundary ≤ total) :
    (a.updateTauMedian tau boundary total).1 = if h.taus = [] then upperTau
      else 2 ^ Nat.log 2 (h.sorted.getD (min h.taus.length arrSize / 2) 0).toNat := by
  have heq := (Adaptation.samples_updateTauMedian hr.inv tau boundary total).2
  rw [if_neg (not_lt.mpr hle), hr.samples] at heq
  have hnil : h.taus.take arrSize = [] ↔ h.taus = [] := by
    rw [List.take_eq_nil_iff]
    exact or_iff_right (by decide)
  have hmedian : h.window.median = if h.taus = [] then upperTau
      else 2 ^ Nat.log 2 (h.sorted.getD (min h.taus.length arrSize / 2) 0).toNat := by
    unfold Samples.median History.window History.sorted
    dsimp only
    rw [List.length_take, Nat.min_comm arrSize]
    simp only [hnil]
  rw [← hmedian]
  exact congrArg (fun t => t.1) heq

/-- **The adaptation code refines plain lists.**  After every sequence of calls, what
`update_tau_median` sorts are the last `ARRSIZE` samples contributed since the previous median (all
of them if there are fewer); once its boundary is passed it returns the largest power of two not
above the element of rank half the number of these, and `UPPER_TAU` if there is none. -/
theorem adaptation_refines (calls : List AdaptCall) :
    ((List.range (Adaptation.after calls).tauSize).map (Adaptation.after calls).tauArr).Perm
        ((History.after calls).taus.take arrSize) ∧
      ∀ tau boundary total : ℤ, boundary ≤ total →
        ((History.after calls).taus = [] →
          ((Adaptation.after calls).updateTauMedian tau boundary total).1 = upperTau) ∧
        ((History.after calls).taus ≠ [] → ∃ x,
          (History.after calls).sorted[min (History.after calls).taus.length arrSize / 2]? =
            some x ∧
          IsGreatest {y : ℤ | (∃ k : ℕ, y = 2 ^ k) ∧ y ≤ x}
            ((Adaptation.after calls).updateTauMedian tau boundary total).1) := by
  have hr := refines_after calls
  refine ⟨?_, fun tau boundary total hle => ⟨fun hnil => ?_, fun hne => ?_⟩⟩
  · have hsorted := Adaptation.sorted_taus hr.inv
    have hperm := (List.mergeSort_perm ((List.range (Adaptation.after calls).tauSize).map
      (Adaptation.after calls).tauArr) (fun x y => decide (x ≤ y))).symm
    rw [hsorted, hr.samples] at hperm
    exact hperm.trans (List.mergeSort_perm _ _)
  · rw [hr.median tau hle, if_pos hnil]
  · obtain ⟨x, hx, hclamped⟩ := exists_middle hne hr.clamped
    refine ⟨x, hx, ?_⟩
    rw [hr.median tau hle, if_neg hne, List.getD_eq_getElem?_getD, hx, Option.getD_some]
    exact isGreatest_pow_log (lt_of_lt_of_le (by decide) hclamped)

/-- Send times at 1000, 6000 and 9000 give the samples 4096 (for 3000) and 5000. -/
theorem adaptation_refines_threeTimes :
    IsGreatest {y : ℤ | (∃ k : ℕ, y = 2 ^ k) ∧ y ≤ 5000}
      ((Adaptation.after [.insertTime 1000, .insertTime 6000,
        .updateTauInterval 0 9000 1 false]).updateTauMedian 0 16384 20000).1 := by
  obtain ⟨x, hx, hgreatest⟩ := ((adaptation_refines [.insertTime 1000, .insertTime 6000,
    .updateTauInterval 0 9000 1 false]).2 0 16384 20000 (by decide)).2 (by decide)
  have hsorted : (History.after [.insertTime 1000, .insertTime 6000,
      .updateTauInterval 0 9000 1 false]).sorted = [4096, 5000] :=
    mergeSort_two_runs (show (4096 : ℤ) ≤ 5000 by decide) 1 1
  rw [hsorted] at hx
  have hmiddle : x = 5000 := (Option.some.inj hx).symm
  rwa [hmiddle] at hgreatest

/-! ### More than `ARRSIZE` samples -/

/-- Intervals without send times contribute their own length. -/
theorem call_replicate (n : ℕ) {len : ℕ} (hlo : lowerTau ≤ len) (hhi : (len : ℤ) ≤ upperTau)
    (taus : List ℤ) :
    (List.replicate n (AdaptCall.updateTauInterval 0 len 0 false)).foldl History.call
        { times := [], taus := taus } =
      { times := [], taus := List.replicate n (len : ℤ) ++ taus } := by
  induction n generalizing taus with
  | zero => rfl
  | succ n ih =>
    have hlen : Adaptation.interval len 0 = len := by
      unfold Adaptation.interval
      unfold upperTau at hhi
      rw [Nat.cast_zero, sub_zero]
      exact Int.bmod_eq_of_le (by omega) (by omega)
    have hone : History.call { times := [], taus := taus } (.updateTauInterval 0 len 0 false) =
        { times := [], taus := (len : ℤ) :: taus } := by
      have hpos : 0 < len := by
        unfold lowerTau at hlo
        omega
      have hvalue : History.contribution [] 0 len false = [(len : ℤ)] := by
        unfold History.contribution Adaptation.fallbackTau
        dsimp only
        rw [if_pos (by decide), if_neg (by decide), hlen, List.map_singleton, min_eq_right hhi,
          max_eq_right hlo]
      unfold History.call
      dsimp only
      rw [if_pos hpos, if_neg (by decide), hvalue]
      rfl
    rw [List.replicate_succ, List.foldl_cons, hone, ih, List.replicate_succ',
      List.append_assoc]
    rfl

/-- 503 short and then 499 long intervals. -/
def skewed : List AdaptCall :=
  List.replicate 503 (.updateTauInterval 0 4096 0 false) ++
    List.replicate 499 (.updateTauInterval 0 32768 0 false)

theorem taus_skewed : (History.after skewed).taus =
    List.replicate 499 32768 ++ List.replicate 503 4096 := by
  unfold History.after skewed
  rw [List.foldl_append, call_replicate 503 (by decide) (by decide) [],
    call_replicate 499 (by decide) (by decide), List.append_nil]
  rfl

theorem sorted_skewed : (History.after skewed).sorted =
    List.replicate 501 4096 ++ List.replicate 499 32768 := by
  have htake : (History.after skewed).taus.take arrSize =
      List.replicate 499 32768 ++ List.replicate 501 4096 := by
    rw [taus_skewed, List.take_append, List.take_replicate, List.take_replicate,
      List.length_replicate]
    rfl
  unfold History.sorted
  rw [htake]
  exact mergeSort_two_runs (by decide) 501 499

/-- **The rank is taken in the ring.**  Of 1002 samples the ring holds the last 1000, of which 501
are 4096.  The element of rank 501 is 32768, but the one of rank 500 is returned. -/
theorem median_rank_of_ring :
    (History.after skewed).taus.length = 1002 ∧
      (History.after skewed).sorted[1002 / 2]? = some 32768 ∧
      ((Adaptation.after skewed).updateTauMedian 0 16384 20000).1 = 4096 := by
  have hlen : (History.after skewed).taus.length = 1002 := by
    rw [taus_skewed, List.length_append, List.length_replicate, List.length_replicate]
  have hne : (History.after skewed).taus ≠ [] := by
    rw [← List.length_pos_iff, hlen]
    decide
  refine ⟨hlen, ?_, ?_⟩
  · rw [sorted_skewed, List.getElem?_append_right (by rw [List.length_replicate]),
      List.length_replicate, List.getElem?_replicate]
    rfl
  · rw [(refines_after skewed).median 0 (by decide), if_neg hne, hlen, sorted_skewed,
      List.getD_eq_getElem?_getD,
      List.getElem?_append_left (by rw [List.length_replicate]; decide), List.getElem?_replicate,
      if_pos (by decide)]
    decide

end CSBuFLO
