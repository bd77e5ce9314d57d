/-
# The sending rate of a page

The period of csbuflo mode is adapted from samples: `insert_time` records send times,
`update_tau_interval` turns them into intervals, and `update_tau_median` takes the median of
the intervals each time the total passes a boundary.  Both kinds of samples are kept in ring
buffers of `misc.c`.

Leaving csbuflo mode resets the period and the boundary in the loops, but not the rings.  The
samples that are pending then (`Adaptation.samples`) go into the first median of the next page;
nothing else of the history does.
-/
import CSBuFLO.Endpoint
import CSBuFLO.Ring

namespace CSBuFLO

/-! ## The pending samples -/

/-- The pending samples, newest first: send times since the last interval was closed, and
intervals since the last median. -/
structure Samples where
  times : List ℕ
  taus : List ℤ
  deriving DecidableEq

namespace Samples

/-- The intervals between send times. -/
def intervals : List ℕ → List ℤ
  | later :: earlier :: rest => Adaptation.interval later earlier :: intervals (earlier :: rest)
  | _ => []

/-- Record a send time. -/
def insertTime (s : Samples) (time : ℕ) : Samples :=
  { s with times := (time :: s.times).take arrSize }

/-- Record an interval. -/
def pushTau (s : Samples) (tau : ℤ) : Samples :=
  { s with taus := (Adaptation.clampTau tau :: s.taus).take arrSize }

/-- Close an interval: the send times become intervals. -/
def updateTauInterval (s : Samples) (tsStart tsEnd : ℕ) (curTotalRealsentBytes : ℤ)
    (isClient : Bool) : Samples :=
  if tsStart ≥ tsEnd then s
  else
    let s := if curTotalRealsentBytes > 0 then s.insertTime tsEnd else s
    let ivs := intervals s.times
    let s := { s with times := [] }
    let tau := Adaptation.fallbackTau isClient tsStart tsEnd
    if ivs = [] then s.pushTau tau
    else ivs.foldl (fun s iv => s.pushTau (if iv = 0 then tau else iv)) s

/-- The power of two below the median of the intervals. -/
def median (s : Samples) : ℤ :=
  if s.taus = [] then upperTau
  else 2 ^ Nat.log 2 ((s.taus.mergeSort (fun x y => decide (x ≤ y))).getD
    (s.taus.length / 2) 0).toNat

end Samples

namespace Adaptation

/-- The pending samples of the rings. -/
def samples (a : Adaptation) : Samples where
  times := Ring.last arrSize a.timeArr a.timeIndex (min a.timeSize arrSize)
  taus := Ring.last arrSize a.tauArr a.tauIndex a.tauSize

/-- The indices fit the sizes. -/
structure Inv (a : Adaptation) : Prop where
  time : a.timeIndex = a.timeSize % arrSize
  size : a.tauSize ≤ arrSize
  index : a.tauIndex < arrSize
  tau : a.tauSize < arrSize → a.tauIndex = a.tauSize

theorem arrSize_pos : 0 < arrSize := by decide

theorem inv_init : Inv {} := ⟨rfl, Nat.zero_le _, arrSize_pos, fun _ => rfl⟩

/-! ## The rings hold the pending samples -/

variable {a : Adaptation}

theorem Inv.timeIndex_lt (h : a.Inv) : a.timeIndex < arrSize := by
  rw [h.time]
  exact Nat.mod_lt _ arrSize_pos

theorem Inv.insertTime (h : a.Inv) (time : ℕ) : (a.insertTime time).Inv where
  time := by
    show (a.timeIndex + 1) % arrSize = (a.timeSize + 1) % arrSize
    rw [h.time, Nat.mod_add_mod]
  size := h.size
  index := h.index
  tau := h.tau

theorem samples_insertTime (h : a.Inv) (time : ℕ) :
    (a.insertTime time).samples = a.samples.insertTime time := by
  have hpush := Ring.last_push a.timeArr time h.timeIndex_lt (Nat.min_le_right a.timeSize arrSize)
  have hmin : min (min a.timeSize arrSize + 1) arrSize = min (a.timeSize + 1) arrSize := by omega
  rw [hmin] at hpush
  exact congrArg (Samples.mk · a.samples.taus) hpush

theorem Inv.pushTau (h : a.Inv) (tau : ℤ) : (a.pushTau tau).Inv where
  time := h.time
  size := by
    have := h.size
    show (if a.tauSize < arrSize then a.tauSize + 1 else a.tauSize) ≤ arrSize
    split <;> omega
  index := Ring.next_lt h.index
  tau := by
    show (if a.tauSize < arrSize then a.tauSize + 1 else a.tauSize) < arrSize →
      (a.tauIndex + 1) % arrSize = if a.tauSize < arrSize then a.tauSize + 1 else a.tauSize
    split
    · rename_i hlt
      intro hnext
      rw [h.tau hlt, Nat.mod_eq_of_lt hnext]
    · omega

theorem samples_pushTau (h : a.Inv) (tau : ℤ) :
    (a.pushTau tau).samples = a.samples.pushTau tau := by
  have hpush := Ring.last_push a.tauArr (clampTau tau) h.index h.size
  have hmin : min (a.tauSize + 1) arrSize =
      if a.tauSize < arrSize then a.tauSize + 1 else a.tauSize := by
    have := h.size
    split <;> omega
  rw [hmin] at hpush
  exact congrArg (Samples.mk a.samples.times) hpush

/-- The intervals of a ring that has not wrapped. -/
theorem plainIntervals_eq (arr : ℕ → ℕ) (m : ℕ) :
    plainIntervals arr m = Samples.intervals ((List.range (m + 1)).map fun d => arr (m - d)) := by
  induction m with
  | zero => rfl
  | succ m ih =>
    have hstep : (List.range (m + 1 + 1)).map (fun d => arr (m + 1 - d)) =
        arr (m + 1) :: (List.range (m + 1)).map fun d => arr (m - d) := by
      rw [List.range_succ_eq_map, List.map_cons, List.map_map]
      simp
    have hnext : (List.range (m + 1)).map (fun d => arr (m - d)) =
        arr m :: (List.range m).map fun d => arr (m - (d + 1)) := by
      rw [List.range_succ_eq_map, List.map_cons, List.map_map]
      simp
    rw [hstep]
    rw [hnext] at ih ⊢
    rw [plainIntervals, ih]
    rfl

/-- The intervals of a ring that has wrapped, from `j + 1` places before the oldest entry. -/
theorem wrappedIntervals_eq (arr : ℕ → ℕ) {oldest : ℕ} (hold : oldest < arrSize) (fuel j : ℕ)
    (hj : j < arrSize) (hfuel : arrSize ≤ fuel + j) :
    wrappedIntervals arr oldest fuel (Ring.cell arrSize oldest j) =
      Samples.intervals ((List.range (arrSize - j)).map fun d =>
        arr (Ring.cell arrSize oldest (j + d))) := by
  induction fuel generalizing j with
  | zero => omega
  | succ fuel ih =>
    obtain ⟨m, hm⟩ : ∃ m, arrSize - j = m + 1 := ⟨arrSize - j - 1, by omega⟩
    unfold wrappedIntervals
    rw [hm, List.range_succ_eq_map, List.map_cons, List.map_map]
    by_cases hlast : j + 1 = arrSize
    · -- one time around: the oldest entry
      have hcell : Ring.cell arrSize oldest j = oldest := by
        unfold Ring.cell
        split <;> omega
      obtain rfl : m = 0 := by omega
      rw [if_pos hcell]
      rfl
    · have hne : Ring.cell arrSize oldest j ≠ oldest := Ring.cell_ne (by omega)
      have hpred : ringPred (Ring.cell arrSize oldest j) = Ring.cell arrSize oldest (j + 1) := by
        unfold ringPred Ring.cell
        split_ifs <;> omega
      have hrest := ih (j + 1) (by omega) (by omega)
      obtain ⟨m', rfl⟩ : ∃ m', m = m' + 1 := ⟨m - 1, by omega⟩
      have hm' : arrSize - (j + 1) = m' + 1 := by omega
      rw [if_neg hne, hpred, hrest, hm']
      have hshift : (fun d => arr (Ring.cell arrSize oldest (j + d))) ∘ Nat.succ =
          fun d => arr (Ring.cell arrSize oldest (j + 1 + d)) := by
        funext d
        simp only [Function.comp_apply, Nat.succ_eq_add_one]
        congr 2
        omega
      rw [hshift, List.range_succ_eq_map, List.map_cons, List.map_map]
      rfl

/-- **The intervals of the ring are those of the pending times.** -/
theorem intervals_eq (h : a.Inv) : a.intervals = Samples.intervals a.samples.times := by
  unfold intervals samples
  dsimp only
  split
  · rename_i hle
    rw [Nat.min_eq_left hle]
    rcases Nat.eq_zero_or_pos a.timeSize with h0 | h0
    · rw [h0]
      rfl
    · rw [plainIntervals_eq, Nat.sub_add_cancel h0]
      congr 1
      unfold Ring.last
      refine List.map_congr_left fun d hd => ?_
      rw [List.mem_range] at hd
      congr 1
      rcases Nat.lt_or_eq_of_le hle with hlt | heq
      · rw [h.time, Nat.mod_eq_of_lt hlt]
        unfold Ring.cell
        rw [if_pos hd]
      · rw [h.time, heq, Nat.mod_self]
        unfold Ring.cell
        rw [if_neg (Nat.not_lt_zero d)]
        omega
  · rename_i hgt
    have hcell : ringPred a.timeIndex = Ring.cell arrSize a.timeIndex 0 := by
      unfold ringPred Ring.cell
      split_ifs <;> omega
    have hwrap := wrappedIntervals_eq a.timeArr h.timeIndex_lt arrSize 0 arrSize_pos (by omega)
    rw [hcell, hwrap, Nat.min_eq_right (by omega)]
    simp only [Nat.sub_zero, Nat.zero_add]
    rfl

theorem Inv.clearTimes (h : a.Inv) : Inv { a with timeIndex := 0, timeSize := 0 } :=
  ⟨rfl, h.size, h.index, h.tau⟩

/-- Recording intervals one after the other. -/
theorem samples_foldl (tau : ℤ) (ivs : List ℤ) (h : a.Inv) :
    (ivs.foldl (fun a iv => a.pushTau (if iv = 0 then tau else iv)) a).Inv ∧
      (ivs.foldl (fun a iv => a.pushTau (if iv = 0 then tau else iv)) a).samples =
        ivs.foldl (fun s iv => s.pushTau (if iv = 0 then tau else iv)) a.samples := by
  induction ivs generalizing a with
  | nil => exact ⟨h, rfl⟩
  | cons iv ivs ih =>
    rw [List.foldl_cons, List.foldl_cons, ← samples_pushTau h]
    exact ih (h.pushTau _)

/-- **`update_tau_interval` works on the pending samples.** -/
theorem samples_updateTauInterval (h : a.Inv) (tsStart tsEnd : ℕ) (real : ℤ) (isClient : Bool) :
    (a.updateTauInterval tsStart tsEnd real isClient).Inv ∧
      (a.updateTauInterval tsStart tsEnd real isClient).samples =
        a.samples.updateTauInterval tsStart tsEnd real isClient := by
  unfold updateTauInterval Samples.updateTauInterval
  by_cases hstart : tsStart ≥ tsEnd
  · rw [if_pos hstart, if_pos hstart]
    exact ⟨h, rfl⟩
  rw [if_neg hstart, if_neg hstart]
  dsimp only
  have hinsert : (if real > 0 then a.insertTime tsEnd else a).Inv ∧
      (if real > 0 then a.insertTime tsEnd else a).samples =
        if real > 0 then a.samples.insertTime tsEnd else a.samples := by
    split
    · exact ⟨h.insertTime tsEnd, samples_insertTime h tsEnd⟩
    · exact ⟨h, rfl⟩
  rw [← hinsert.2]
  replace h := hinsert.1
  generalize (if real > 0 then a.insertTime tsEnd else a) = a1 at h
  rw [← intervals_eq h]
  have hclear : ({ a1 with timeIndex := 0, timeSize := 0 } : Adaptation).samples =
      { a1.samples with times := [] } := rfl
  rw [← hclear]
  split
  · exact ⟨h.clearTimes.pushTau _, samples_pushTau h.clearTimes _⟩
  · exact samples_foldl _ _ h.clearTimes

/-- Sorting the ring sorts the pending intervals. -/
theorem sorted_taus (h : a.Inv) :
    ((List.range a.tauSize).map a.tauArr).mergeSort (fun x y => decide (x ≤ y)) =
      a.samples.taus.mergeSort (fun x y => decide (x ≤ y)) := by
  have hring : a.tauSize = a.tauIndex ∧ a.tauIndex < arrSize ∨
      a.tauSize = arrSize ∧ a.tauIndex < arrSize := by
    rcases Nat.lt_or_eq_of_le h.size with hlt | heq
    · exact Or.inl ⟨(h.tau hlt).symm, h.index⟩
    · exact Or.inr ⟨heq, h.index⟩
  have hperm := Ring.last_perm a.tauArr hring
  exact (((List.mergeSort_perm _ _).trans hperm.symm).trans
    (List.mergeSort_perm _ _).symm).eq_of_sortedLE List.sortedLE_mergeSort List.sortedLE_mergeSort

/-- **`update_tau_median` returns the median of the pending intervals** and clears them. -/
theorem samples_updateTauMedian (h : a.Inv) (tau boundary total : ℤ) :
    (a.updateTauMedian tau boundary total).2.2.Inv ∧
      ((a.updateTauMedian tau boundary total).1, (a.updateTauMedian tau boundary total).2.1,
        (a.updateTauMedian tau boundary total).2.2.samples) =
      if total < boundary then (tau, boundary, a.samples)
      else (a.samples.median, boundary * 2, { a.samples with taus := [] }) := by
  unfold updateTauMedian
  split
  · exact ⟨h, rfl⟩
  · dsimp only
    refine ⟨⟨h.time, Nat.zero_le _, arrSize_pos, fun _ => rfl⟩, ?_⟩
    have hlen : a.samples.taus.length = a.tauSize := Ring.length_last _
    have hnil : a.samples.taus = [] ↔ a.tauSize = 0 := by
      rw [← hlen, List.length_eq_zero_iff]
    have hmedian : (if a.tauSize = 0 then upperTau else 2 ^ Nat.log 2
        ((((List.range a.tauSize).map a.tauArr).mergeSort (fun x y => decide (x ≤ y))).getD
          (a.tauSize / 2) 0).toNat) = a.samples.median := by
      unfold Samples.median
      rw [sorted_taus h, hlen]
      simp only [hnil]
    rw [hmedian]
    rfl

end Adaptation

/-! ## Histories of calls -/

/-- The adaptation state of an end: the rings, and the two statics of its loop. -/
structure Rate where
  adapt : Adaptation := {}
  tau : ℤ := initialTau
  boundary : ℤ := initialBoundary

/-- A call into the adaptation code, and the reset when csbuflo mode is left. -/
inductive RateCall where
  | insertTime (time : ℕ)
  | updateTauInterval (tsStart tsEnd : ℕ) (curTotalRealsentBytes : ℤ) (isClient : Bool)
  | updateTauMedian (totalSentBytes : ℤ)
  | idleReset

namespace Rate

/-- One call, with the results stored where the loops store them. -/
def call (s : Rate) : RateCall → Rate
  | .insertTime time => { s with adapt := s.adapt.insertTime time }
  | .updateTauInterval tsStart tsEnd real isClient =>
    { s with adapt := s.adapt.updateTauInterval tsStart tsEnd real isClient }
  | .updateTauMedian total =>
    let m := s.adapt.updateTauMedian s.tau s.boundary total
    { adapt := m.2.2, tau := m.1, boundary := m.2.1 }
  | .idleReset => { s with tau := initialTau, boundary := initialBoundary }

/-- A history of calls. -/
def run (s : Rate) (calls : List RateCall) : Rate := calls.foldl call s

/-- The periods returned by `update_tau_median` along a history. -/
def taus (s : Rate) : List RateCall → List ℤ
  | [] => []
  | .updateTauMedian total :: calls =>
    (s.call (.updateTauMedian total)).tau :: taus (s.call (.updateTauMedian total)) calls
  | c :: calls => taus (s.call c) calls

/-- One state comes from another by calls. -/
def Calls (s t : Rate) : Prop := ∃ calls, t = s.run calls

theorem Calls.refl (s : Rate) : Calls s s := ⟨[], rfl⟩

theorem Calls.one (s : Rate) (c : RateCall) : Calls s (s.call c) := ⟨[c], rfl⟩

theorem Calls.trans {s t u : Rate} (h : Calls s t) (h' : Calls t u) : Calls s u := by
  obtain ⟨calls, rfl⟩ := h
  obtain ⟨calls', rfl⟩ := h'
  exact ⟨calls ++ calls', (List.foldl_append ..).symm⟩

end Rate

/-! ## The loops make such calls -/

section Loops

variable {σ β : Type}

/-- The adaptation state of an end. -/
def Endpoint.rate (e : Endpoint σ β) : Rate := ⟨e.adapt, e.loop.tau, e.loop.boundary⟩

theorem rate_switchToNormal {c : Codec σ β} {r : Role} {e e' : Endpoint σ β}
    (h : switchToNormal c r e = some e') : e'.rate = e.rate := by
  obtain ⟨_, _, _, _, rfl⟩ := switchToNormal_eq_some h
  rfl

/-- Leaving csbuflo mode resets the period and the boundary, and nothing else. -/
theorem rate_leaveCsbuflo {c : Codec σ β} {r : Role} {e e' : Endpoint σ β}
    (h : leaveCsbuflo c r e = some e') : e'.rate = e.rate.call .idleReset := by
  unfold leaveCsbuflo at h
  cases r with
  | client =>
    obtain ⟨e1, h1, h2⟩ := Option.bind_eq_some_iff.mp h
    obtain ⟨pkt, -, rfl⟩ := Option.map_eq_some_iff.mp h1
    rw [rate_switchToNormal h2]
    rfl
  | server =>
    rw [rate_switchToNormal h]
    rfl

/-- After a write, the loops make calls of the adaptation code only. -/
theorem rate_accountSent (r : Role) (inp : SlotInput) (n : ℕ) (incoming : ℤ) (before : ℕ)
    (e : Endpoint σ β) :
    Rate.Calls e.rate (accountSent r inp n incoming before e).rate := by
  have hclose : ∀ e1 : Endpoint σ β, Rate.Calls e1.rate (closeInterval r e1).rate := by
    intro e1
    unfold closeInterval
    split
    · exact .one _ (.updateTauInterval e1.g.tsStart e1.g.tsEnd e1.loop.curTotalRealsentBytes
        (decide (r = .client)))
    · exact .refl _
  have hopen : ∀ e1 : Endpoint σ β, (openInterval inp.curTs e1).rate = e1.rate := by
    intro e1
    unfold openInterval
    split <;> rfl
  have hcount : ∀ (real : ℤ) (e1 : Endpoint σ β),
      Rate.Calls e1.rate (countReal inp.curTs real e1).rate := by
    intro real e1
    unfold countReal
    dsimp only
    split
    · exact .one _ (.insertTime inp.curTs)
    · exact .refl _
  have hadapt : ∀ e1 : Endpoint σ β, Rate.Calls e1.rate (adaptTau e1).rate :=
    fun e1 => .one _ (.updateTauMedian e1.loop.totalSentBytes)
  unfold accountSent
  dsimp only
  split
  · refine Rate.Calls.trans ?_ (hadapt _)
    split
    · refine Rate.Calls.trans ?_ (hcount _ _)
      rw [hopen]
      exact hclose _
    · exact .refl _
  · exact .refl _

end Loops

end CSBuFLO
