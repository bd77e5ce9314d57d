/-
# Rate adaptation (`misc.c`)

In csbuflo mode the period `tau` is adapted to the observed intervals between real sends.
`insert_time` records send times in a ring, `update_tau_interval` turns the recorded times
into intervals and stores them in a second ring, and `update_tau_median` picks the median
of that ring whenever the number of bytes sent passes a boundary that doubles each time.

The rings are arrays of `ARRSIZE` entries with their own index conventions, kept here as
in the source: `time_size` counts all insertions, `tau_size` stops at `ARRSIZE`.
`log2`, `pow` and `floor` are taken as exact.
-/
import CSBuFLO.Misc

namespace CSBuFLO

/-- The ring buffers and their indices. -/
structure Adaptation where
  timeArr : ℕ → ℕ := fun _ => 0
  timeIndex : ℕ := 0
  timeSize : ℕ := 0
  tauArr : ℕ → ℤ := fun _ => 0
  tauIndex : ℕ := 0
  tauSize : ℕ := 0

namespace Adaptation

/-- `insert_time`. -/
def insertTime (a : Adaptation) (time : ℕ) : Adaptation :=
  { a with
    timeArr := Function.update a.timeArr a.timeIndex time
    timeIndex := (a.timeIndex + 1) % arrSize
    timeSize := a.timeSize + 1 }

/-- The difference of two clock values, stored in a `long`. -/
def interval (later earlier : ℕ) : ℤ := ((later : ℤ) - earlier).bmod (2 ^ 64)

/-- The intervals of a ring that has not wrapped, newest first, from index `i` down. -/
def plainIntervals (arr : ℕ → ℕ) : ℕ → List ℤ
  | 0 => []
  | i + 1 => interval (arr (i + 1)) (arr i) :: plainIntervals arr i

/-- The ring index before `i`. -/
def ringPred (i : ℕ) : ℕ := if i = 0 then arrSize - 1 else i - 1

/-- The intervals of a wrapped ring, newest first, from index `i` back to `oldest`. -/
def wrappedIntervals (arr : ℕ → ℕ) (oldest : ℕ) : ℕ → ℕ → List ℤ
  | 0, _ => []
  | fuel + 1, i =>
    if i = oldest then []
    else interval (arr i) (arr (ringPred i)) :: wrappedIntervals arr oldest fuel (ringPred i)

/-- `interval_arr` of `update_tau_interval`. -/
def intervals (a : Adaptation) : List ℤ :=
  if a.timeSize ≤ arrSize then plainIntervals a.timeArr (a.timeSize - 1)
  else wrappedIntervals a.timeArr a.timeIndex arrSize (ringPred a.timeIndex)

/-- The value used when no interval could be measured. -/
def fallbackTau (isClient : Bool) (tsStart tsEnd : ℕ) : ℤ :=
  if isClient then (interval tsEnd tsStart + upperTau).tdiv 2 else interval tsEnd tsStart

/-- Clamp to `[LOWER_TAU, UPPER_TAU]`. -/
def clampTau (tau : ℤ) : ℤ :=
  if tau < lowerTau then lowerTau else if tau > upperTau then upperTau else tau

/-- Store one sample in the second ring. -/
def pushTau (a : Adaptation) (tau : ℤ) : Adaptation :=
  { a with
    tauArr := Function.update a.tauArr a.tauIndex (clampTau tau)
    tauSize := if a.tauSize < arrSize then a.tauSize + 1 else a.tauSize
    tauIndex := (a.tauIndex + 1) % arrSize }

/-- `update_tau_interval`. -/
def updateTauInterval (a : Adaptation) (tsStart tsEnd : ℕ) (curTotalRealsentBytes : ℤ)
    (isClient : Bool) : Adaptation :=
  if tsStart ≥ tsEnd then a
  else
    let a := if curTotalRealsentBytes > 0 then a.insertTime tsEnd else a
    let ivs := a.intervals
    let a := { a with timeIndex := 0, timeSize := 0 }
    let tau := fallbackTau isClient tsStart tsEnd
    if ivs = [] then a.pushTau tau
    else ivs.foldl (fun a iv => a.pushTau (if iv = 0 then tau else iv)) a

/-- `update_tau_median`: the new period, the new boundary and the cleared ring. -/
def updateTauMedian (a : Adaptation) (tau boundary totalSentBytes : ℤ) : ℤ × ℤ × Adaptation :=
  if totalSentBytes < boundary then (tau, boundary, a)
  else
    let sorted := ((List.range a.tauSize).map a.tauArr).mergeSort (fun x y => decide (x ≤ y))
    let newTau : ℤ :=
      if a.tauSize = 0 then upperTau
      else 2 ^ Nat.log 2 (sorted.getD (a.tauSize / 2) 0).toNat
    (newTau, boundary * 2,
      { a with
        -- `qsort` sorts the array in place
        tauArr := fun i => if i < a.tauSize then sorted.getD i 0 else a.tauArr i
        tauSize := 0
        tauIndex := 0 })

end Adaptation

end CSBuFLO
