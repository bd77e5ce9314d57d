/-
# Splitting a trace into delays and expected bytes (`split` of `load_st.c`)

`split` goes once over a trace.  It keeps the index of the last packet of each direction, whose
time it replaces by the delay to the next packet of that direction, and one counter for the
bytes of the current burst, which a packet in the opposite direction expects.  The last packet
of each direction waits until the last valid time.

What this does to one entry depends on the entries before it and after it only (`splitEntry`).
`SplitInv` is the invariant of the loop.

* `splitTrace_eq` : the whole of `split`, entry by entry;
* `expected_counts` : a packet expects the opposite burst right before it.
-/
import CSBuFLO.Merge

namespace CSBuFLO

/-! ## What `split` makes of an entry -/

/-- Two packets of the same direction. -/
def sameWay (x y : StPair) : Bool :=
  (ownItem true x && ownItem true y) || (ownItem false x && ownItem false y)

variable {d : Bool} {x : StPair} {after past l : List StPair} {n : ℕ} {p : StPair → Bool}

theorem sameWay_of_own (hx : ownItem d x = true) : sameWay x = ownItem d := by
  funext y
  unfold sameWay
  cases d with
  | true =>
    have hneg : ownItem false x = false := by
      have := ownItem_true.mp hx
      simp [ownItem]
      omega
    rw [hx, hneg]
    simp
  | false =>
    have hpos : ownItem true x = false := by
      have := ownItem_false.mp hx
      simp [ownItem]
      omega
    rw [hx, hpos]
    simp

theorem sameWay_of_zero (hx : x.size = 0) (y : StPair) : sameWay x y = false := by
  simp [sameWay, ownItem, hx]

/-- A packet has one direction. -/
theorem not_own_of_own (hx : ownItem d x = true) : ownItem (!d) x = false := by
  cases d with
  | true =>
    have := ownItem_true.mp hx
    simp [ownItem]
    omega
  | false =>
    have := ownItem_false.mp hx
    simp [ownItem]
    omega

theorem own_of_sameWay {y : StPair} (hx : ownItem d x = true) (h : sameWay y x = true) :
    ownItem d y = true := by
  have hother := not_own_of_own hx
  unfold sameWay at h
  cases d with
  | true =>
    rw [hx, show ownItem false x = false from hother] at h
    simpa using h
  | false =>
    rw [hx, show ownItem true x = false from hother] at h
    simpa using h

/-- An entry without a direction has size 0. -/
theorem exists_own_or_zero (x : StPair) : (∃ d, ownItem d x = true) ∨ x.size = 0 := by
  rcases lt_trichotomy x.size 0 with h | h | h
  · exact Or.inl ⟨false, ownItem_false.mpr h⟩
  · exact Or.inr h
  · exact Or.inl ⟨true, ownItem_true.mpr h⟩

theorem not_own_of_zero (hx : x.size = 0) (d : Bool) : ownItem d x = false := by
  cases d <;> simp [ownItem, hx]

theorem size_ne_zero_of_own (hx : ownItem d x = true) : x.size ≠ 0 := by
  intro hzero
  rw [not_own_of_zero hzero d] at hx
  cases hx

/-- The time left in an entry: the delay to the next packet of its direction, or its own time
if there is none. -/
def delay (after : List StPair) (x : StPair) : ℤ :=
  match after.find? (sameWay x) with
  | some y => toInt (y.time - x.time)
  | none => x.time

/-- The last packet of the past, which is given newest first. -/
def lastPacket (past : List StPair) : Option StPair := past.find? fun y => decide (y.size ≠ 0)

/-- The bytes of direction `d` at the end of the past, after the last packet of the other
direction. -/
def burstBytes (d : Bool) (past : List StPair) : ℕ :=
  bytes d (past.takeWhile fun y => !ownItem (!d) y)

/-- The last packet of the past has direction `d`. -/
def lastIs (d : Bool) (past : List StPair) : Bool := (lastPacket past).any (ownItem d)

/-- What a packet of direction `d` expects after the past. -/
def expectation (d : Bool) (past : List StPair) (x : StPair) : ℕ :=
  if lastIs (!d) past then burstBytes (!d) past else x.expected

/-- An entry after the loop of `split`. -/
def splitEntry (past : List StPair) (x : StPair) (after : List StPair) : StPair :=
  { x with
    time := delay after x
    expected := if ownItem true x then expectation true past x
      else if ownItem false x then expectation false past x else x.expected }

theorem splitEntry_of_own (hx : ownItem d x = true) :
    splitEntry past x after =
      { x with time := delay after x, expected := expectation d past x } := by
  unfold splitEntry
  cases d with
  | true => rw [if_pos hx]
  | false => rw [if_neg (by simpa using not_own_of_own hx), if_pos hx]

theorem splitEntry_of_zero (hx : x.size = 0) : splitEntry past x after = x := by
  have hdelay : delay after x = x.time := by
    unfold delay
    rw [List.find?_eq_none.mpr fun y _ => by simp [sameWay_of_zero hx y]]
  unfold splitEntry
  rw [if_neg (by simp [not_own_of_zero hx]), if_neg (by simp [not_own_of_zero hx]), hdelay]

/-! ### The burst at the end of the past -/

theorem burstBytes_cons_own (hx : ownItem d x = true) (past : List StPair) :
    burstBytes d (x :: past) = burstBytes d past + x.size.natAbs := by
  unfold burstBytes
  rw [List.takeWhile_cons_of_pos (by simp [not_own_of_own hx]), bytes_cons, if_pos hx]

theorem burstBytes_cons_other (hx : ownItem (!d) x = true) (past : List StPair) :
    burstBytes d (x :: past) = 0 := by
  unfold burstBytes
  rw [List.takeWhile_cons_of_neg (by simp [hx])]
  rfl

theorem burstBytes_cons_zero (hx : x.size = 0) (d : Bool) (past : List StPair) :
    burstBytes d (x :: past) = burstBytes d past := by
  unfold burstBytes
  rw [List.takeWhile_cons_of_pos (by simp [not_own_of_zero hx]), bytes_cons,
    if_neg (by simp [not_own_of_zero hx])]
  rfl

theorem lastPacket_cons_own (hx : ownItem d x = true) (past : List StPair) :
    lastPacket (x :: past) = some x := by
  have hne := size_ne_zero_of_own hx
  exact List.find?_cons_of_pos (by simpa using hne)

theorem lastPacket_cons_zero (hx : x.size = 0) (past : List StPair) :
    lastPacket (x :: past) = lastPacket past :=
  List.find?_cons_of_neg (by simp [hx])

/-- There is no burst of direction `d` behind a packet of the other direction. -/
theorem burstBytes_eq_zero (h : lastIs d past = false) : burstBytes d past = 0 := by
  induction past with
  | nil => rfl
  | cons x past ih =>
    rcases exists_own_or_zero x with ⟨d', hx⟩ | hx
    · unfold lastIs at h
      rw [lastPacket_cons_own hx, Option.any_some] at h
      have hd : d' = !d := by
        cases d <;> cases d' <;> simp_all
      rw [hd] at hx
      exact burstBytes_cons_other hx past
    · rw [burstBytes_cons_zero hx]
      unfold lastIs at h ih
      rw [lastPacket_cons_zero hx] at h
      exact ih h

theorem lastIs_not (h : lastIs d past = true) : lastIs (!d) past = false := by
  unfold lastIs at h ⊢
  cases hlast : lastPacket past with
  | none => rfl
  | some x =>
    rw [hlast, Option.any_some] at h
    rw [Option.any_some]
    exact not_own_of_own h

/-- Only the burst of the last packet's direction is left at the end of the past. -/
theorem bursts_eq (h : lastIs (!d) past = false) :
    burstBytes true past + burstBytes false past = burstBytes d past := by
  have hzero := burstBytes_eq_zero h
  cases d with
  | true => exact congrArg (_ + ·) hzero
  | false => exact (congrArg (· + _) hzero).trans (Nat.zero_add _)

/-- A delay that is already fixed stays. -/
theorem delay_concat_of_find {y z : StPair} (h : after.find? (sameWay y) = some z) :
    delay (after ++ [x]) y = delay after y := by
  unfold delay
  rw [List.find?_append, h, Option.some_or]

/-- An entry of the other direction, or of none, does not change a delay. -/
theorem delay_concat_of_not {y : StPair} (h : sameWay y x = false) :
    delay (after ++ [x]) y = delay after y := by
  unfold delay
  rw [List.find?_append, List.find?_singleton, if_neg (by simp [h]), Option.or_none]

/-! ## The indices kept by the loop -/

/-- The last index below `n` whose entry satisfies `p`. -/
def lastBefore (p : StPair → Bool) (l : List StPair) : ℕ → Option ℕ
  | 0 => none
  | n + 1 => if p (l.getD n default) then some n else lastBefore p l n

theorem lastBefore_succ (p : StPair → Bool) (l : List StPair) (n : ℕ) :
    lastBefore p l (n + 1) = if p (l.getD n default) then some n else lastBefore p l n := rfl

theorem lastBefore_eq_some_iff {i : ℕ} :
    lastBefore p l n = some i ↔ i < n ∧ p (l.getD i default) = true ∧
      ∀ k, i < k → k < n → p (l.getD k default) = false := by
  induction n with
  | zero => simp [lastBefore]
  | succ n ih =>
    rw [lastBefore_succ]
    split
    · rename_i hp
      rw [Option.some.injEq]
      constructor
      · rintro rfl
        exact ⟨Nat.lt_succ_self _, hp, fun k hk hk' => by omega⟩
      · rintro ⟨hi, -, hlast⟩
        by_contra hne
        have := hlast n (by omega) (Nat.lt_succ_self n)
        rw [hp] at this
        cases this
    · rename_i hp
      rw [ih]
      constructor
      · rintro ⟨hi, hpi, hlast⟩
        refine ⟨by omega, hpi, fun k hk hk' => ?_⟩
        rcases Nat.lt_or_eq_of_le (Nat.lt_succ_iff.mp hk') with hlt | rfl
        · exact hlast k hk hlt
        · exact Bool.eq_false_iff.mpr hp
      · rintro ⟨hi, hpi, hlast⟩
        have hin : i ≠ n := by
          rintro rfl
          exact hp hpi
        exact ⟨by omega, hpi, fun k hk hk' => hlast k hk (by omega)⟩

theorem reverse_take_succ (hx : l[n]? = some x) :
    (l.take (n + 1)).reverse = x :: (l.take n).reverse := by
  rw [List.take_add_one, hx]
  simp

theorem getD_of_getElem? (hx : l[n]? = some x) : l.getD n default = x := by
  rw [List.getD_eq_getElem?_getD, hx]
  rfl

/-- The last entry of the past that satisfies `p`, by its index. -/
theorem find?_reverse_take (hn : n ≤ l.length) :
    (l.take n).reverse.find? p = (lastBefore p l n).map fun i => l.getD i default := by
  induction n with
  | zero => rfl
  | succ n ih =>
    have hx : l[n]? = some l[n] := List.getElem?_eq_getElem hn
    rw [reverse_take_succ hx, List.find?_cons, ih (by omega), lastBefore_succ,
      getD_of_getElem? hx]
    cases hp : p l[n] with
    | true => exact congrArg some (getD_of_getElem? hx).symm
    | false => rfl

/-- The entries after index `j`, one more. -/
theorem drop_take_succ {j : ℕ} (hx : l[n]? = some x) (hj : j < n) :
    (l.take (n + 1)).drop (j + 1) = (l.take n).drop (j + 1) ++ [x] := by
  have hlen : (l.take n).length = n := by
    obtain ⟨h, -⟩ := List.getElem?_eq_some_iff.mp hx
    rw [List.length_take]
    omega
  rw [List.take_add_one, hx, List.drop_append_of_le_length (by omega)]
  rfl

/-- No entry with `p` after index `j`. -/
theorem find?_drop_take_eq_none {j : ℕ} (hn : n ≤ l.length)
    (h : ∀ k, j < k → k < n → p (l.getD k default) = false) :
    ((l.take n).drop (j + 1)).find? p = none := by
  refine List.find?_eq_none.mpr fun y hy => ?_
  obtain ⟨k, hk, rfl⟩ := List.mem_iff_getElem.mp hy
  rw [List.length_drop, List.length_take] at hk
  rw [List.getElem_drop, List.getElem_take]
  have hp := h (j + 1 + k) (by omega) (by omega)
  rw [List.getD_eq_getElem _ _ (by omega)] at hp
  rw [hp]
  decide

theorem forall_of_find?_drop_take {j : ℕ} (hn : n ≤ l.length)
    (h : ((l.take n).drop (j + 1)).find? p = none) {k : ℕ} (hjk : j < k) (hkn : k < n) :
    p (l.getD k default) = false := by
  have hmem : l.getD k default ∈ (l.take n).drop (j + 1) := by
    rw [List.getD_eq_getElem _ _ (by omega)]
    refine List.mem_iff_getElem.mpr ⟨k - (j + 1), ?_, ?_⟩
    · rw [List.length_drop, List.length_take]
      omega
    · rw [List.getElem_drop, List.getElem_take]
      congr 1
      omega
  exact Bool.eq_false_iff.mpr (List.find?_eq_none.mp h _ hmem)

/-! ## One round of the loop -/

theorem getElem?_setDelay (pairs : List StPair) (pre : Option ℕ) (curtime : ℤ) (j : ℕ) :
    (setDelay pairs pre curtime)[j]? =
      if pre = some j then pairs[j]?.map fun x => { x with time := toInt (curtime - x.time) }
      else pairs[j]? := by
  unfold setDelay
  cases pre with
  | none => simp
  | some i =>
    dsimp only
    rw [List.getElem?_modify]
    by_cases hij : i = j
    · simp [hij]
    · simp [hij]

/-- The last index of a direction. -/
def SplitState.pre (s : SplitState) (d : Bool) : Option ℕ := if d then s.posPre else s.negPre

/-- The last packet goes the other way than `d`. -/
def SplitState.turned (s : SplitState) (d : Bool) : Bool :=
  if d then decide (preSize s < 0) else decide (preSize s > 0)

/-- **One round at a packet**, for either direction. -/
theorem splitStep_of_own {s : SplitState} {j : ℕ} (h : ownItem d (s.pairs.getD j default) = true) :
    (splitStep s j).pairs =
        (if s.turned d then
          (setDelay s.pairs (s.pre d) (s.pairs.getD j default).time).modify j
            fun x => { x with expected := s.sum }
        else setDelay s.pairs (s.pre d) (s.pairs.getD j default).time) ∧
      (splitStep s j).pre d = some j ∧ (splitStep s j).pre (!d) = s.pre (!d) ∧
      (splitStep s j).preValid = some j ∧
      (splitStep s j).sum =
        (if s.turned d then 0 else s.sum) + (s.pairs.getD j default).size.natAbs := by
  unfold splitStep SplitState.turned SplitState.pre
  dsimp only
  cases d with
  | true =>
    have hpos := ownItem_true.mp h
    rw [if_pos hpos]
    by_cases hpre : preSize s < 0
    · simp only [hpre, if_true, decide_true, Bool.not_true, Bool.false_eq_true, if_false]
      exact ⟨trivial, trivial, trivial, trivial, by omega⟩
    · simp only [hpre, if_false, if_true, decide_false, Bool.not_true, Bool.false_eq_true]
      exact ⟨trivial, trivial, trivial, trivial, by omega⟩
  | false =>
    have hneg := ownItem_false.mp h
    rw [if_neg (by omega), if_pos hneg]
    by_cases hpre : preSize s > 0
    · simp only [hpre, if_true, decide_true, Bool.not_false, Bool.false_eq_true, if_false]
      exact ⟨trivial, trivial, trivial, trivial, by omega⟩
    · simp only [hpre, if_false, if_true, decide_false, Bool.not_false, Bool.false_eq_true]
      exact ⟨trivial, trivial, trivial, trivial, by omega⟩

theorem splitStep_of_zero {s : SplitState} {j : ℕ} (h : (s.pairs.getD j default).size = 0) :
    splitStep s j = s := by
  unfold splitStep
  dsimp only
  rw [if_neg (by omega), if_neg (by omega)]

/-! ## The invariant of the loop -/

/-- **The loop after `n` rounds.**  The entries below `n` are as `splitEntry` makes them of the
first `n` entries, the indices are the last ones of their kind, and the counter holds the bytes
of the burst at the end. -/
structure SplitInv (l : List StPair) (n : ℕ) (s : SplitState) : Prop where
  entry : ∀ j, s.pairs[j]? = l[j]?.map fun x =>
    if j < n then splitEntry (l.take j).reverse x ((l.take n).drop (j + 1)) else x
  pre : ∀ d, s.pre d = lastBefore (ownItem d) l n
  valid : s.preValid = lastBefore (fun x => decide (x.size ≠ 0)) l n
  sum : s.sum = burstBytes true (l.take n).reverse + burstBytes false (l.take n).reverse

theorem splitInv_zero (l : List StPair) : SplitInv l 0 { pairs := l } where
  entry j := by cases l[j]? <;> simp
  pre d := by cases d <;> rfl
  valid := rfl
  sum := rfl

namespace SplitInv

variable {l : List StPair} {n : ℕ} {s : SplitState}

/-- The loop has not yet touched the entry it comes to. -/
theorem current (h : SplitInv l n s) (hx : l[n]? = some x) : s.pairs.getD n default = x := by
  refine getD_of_getElem? ?_
  rw [h.entry n, hx]
  simp

/-- The direction of the last packet. -/
theorem turned_eq (h : SplitInv l n s) (hn : n ≤ l.length) (d : Bool) :
    s.turned d = lastIs (!d) (l.take n).reverse := by
  have hsize : ∀ i, (s.pairs.getD i default).size = (l.getD i default).size := by
    intro i
    rw [List.getD_eq_getElem?_getD, List.getD_eq_getElem?_getD, h.entry i]
    cases l[i]? with
    | none => rfl
    | some x =>
      simp only [Option.map_some, Option.getD_some]
      split <;> rfl
  have hlast : lastPacket (l.take n).reverse = s.preValid.map fun i => l.getD i default := by
    rw [h.valid]
    exact find?_reverse_take hn
  unfold SplitState.turned lastIs preSize
  rw [hlast]
  cases s.preValid with
  | none => cases d <;> rfl
  | some i =>
    simp only [hsize, Option.map_some, Option.any_some]
    cases d <;> rfl

/-- The entries after a round at a packet. -/
theorem entry_own (h : SplitInv l n s) (hx : l[n]? = some x) (hd : ownItem d x = true) (j : ℕ) :
    (setDelay s.pairs (s.pre d) x.time)[j]? = l[j]?.map fun y =>
      if j < n then splitEntry (l.take j).reverse y ((l.take (n + 1)).drop (j + 1)) else y := by
  obtain ⟨hn, -⟩ := List.getElem?_eq_some_iff.mp hx
  have hsame : ∀ y, ownItem d y = true → sameWay y x = true := by
    intro y hy
    rw [sameWay_of_own hy]
    exact hd
  rw [getElem?_setDelay, h.pre d]
  by_cases hpre : lastBefore (ownItem d) l n = some j
  · -- the last packet of this direction gets its delay
    obtain ⟨hj, hown, hlater⟩ := lastBefore_eq_some_iff.mp hpre
    have hy : l[j]? = some l[j] := List.getElem?_eq_getElem (by omega)
    rw [getD_of_getElem? hy] at hown
    have hnone : ((l.take n).drop (j + 1)).find? (sameWay l[j]) = none := by
      rw [sameWay_of_own hown]
      exact find?_drop_take_eq_none hn.le hlater
    rw [if_pos hpre, h.entry j, hy]
    simp only [Option.map_some, if_pos hj, Option.some.injEq]
    rw [drop_take_succ hx hj, splitEntry_of_own hown, splitEntry_of_own hown]
    unfold delay
    rw [List.find?_append, hnone, Option.none_or, List.find?_singleton, if_pos (hsame _ hown)]
  · -- the others keep theirs
    rw [if_neg hpre, h.entry j]
    cases hy : l[j]? with
    | none => rfl
    | some y =>
      simp only [Option.map_some, Option.some.injEq]
      split
      · rename_i hj
        rw [drop_take_succ hx hj]
        have hdelay : delay ((l.take n).drop (j + 1) ++ [x]) y =
            delay ((l.take n).drop (j + 1)) y := by
          cases hfind : ((l.take n).drop (j + 1)).find? (sameWay y) with
          | some z => exact delay_concat_of_find hfind
          | none =>
            -- a packet of this direction with none behind it would be the last one
            refine delay_concat_of_not (Bool.eq_false_iff.mpr fun hway => ?_)
            have hown := own_of_sameWay hd hway
            refine hpre (lastBefore_eq_some_iff.mpr ⟨hj, ?_, fun k hjk hkn => ?_⟩)
            · rw [getD_of_getElem? hy]
              exact hown
            · rw [← sameWay_of_own hown]
              exact forall_of_find?_drop_take hn.le hfind hjk hkn
        unfold splitEntry
        rw [hdelay]
      · rfl

/-- The packet the loop comes to: what it expects is the burst before it. -/
theorem entry_current (h : SplitInv l n s) (hx : l[n]? = some x) (hd : ownItem d x = true)
    (hpairs : (splitStep s n).pairs =
      if s.turned d then (setDelay s.pairs (s.pre d) x.time).modify n
        fun y => { y with expected := s.sum }
      else setDelay s.pairs (s.pre d) x.time) :
    (splitStep s n).pairs[n]? = some (splitEntry (l.take n).reverse x []) := by
  obtain ⟨hn, -⟩ := List.getElem?_eq_some_iff.mp hx
  have hentry := h.entry_own hx hd n
  rw [hx] at hentry
  simp only [Option.map_some, lt_irrefl, if_false] at hentry
  rw [hpairs, h.turned_eq hn.le d, splitEntry_of_own hd]
  unfold expectation delay
  rw [List.find?_nil]
  cases hlast : lastIs (!d) (l.take n).reverse with
  | true =>
    have hsum : s.sum = burstBytes (!d) (l.take n).reverse :=
      h.sum.trans (bursts_eq (by simpa using lastIs_not hlast))
    rw [if_pos rfl, if_pos rfl, List.getElem?_modify_eq, hentry, hsum]
    rfl
  | false => rw [if_neg Bool.false_ne_true, if_neg Bool.false_ne_true, hentry]

/-- A round at a packet. -/
theorem step_own (h : SplitInv l n s) (hx : l[n]? = some x) (hd : ownItem d x = true) :
    SplitInv l (n + 1) (splitStep s n) := by
  obtain ⟨hn, -⟩ := List.getElem?_eq_some_iff.mp hx
  have hcur := h.current hx
  have hne := size_ne_zero_of_own hd
  obtain ⟨hpairs, hpre, hother, hvalid, hsum⟩ :=
    splitStep_of_own (s := s) (j := n) (d := d) (by rw [hcur]; exact hd)
  rw [hcur] at hpairs hsum
  refine ⟨fun j => ?_, fun d' => ?_, ?_, ?_⟩
  · by_cases hj : j = n
    · subst hj
      have hnil : (l.take (j + 1)).drop (j + 1) = [] := by simp
      rw [h.entry_current hx hd hpairs, hx, Option.map_some, if_pos (Nat.lt_succ_self j), hnil]
    · -- the entries before keep what the delay left
      have hkeep : (splitStep s n).pairs[j]? = (setDelay s.pairs (s.pre d) x.time)[j]? := by
        rw [hpairs]
        split
        · exact List.getElem?_modify_ne _ _ (Ne.symm hj)
        · rfl
      have hiff : j < n ↔ j < n + 1 := by omega
      rw [hkeep, h.entry_own hx hd j]
      cases l[j]? with
      | none => rfl
      | some y => simp only [Option.map_some, hiff]
  · rw [lastBefore_succ, getD_of_getElem? hx]
    by_cases hd' : d' = d
    · rw [hd', hpre, if_pos hd]
    · obtain rfl : d' = !d := by cases d <;> cases d' <;> simp_all
      rw [hother, h.pre, if_neg (by simp [not_own_of_own hd])]
  · rw [lastBefore_succ, getD_of_getElem? hx, hvalid, if_pos (by simpa using hne)]
  · have hlater : lastIs (!d) (x :: (l.take n).reverse) = false := by
      unfold lastIs
      rw [lastPacket_cons_own hd]
      exact not_own_of_own hd
    rw [reverse_take_succ hx, bursts_eq hlater, burstBytes_cons_own hd, hsum, h.turned_eq hn.le d]
    cases hlast : lastIs (!d) (l.take n).reverse with
    | true =>
      rw [if_pos rfl, burstBytes_eq_zero (d := d) (by simpa using lastIs_not hlast)]
    | false => rw [if_neg Bool.false_ne_true, h.sum, bursts_eq hlast]

/-- An entry without a packet is passed over. -/
theorem step_zero (h : SplitInv l n s) (hx : l[n]? = some x) (hzero : x.size = 0) :
    SplitInv l (n + 1) (splitStep s n) := by
  have hcur := h.current hx
  rw [splitStep_of_zero (by rw [hcur]; exact hzero)]
  refine ⟨fun j => ?_, fun d => ?_, ?_, ?_⟩
  · rw [h.entry j]
    cases hy : l[j]? with
    | none => rfl
    | some y =>
      simp only [Option.map_some, Option.some.injEq]
      rcases lt_trichotomy j n with hj | hj | hj
      · have hway : sameWay y x = false := by simp [sameWay, not_own_of_zero hzero]
        rw [if_pos hj, if_pos (by omega), drop_take_succ hx hj]
        unfold splitEntry
        rw [delay_concat_of_not hway]
      · subst hj
        obtain rfl := Option.some.inj (hx.symm.trans hy)
        rw [if_neg (lt_irrefl _), if_pos (Nat.lt_succ_self _), splitEntry_of_zero hzero]
      · rw [if_neg (by omega), if_neg (by omega)]
  · rw [lastBefore_succ, getD_of_getElem? hx, h.pre d, if_neg (by simp [not_own_of_zero hzero])]
  · rw [lastBefore_succ, getD_of_getElem? hx, h.valid, if_neg (by simpa using hzero)]
  · rw [reverse_take_succ hx, burstBytes_cons_zero hzero, burstBytes_cons_zero hzero]
    exact h.sum

/-- **One round keeps the invariant.** -/
theorem step (h : SplitInv l n s) (hn : n < l.length) : SplitInv l (n + 1) (splitStep s n) := by
  have hx : l[n]? = some l[n] := List.getElem?_eq_getElem hn
  rcases exists_own_or_zero l[n] with ⟨d, hd⟩ | hzero
  · exact h.step_own hx hd
  · exact h.step_zero hx hzero

end SplitInv

/-- **The loop of `split`.** -/
theorem splitInv_splitLoop (l : List StPair) : SplitInv l l.length (splitLoop l) := by
  have hrounds : ∀ n ≤ l.length, SplitInv l n ((List.range n).foldl splitStep { pairs := l }) := by
    intro n
    induction n with
    | zero => exact fun _ => splitInv_zero l
    | succ n ih =>
      intro hn
      rw [List.range_succ, List.foldl_concat]
      exact (ih (by omega)).step (by omega)
  exact hrounds l.length le_rfl

/-! ## The result of `split` -/

/-- Map over a list with the past of each entry, newest first, and what comes after it. -/
def alongPast {α : Type} (f : List StPair → StPair → List StPair → α) :
    List StPair → List StPair → List α
  | _, [] => []
  | past, x :: after => f past x after :: alongPast f (x :: past) after

section AlongPast

variable {α : Type} (f : List StPair → StPair → List StPair → α)

theorem getElem?_alongPast (past l : List StPair) (j : ℕ) :
    (alongPast f past l)[j]? =
      l[j]?.map fun x => f ((l.take j).reverse ++ past) x (l.drop (j + 1)) := by
  induction l generalizing past j with
  | nil => rfl
  | cons x l ih =>
    cases j with
    | zero => rfl
    | succ j =>
      unfold alongPast
      rw [List.getElem?_cons_succ, ih]
      simp

/-- The part of the result that belongs to the end of a list. -/
theorem exists_alongPast_append (past l l' : List StPair) :
    ∃ pre, alongPast f past (l ++ l') = pre ++ alongPast f (l.reverse ++ past) l' := by
  induction l generalizing past with
  | nil => exact ⟨[], rfl⟩
  | cons x l ih =>
    obtain ⟨pre, hpre⟩ := ih (x :: past)
    refine ⟨f past x (l ++ l') :: pre, ?_⟩
    rw [List.cons_append, alongPast, hpre]
    simp

end AlongPast

/-- The entries after the loop of `split`. -/
theorem pairs_splitLoop (l : List StPair) : (splitLoop l).pairs = alongPast splitEntry [] l := by
  refine List.ext_getElem? fun j => ?_
  rw [(splitInv_splitLoop l).entry j, getElem?_alongPast]
  cases hx : l[j]? with
  | none => rfl
  | some x =>
    obtain ⟨hj, -⟩ := List.getElem?_eq_some_iff.mp hx
    simp only [Option.map_some, if_pos hj, List.take_length, List.append_nil]

/-- The last packet of a direction. -/
theorem pre_splitLoop_eq_some_iff {j : ℕ} :
    (splitLoop l).pre d = some j ↔ ∃ x, l[j]? = some x ∧ ownItem d x = true ∧
      (l.drop (j + 1)).find? (ownItem d) = none := by
  rw [(splitInv_splitLoop l).pre d, lastBefore_eq_some_iff]
  have htake : (l.drop (j + 1)) = (l.take l.length).drop (j + 1) := by rw [List.take_length]
  rw [htake]
  constructor
  · rintro ⟨hj, hown, hlater⟩
    have hx : l[j]? = some l[j] := List.getElem?_eq_getElem hj
    rw [getD_of_getElem? hx] at hown
    exact ⟨l[j], hx, hown, find?_drop_take_eq_none le_rfl hlater⟩
  · rintro ⟨x, hx, hown, hnone⟩
    obtain ⟨hj, -⟩ := List.getElem?_eq_some_iff.mp hx
    refine ⟨hj, ?_, fun k hjk hk => forall_of_find?_drop_take le_rfl hnone hjk hk⟩
    rw [getD_of_getElem? hx]
    exact hown

/-- An entry of a prepared trace: the last packet of a direction waits until `last`. -/
def splitFinal (last : ℤ) (past : List StPair) (x : StPair) (after : List StPair) : StPair :=
  { splitEntry past x after with
    time := if x.size ≠ 0 ∧ after.find? (sameWay x) = none then toInt (last - x.time)
      else delay after x }

/-- The last packet of its direction waits until the last valid time. -/
theorem splitFinal_of_own (hd : ownItem d x = true) (last : ℤ) (past after : List StPair) :
    splitFinal last past x after =
      if after.find? (ownItem d) = none then
        { splitEntry past x after with
          time := toInt (last - (splitEntry past x after).time) }
      else splitEntry past x after := by
  have hne := size_ne_zero_of_own hd
  unfold splitFinal
  rw [sameWay_of_own hd]
  by_cases hnone : after.find? (ownItem d) = none
  · have htime : (splitEntry past x after).time = x.time := by
      unfold splitEntry delay
      rw [sameWay_of_own hd, hnone]
    rw [if_pos ⟨hne, hnone⟩, if_pos hnone, htime]
  · rw [if_neg fun h => hnone h.2, if_neg hnone]
    rfl

theorem splitFinal_of_zero (hx : x.size = 0) (last : ℤ) (past after : List StPair) :
    splitFinal last past x after = splitEntry past x after := by
  unfold splitFinal
  rw [if_neg fun h => h.1 hx]
  rfl

theorem getElem?_setLastDelay (pairs : List StPair) (pre : Option ℕ) (last : ℤ) (j : ℕ) :
    (setLastDelay pairs pre last).1[j]? =
      if pre = some j then pairs[j]?.map fun x => { x with time := toInt (last - x.time) }
      else pairs[j]? := by
  unfold setLastDelay
  cases pre with
  | none => simp
  | some i =>
    dsimp only
    rw [List.getElem?_modify]
    by_cases hij : i = j
    · simp [hij]
    · simp [hij]

/-- **`split`, entry by entry.** -/
theorem splitTrace_eq (last : ℤ) (l : List StPair) :
    (splitTrace last l).1 =
      alongPast (splitFinal (lastValidTime last (alongPast splitEntry [] l))) [] l := by
  refine List.ext_getElem? fun j => ?_
  have hpos := pre_splitLoop_eq_some_iff (l := l) (d := true) (j := j)
  have hneg := pre_splitLoop_eq_some_iff (l := l) (d := false) (j := j)
  unfold SplitState.pre at hpos hneg
  simp only [if_true, Bool.false_eq_true, if_false] at hpos hneg
  unfold splitTrace
  dsimp only
  rw [getElem?_setLastDelay, getElem?_setLastDelay, pairs_splitLoop, getElem?_alongPast,
    getElem?_alongPast]
  generalize lastValidTime last (alongPast splitEntry [] l) = t
  simp only [hpos, hneg]
  cases hx : l[j]? with
  | none => simp
  | some x =>
    simp only [Option.some.injEq, exists_eq_left', Option.map_some, List.append_nil]
    rcases exists_own_or_zero x with ⟨d, hd⟩ | hzero
    · have hother := not_own_of_own hd
      rw [splitFinal_of_own hd]
      cases d with
      | true =>
        simp only [Bool.not_true] at hother
        simp only [hd, hother, Bool.false_eq_true, false_and, if_false, true_and]
        split_ifs <;> rfl
      | false =>
        simp only [Bool.not_false] at hother
        simp only [hd, hother, Bool.false_eq_true, false_and, if_false, true_and]
        split_ifs <;> rfl
    · rw [splitFinal_of_zero hzero]
      simp only [not_own_of_zero hzero, Bool.false_eq_true, false_and, if_false]

theorem getElem?_splitTrace (last : ℤ) (l : List StPair) (j : ℕ) :
    (splitTrace last l).1[j]? = l[j]?.map fun x =>
      splitFinal (lastValidTime last (alongPast splitEntry [] l)) (l.take j).reverse x
        (l.drop (j + 1)) := by
  rw [splitTrace_eq, getElem?_alongPast]
  simp only [List.append_nil]

/-! ## Expected bytes -/

theorem ownItem_splitFinal (d : Bool) (last : ℤ) (past : List StPair) (x : StPair)
    (after : List StPair) : ownItem d (splitFinal last past x after) = ownItem d x := rfl

theorem expected_splitFinal (hx : ownItem d x = true) (last : ℤ) (past after : List StPair) :
    (splitFinal last past x after).expected = expectation d past x := by
  unfold splitFinal
  dsimp only
  rw [splitEntry_of_own hx]

/-- A packet that expects nothing by itself expects the burst before it. -/
theorem expectation_eq (hx : x.expected = 0) (past : List StPair) :
    expectation d past x = burstBytes (!d) past := by
  unfold expectation
  split
  · rfl
  · rename_i hlast
    rw [hx, burstBytes_eq_zero (Bool.eq_false_iff.mpr hlast)]

/-- The burst at the end of the past, without the entries of size 0. -/
theorem burstBytes_eq_packets (d : Bool) (past : List StPair) :
    burstBytes d past =
      bytes d ((past.filter fun x => decide (x.size ≠ 0)).takeWhile (ownItem d)) := by
  induction past with
  | nil => rfl
  | cons x past ih =>
    rcases exists_own_or_zero x with ⟨d', hx⟩ | hx
    · have hne := size_ne_zero_of_own hx
      rw [List.filter_cons_of_pos (by simpa using hne)]
      by_cases hd : d' = d
      · rw [hd] at hx
        rw [burstBytes_cons_own hx, List.takeWhile_cons_of_pos hx, bytes_cons, if_pos hx, ih]
      · obtain rfl : d' = !d := by cases d <;> cases d' <;> simp_all
        have hother := not_own_of_own hx
        rw [Bool.not_not] at hother
        rw [burstBytes_cons_other hx, List.takeWhile_cons_of_neg (by simp [hother])]
        rfl
    · rw [burstBytes_cons_zero hx, ih, List.filter_cons_of_neg (by simpa using hx)]

/-- The packets of a trace before entry `j`. -/
def packetsBefore (l : List StPair) (j : ℕ) : List StPair :=
  (l.take j).filter fun x => decide (x.size ≠ 0)

theorem burstBytes_reverse_take (d : Bool) (l : List StPair) (j : ℕ) :
    burstBytes d (l.take j).reverse = bytes d ((packetsBefore l j).rtakeWhile (ownItem d)) := by
  have hrev : ∀ m : List StPair, bytes d m.reverse = bytes d m := by
    intro m
    unfold bytes
    rw [List.filter_reverse, List.map_reverse, List.sum_reverse]
  rw [burstBytes_eq_packets, List.filter_reverse]
  unfold packetsBefore List.rtakeWhile
  rw [hrev]

/-- The bytes expected by the packets of one direction, over the past. -/
def expectedSoFar (d : Bool) : List StPair → ℕ
  | [] => 0
  | x :: past => expectedSoFar d past + if ownItem d x then burstBytes (!d) past else 0

/-- They are the bytes of the other direction before the last packet. -/
theorem expectedSoFar_eq (d : Bool) (past : List StPair) :
    expectedSoFar d past = bytes (!d) (past.dropWhile fun x => !ownItem d x) := by
  induction past with
  | nil => rfl
  | cons x past ih =>
    unfold expectedSoFar
    rw [ih]
    cases hx : ownItem d x with
    | true =>
      have hsplit : bytes (!d) past = bytes (!d) (past.takeWhile fun x => !ownItem d x) +
          bytes (!d) (past.dropWhile fun x => !ownItem d x) := by
        rw [← bytes_append, List.takeWhile_append_dropWhile]
      rw [if_pos rfl, List.dropWhile_cons_of_neg (by simp [hx]), bytes_cons,
        if_neg (by simp [not_own_of_own hx]), hsplit]
      unfold burstBytes
      rw [Bool.not_not]
      omega
    | false =>
      rw [if_neg Bool.false_ne_true, List.dropWhile_cons_of_pos (by simp [hx])]
      rfl

/-- Adding up what the packets of one direction expect. -/
theorem sum_expected_alongPast (d : Bool) (last : ℤ) (hzero : ∀ x ∈ l, x.expected = 0)
    (past : List StPair) :
    expectedSoFar d past +
        (((alongPast (splitFinal last) past l).filter (ownItem d)).map StPair.expected).sum =
      expectedSoFar d (l.reverse ++ past) := by
  induction l generalizing past with
  | nil => rfl
  | cons x l ih =>
    have hrest := ih (fun y hy => hzero y (List.mem_cons_of_mem x hy)) (x :: past)
    have hrev : (x :: l).reverse ++ past = l.reverse ++ x :: past := by simp
    rw [hrev, ← hrest, alongPast, List.filter_cons, ownItem_splitFinal, expectedSoFar]
    cases hx : ownItem d x with
    | true =>
      rw [if_pos rfl, if_pos rfl, List.map_cons, List.sum_cons, expected_splitFinal hx,
        expectation_eq (hzero x List.mem_cons_self)]
      omega
    | false => rw [if_neg Bool.false_ne_true, if_neg Bool.false_ne_true, Nat.add_zero]

/-- **Expected counts equal the preceding opposite burst.**  In a trace whose entries expect
nothing yet, a packet expects the bytes of the opposite packets right before it, entries of
size 0 left aside, and nothing if the packet before it goes in its own direction.  In all, the
packets of a direction expect the bytes of the other one before their last packet. -/
theorem expected_counts (last : ℤ) (l : List StPair) (hzero : ∀ x ∈ l, x.expected = 0) (d : Bool) :
    (∀ j x, l[j]? = some x → ownItem d x = true →
      ∃ y, (splitTrace last l).1[j]? = some y ∧ y.size = x.size ∧
        y.expected = if (packetsBefore l j).getLast?.any (ownItem (!d)) then
          bytes (!d) ((packetsBefore l j).rtakeWhile (ownItem (!d))) else 0) ∧
      (((splitTrace last l).1.filter (ownItem d)).map StPair.expected).sum =
        bytes (!d) (l.rdropWhile fun x => !ownItem d x) := by
  constructor
  · intro j x hx hown
    have hy := getElem?_splitTrace last l j
    rw [hx, Option.map_some] at hy
    refine ⟨_, hy, rfl, ?_⟩
    rw [expected_splitFinal hown, expectation_eq (hzero x (List.mem_of_getElem? hx)),
      burstBytes_reverse_take]
    split
    · rfl
    · -- the packet before goes in the same direction: the burst is empty
      rename_i hlast
      cases hpackets : (packetsBefore l j).getLast? with
      | none =>
        rw [List.getLast?_eq_none_iff.mp hpackets]
        rfl
      | some z =>
        rw [hpackets, Option.any_some] at hlast
        obtain ⟨front, heq⟩ := List.getLast?_eq_some_iff.mp hpackets
        rw [heq, List.rtakeWhile_concat_neg _ _ _ hlast]
        rfl
  · rw [splitTrace_eq]
    have hsum := sum_expected_alongPast d
      (lastValidTime last (alongPast splitEntry [] l)) hzero []
    have hnil : expectedSoFar d [] = 0 := rfl
    rw [hnil, Nat.zero_add] at hsum
    rw [hsum, expectedSoFar_eq, List.append_nil]
    unfold List.rdropWhile bytes
    rw [List.filter_reverse, List.map_reverse, List.sum_reverse]

/-- Two client bursts around one of the server, with an entry that was merged away. -/
def twoBursts : List StPair :=
  [⟨-100, 0, 0, 0⟩, ⟨0, 0, 0, 0⟩, ⟨-30, 400000, 0, 0⟩, ⟨200, 500000, 0, 0⟩, ⟨-70, 600000, 0, 0⟩]

theorem expected_counts_twoBursts :
    (∃ y, (splitTrace 0 twoBursts).1[3]? = some y ∧ y.size = 200 ∧ y.expected = 130) ∧
      (((splitTrace 0 twoBursts).1.filter (ownItem false)).map StPair.expected).sum = 200 := by
  refine ⟨?_, (expected_counts 0 twoBursts (by decide) false).2⟩
  exact (expected_counts 0 twoBursts (by decide) true).1 3 ⟨200, 500000, 0, 0⟩ rfl rfl

/-! ## Pace -/

/-- What a list of entries expects. -/
def expectedBytes (l : List StPair) : ℕ := (l.map StPair.expected).sum

theorem expectedBytes_append (l l' : List StPair) :
    expectedBytes (l ++ l') = expectedBytes l + expectedBytes l' := by
  simp [expectedBytes]

@[simp] theorem expectedBytes_singleton (x : StPair) : expectedBytes [x] = x.expected := by
  simp [expectedBytes]

/-- A trace that keeps pace: up to and with each packet, the packets of its direction expect the
bytes of the other direction before it. -/
def Paced (l : List StPair) : Prop :=
  ∀ d before x after, l = before ++ x :: after → ownItem d x = true →
    expectedBytes (before.filter (ownItem d)) + x.expected = bytes (!d) before

/-- What the packets of the past expect, with the burst at its end. -/
theorem expectedSoFar_add_burst (d : Bool) (past : List StPair) :
    expectedSoFar d past + burstBytes (!d) past = bytes (!d) past := by
  have hsplit : bytes (!d) past = bytes (!d) (past.takeWhile fun x => !ownItem d x) +
      bytes (!d) (past.dropWhile fun x => !ownItem d x) := by
    rw [← bytes_append, List.takeWhile_append_dropWhile]
  rw [expectedSoFar_eq, hsplit]
  unfold burstBytes
  rw [Bool.not_not, Nat.add_comm]

theorem paced_alongPast (d : Bool) (last : ℤ) (hzero : ∀ x ∈ l, x.expected = 0)
    {before : List StPair} {y : StPair}
    (hl : alongPast (splitFinal last) past l = before ++ y :: after) (hy : ownItem d y = true) :
    expectedSoFar d past + expectedBytes (before.filter (ownItem d)) + y.expected =
      bytes (!d) past + bytes (!d) before := by
  induction l generalizing past before with
  | nil => cases before <;> cases hl
  | cons x l ih =>
    have hexpects : ∀ {z}, ownItem d x = true → z = splitFinal last past x l →
        z.expected = burstBytes (!d) past := by
      rintro _ hx rfl
      rw [expected_splitFinal hx, expectation_eq (hzero x List.mem_cons_self)]
    have hpast := expectedSoFar_add_burst d past
    rw [alongPast] at hl
    cases before with
    | nil =>
      obtain ⟨rfl, -⟩ := List.cons.inj hl
      have hburst := hexpects hy rfl
      rw [List.filter_nil, bytes_nil, hburst]
      exact hpast
    | cons z before =>
      obtain ⟨rfl, htail⟩ := List.cons.inj hl
      have hrest := ih (fun y hy => hzero y (List.mem_cons_of_mem x hy)) htail
      rw [expectedSoFar, bytes_cons] at hrest
      rw [List.filter_cons, ownItem_splitFinal, bytes_cons, ownItem_splitFinal]
      have hsize : (splitFinal last past x l).size = x.size := rfl
      rw [hsize]
      cases hx : ownItem d x with
      | true =>
        have hburst := hexpects hx rfl
        rw [hx, if_pos rfl] at hrest
        rw [if_pos rfl, ← List.singleton_append, expectedBytes_append,
          expectedBytes_singleton, hburst]
        omega
      | false =>
        rw [hx, if_neg Bool.false_ne_true] at hrest
        rw [if_neg Bool.false_ne_true]
        omega

/-- **A prepared trace keeps pace.** -/
theorem paced_splitTrace (last : ℤ) (hzero : ∀ x ∈ l, x.expected = 0) :
    Paced (splitTrace last l).1 := by
  intro d before x after hl hx
  rw [splitTrace_eq] at hl
  have hpaced := paced_alongPast d _ hzero hl hx
  rw [bytes_nil, Nat.zero_add] at hpaced
  rw [← hpaced]
  exact congrArg (· + x.expected) (Nat.zero_add _).symm

theorem filter_eq_nil_of_not (h : ∀ x ∈ l, !p x) : l.filter p = [] :=
  List.filter_eq_nil_iff.mpr fun x hx => by simpa using h x hx

/-- If the first packet of a direction expects nothing, the first one of the other direction
expects it. -/
theorem Paced.first_le (h : Paced l) {y : StPair} (hx : x ∈ (l.filter (ownItem d)).head?)
    (hzero : x.expected = 0) (hy : y ∈ (l.filter (ownItem (!d))).head?) :
    x.size.natAbs ≤ y.expected := by
  rw [List.head?_filter] at hx hy
  obtain ⟨hownx, l1, l2, hl, hnotx⟩ := List.find?_eq_some_iff_append.mp hx
  obtain ⟨howny, m1, m2, hm, hnoty⟩ := List.find?_eq_some_iff_append.mp hy
  have hbefore := h d l1 x l2 hl hownx
  have hexpected := h (!d) m1 y m2 hm howny
  rw [filter_eq_nil_of_not hnotx, hzero] at hbefore
  rw [filter_eq_nil_of_not hnoty, Bool.not_not] at hexpected
  have hbefore : bytes (!d) l1 = 0 := hbefore.symm
  have hexpected : y.expected = bytes d m1 := (Nat.zero_add _).symm.trans hexpected
  have hne : y ≠ x := by
    rintro rfl
    rw [not_own_of_own hownx] at howny
    cases howny
  rcases List.append_eq_append_iff.mp (hm.symm.trans hl) with ⟨c, hc, hrest⟩ | ⟨c, hc, hrest⟩
  · -- the other direction comes first, so the packet expects something
    cases c with
    | nil => exact absurd (List.cons.inj hrest).1 hne
    | cons z c =>
      obtain rfl := (List.cons.inj hrest).1
      have hmem : y ∈ l1 := hc ▸ List.mem_append_right m1 List.mem_cons_self
      rw [bytes_eq_zero_iff.mp hbefore y hmem] at howny
      cases howny
  · cases c with
    | nil => exact absurd (List.cons.inj hrest).1.symm hne
    | cons z c =>
      obtain rfl := (List.cons.inj hrest).1
      rw [hexpected, hc, bytes_append, bytes_cons, if_pos hownx]
      omega

end CSBuFLO
