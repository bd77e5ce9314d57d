/-
# Recorded traces and the trace cursor (`load_st.c`, `misc.c`)

A trace is a list of `StPair`s.  `change_to_relative_time` and `split` prepare it after
loading: bursts of one direction within 200 ms are merged into their first entry (the
others become zero entries), times become delays to the next entry of the same
direction, and `expected` is set to the size of the opposite burst that comes before.

The cursor of an endpoint is `cluster_id`, `st_index` and `cur_item`; client and server
walk over the same trace and stop at the entries of their own direction.
-/
import CSBuFLO.Misc

namespace CSBuFLO

/-! ## Preparing a trace -/

/-- The inner loop of `refresh_trace`: `head` has taken up the entries so far, `stime` and
`ssize` are its original time and size.  Returns the merged head, the entries it took up
(now zero) and the rest. -/
def mergeBurst (stime ssize : ℤ) (head : StPair) :
    List StPair → StPair × List StPair × List StPair
  | [] => (head, [], [])
  | x :: xs =>
    if (x.size < 0 ∧ ssize > 0) ∨ (x.size > 0 ∧ ssize < 0) then (head, [], x :: xs)
    -- an `int` minus an `unsigned long long`
    else if (x.time - stime) % 2 ^ 64 ≥ 200000 then (head, [], x :: xs)
    else
      let r := mergeBurst stime ssize
        { head with size := head.size + x.size, time := x.time, sprob := x.sprob } xs
      (r.1, { x with size := 0, time := 0, sprob := 0 } :: r.2.1, r.2.2)

/-- `refresh_trace` with at most `fuel` bursts. -/
def refreshBursts : ℕ → List StPair → List StPair
  | 0, l => l
  | _ + 1, [] => []
  | fuel + 1, x :: xs =>
    let r := mergeBurst x.time x.size x xs
    r.1 :: (r.2.1 ++ refreshBursts fuel r.2.2)

/-- `refresh_trace`. -/
def refreshTrace (l : List StPair) : List StPair := refreshBursts l.length l

/-- `change_to_relative_time` for one trace; a difference of `int`s that does not fit wraps. -/
def changeToRelativeTime (l : List StPair) : List StPair :=
  refreshTrace (l.map fun x => { x with time := toInt (x.time - (l.headD default).time) })

/-- The variables of the inner loop of `split`; `none` is index `-1`. -/
structure SplitState where
  pairs : List StPair
  posPre : Option ℕ := none
  negPre : Option ℕ := none
  preValid : Option ℕ := none
  sum : ℕ := 0

/-- The time of the previous packet of a direction becomes the delay to this one. -/
def setDelay (pairs : List StPair) (pre : Option ℕ) (curtime : ℤ) : List StPair :=
  match pre with
  | none => pairs
  | some i => pairs.modify i fun x => { x with time := toInt (curtime - x.time) }

/-- The size of the last non-zero packet, 0 before the first one. -/
def preSize (s : SplitState) : ℤ :=
  match s.preValid with
  | none => 0
  | some i => (s.pairs.getD i default).size

/-- One round of the inner loop of `split`. -/
def splitStep (s : SplitState) (j : ℕ) : SplitState :=
  let cur := s.pairs.getD j default
  if cur.size > 0 then
    let pairs := setDelay s.pairs s.posPre cur.time
    if preSize s < 0 then
      { s with
        pairs := pairs.modify j fun x => { x with expected := s.sum }
        posPre := some j, preValid := some j, sum := cur.size.toNat }
    else { s with pairs := pairs, posPre := some j, preValid := some j,
                  sum := s.sum + cur.size.toNat }
  else if cur.size < 0 then
    let pairs := setDelay s.pairs s.negPre cur.time
    if preSize s > 0 then
      { s with
        pairs := pairs.modify j fun x => { x with expected := s.sum }
        negPre := some j, preValid := some j, sum := (-cur.size).toNat }
    else { s with
      pairs := pairs, negPre := some j, preValid := some j, sum := s.sum + (-cur.size).toNat }
  else s

/-- The inner loop of `split`. -/
def splitLoop (l : List StPair) : SplitState :=
  (List.range l.length).foldl splitStep { pairs := l }

/-- The last positive time, or the one of an earlier trace when there is none. -/
def lastValidTime (last : ℤ) (pairs : List StPair) : ℤ :=
  ((pairs.reverse.find? fun x => decide (x.time > 0)).map StPair.time).getD last

/-- The last packet of a direction waits until the last valid time.  With no packet of that
direction the source writes to index `-1`; the flag of the result says so. -/
def setLastDelay (pairs : List StPair) (pre : Option ℕ) (last : ℤ) : List StPair × Bool :=
  match pre with
  | none => (pairs, true)
  | some i => (pairs.modify i fun x => { x with time := toInt (last - x.time) }, false)

/-- `split` for one trace, given the `last_valid_time` left by the traces before it.
Returns the trace, the new `last_valid_time` and whether index `-1` was written. -/
def splitTrace (last : ℤ) (l : List StPair) : List StPair × ℤ × Bool :=
  let s := splitLoop l
  let last := lastValidTime last s.pairs
  let r := setLastDelay s.pairs s.posPre last
  let r' := setLastDelay r.1 s.negPre last
  (r'.1, last, r.2 || r'.2)

/-! ## The directions of a trace -/

/-- The sizes of a trace. -/
def sizes (l : List StPair) : List ℤ := l.map StPair.size

/-- Changing an entry without its size keeps the sizes. -/
theorem sizes_modify {f : StPair → StPair} (hf : ∀ x, (f x).size = x.size) (l : List StPair)
    (i : ℕ) : sizes (l.modify i f) = sizes l := by
  refine List.ext_getElem? fun k => ?_
  unfold sizes
  rw [List.getElem?_map, List.getElem?_map, List.getElem?_modify]
  cases l[k]? with
  | none => rfl
  | some x =>
    simp only [Option.map_eq_map, Option.map_some, Option.some.injEq]
    split
    · exact hf x
    · rfl

theorem sizes_setDelay (pairs : List StPair) (pre : Option ℕ) (curtime : ℤ) :
    sizes (setDelay pairs pre curtime) = sizes pairs := by
  unfold setDelay
  split
  · rfl
  · refine sizes_modify ?_ _ _
    exact fun _ => rfl

/-- One round of `split` keeps the sizes, and notes the entry for its direction. -/
theorem splitStep_spec (s : SplitState) (j : ℕ) :
    sizes (splitStep s j).pairs = sizes s.pairs ∧
      (splitStep s j).posPre = (if 0 < (s.pairs.getD j default).size then some j else s.posPre) ∧
      (splitStep s j).negPre =
        if (s.pairs.getD j default).size < 0 then some j else s.negPre := by
  have hmodify : ∀ pairs : List StPair,
      sizes (pairs.modify j fun x => { x with expected := s.sum }) = sizes pairs := by
    intro pairs
    refine sizes_modify ?_ pairs j
    exact fun _ => rfl
  unfold splitStep
  dsimp only
  by_cases hpos : (s.pairs.getD j default).size > 0
  · have hneg : ¬(s.pairs.getD j default).size < 0 := by omega
    rw [if_pos hpos, if_pos hpos, if_neg hneg]
    split
    · exact ⟨(hmodify _).trans (sizes_setDelay _ _ _), rfl, rfl⟩
    · exact ⟨sizes_setDelay _ _ _, rfl, rfl⟩
  · rw [if_neg hpos, if_neg hpos]
    by_cases hneg : (s.pairs.getD j default).size < 0
    · rw [if_pos hneg, if_pos hneg]
      split
      · exact ⟨(hmodify _).trans (sizes_setDelay _ _ _), rfl, rfl⟩
      · exact ⟨sizes_setDelay _ _ _, rfl, rfl⟩
    · rw [if_neg hneg, if_neg hneg]
      exact ⟨rfl, rfl, rfl⟩

/-- The size of an entry. -/
theorem size_getD {l l' : List StPair} (h : sizes l = sizes l') (j : ℕ) :
    (l.getD j default).size = (l'.getD j default).size := by
  have hj : (sizes l)[j]? = (sizes l')[j]? := by rw [h]
  unfold sizes at hj
  rw [List.getElem?_map, List.getElem?_map] at hj
  rw [List.getD_eq_getElem?_getD, List.getD_eq_getElem?_getD]
  cases hl : l[j]? <;> cases hl' : l'[j]? <;> simp_all

/-- **The inner loop of `split`** keeps the sizes and finds a last entry of each direction
exactly if there is one. -/
theorem splitLoop_spec (l : List StPair) (n : ℕ) :
    let s := (List.range n).foldl splitStep { pairs := l }
    sizes s.pairs = sizes l ∧
      (s.posPre.isSome ↔ ∃ k < n, 0 < (l.getD k default).size) ∧
      (s.negPre.isSome ↔ ∃ k < n, (l.getD k default).size < 0) := by
  induction n with
  | zero => exact ⟨rfl, by simp, by simp⟩
  | succ n ih =>
    rw [List.range_succ, List.foldl_concat]
    generalize (List.range n).foldl splitStep { pairs := l } = s at ih ⊢
    obtain ⟨hsizes, hpos, hneg⟩ := ih
    obtain ⟨hsizes', hpos', hneg'⟩ := splitStep_spec s n
    rw [size_getD hsizes n] at hpos' hneg'
    refine ⟨hsizes'.trans hsizes, ?_, ?_⟩
    · rw [hpos', Nat.exists_lt_succ_right, ← hpos]
      split <;> simp_all
    · rw [hneg', Nat.exists_lt_succ_right, ← hneg]
      split <;> simp_all

/-- A trace with packets of both directions. -/
def TwoWay (l : List StPair) : Prop := (∃ x ∈ l, 0 < x.size) ∧ ∃ x ∈ l, x.size < 0

instance (l : List StPair) : Decidable (TwoWay l) := inferInstanceAs (Decidable (_ ∧ _))

theorem exists_getD_iff {p : StPair → Prop} (l : List StPair) :
    (∃ k < l.length, p (l.getD k default)) ↔ ∃ x ∈ l, p x := by
  constructor
  · rintro ⟨k, hk, hp⟩
    rw [List.getD_eq_getElem _ _ hk] at hp
    exact ⟨_, List.getElem_mem hk, hp⟩
  · rintro ⟨x, hx, hp⟩
    obtain ⟨k, hk, rfl⟩ := List.mem_iff_getElem.mp hx
    exact ⟨k, hk, by rwa [List.getD_eq_getElem _ _ hk]⟩

/-- **`split` stays inside the trace exactly if it has packets of both directions.** -/
theorem splitTrace_inside_iff (last : ℤ) (l : List StPair) :
    (splitTrace last l).2.2 = false ↔ TwoWay l := by
  obtain ⟨-, hpos, hneg⟩ := splitLoop_spec l l.length
  rw [exists_getD_iff (p := fun x => 0 < x.size)] at hpos
  rw [exists_getD_iff (p := fun x => x.size < 0)] at hneg
  have hflag : ∀ pairs pre t, (setLastDelay pairs pre t).2 = false ↔ pre.isSome = true := by
    intro pairs pre t
    unfold setLastDelay
    split <;> simp
  unfold splitTrace TwoWay
  dsimp only
  rw [Bool.or_eq_false_iff, hflag, hflag, ← hpos, ← hneg]
  rfl

/-! ## The cursor -/

/-- The entries an endpoint sends: positive sizes for the server, negative ones for the
client. -/
def ownItem (isPos : Bool) (x : StPair) : Bool :=
  if isPos then decide (x.size > 0) else decide (x.size < 0)

/-- The first own entry of a list whose first entry has index `i`. -/
def firstOwn (isPos : Bool) : ℕ → List StPair → Option (ℕ × StPair)
  | _, [] => none
  | i, x :: xs => if ownItem isPos x then some (i, x) else firstOwn isPos (i + 1) xs

/-- `move_to_next_st_item`. -/
def moveToNextStItem (straces : ℤ → List StPair) (isPos : Bool) (g : Globals) : Globals :=
  if g.clusterId < 0 then g
  else
    let trace := straces g.clusterId
    if g.stIndex < 0 ∨ g.stIndex ≥ trace.length then { g with curItem := none, stIndex := -1 }
    else
      match firstOwn isPos g.stIndex.toNat (trace.drop g.stIndex.toNat) with
      | some (i, x) => { g with curItem := some x, stIndex := i + 1 }
      | none => { g with curItem := none, stIndex := -1 }

/-- `should_jump_trans_end`. -/
def shouldJumpTransEnd (rand : ℕ) (g : Globals) : Bool × Globals :=
  if g.clusterId < 0 then (true, g)
  else
    match g.curItem with
    | none => (true, g)
    | some item =>
      if g.transcriptEnd then (true, g)
      else if rand % 100 < item.sprob then (true, { g with curItem := none, stIndex := -1 })
      else (false, g)

/-- `set_first_sent`: skip a leading run of positive entries and the run of negative
entries after it; what the next entry expects is the server's initial credit. -/
def setFirstSent (straces : ℤ → List StPair) (g : Globals) : Globals :=
  if g.clusterId = -1 then g
  else
    let trace := straces g.clusterId
    if g.stIndex < 0 ∨ g.stIndex ≥ trace.length then g
    else
      let rest := (trace.drop g.stIndex.toNat).dropWhile fun x => decide (x.size > 0)
      let rest := rest.dropWhile fun x => decide (x.size < 0)
      match rest with
      | [] => g
      | x :: _ =>
        -- the entry found has index `trace.length - rest.length`
        { g with
          firstExpected := x.expected
          firstSent := if trace.length - rest.length ≥ 1 then true else g.firstSent }

end CSBuFLO
