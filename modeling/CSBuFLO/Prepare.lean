/-
# Preparing the traces of all clusters

`change_to_relative_time` and `split` go over the traces one after the other.  The variables of
`split` are reset for each trace, except `last_valid_time`, which is left from the trace before
if no entry of a trace has a positive time.  And a trace without packets of one direction is
accessed at index `-1`.

`prepare_alone_iff` says for which traces neither matters: what preparing leaves in such a trace
depends on this trace only, whatever table it is part of.
-/
import CSBuFLO.LoadSt
import CSBuFLO.Split

namespace CSBuFLO

/-! ## One trace -/

/-- Some entry has a positive time when `split` looks for the last valid one: a delay to the
next packet of its direction, or the time of an entry without one. -/
def HasValidTime (l : List StPair) : Prop :=
  ∃ (j : ℕ) (x : StPair), l[j]? = some x ∧ 0 < delay (l.drop (j + 1)) x

/-- The time of an earlier trace is used exactly if there is no valid time. -/
theorem lastValidTime_cases (l : List StPair) :
    (HasValidTime l ∧ ∃ t, ∀ last, lastValidTime last (alongPast splitEntry [] l) = t) ∨
      (¬HasValidTime l ∧ ∀ last, lastValidTime last (alongPast splitEntry [] l) = last) := by
  have hentry : ∀ j, (alongPast splitEntry [] l)[j]? =
      l[j]?.map fun x => splitEntry (l.take j).reverse x (l.drop (j + 1)) := by
    intro j
    rw [getElem?_alongPast]
    simp only [List.append_nil]
  unfold lastValidTime
  cases hfind : (alongPast splitEntry [] l).reverse.find? fun x => decide (x.time > 0) with
  | some y =>
    refine Or.inl ⟨?_, y.time, fun _ => rfl⟩
    have hmem : y ∈ alongPast splitEntry [] l :=
      List.mem_reverse.mp (List.mem_of_find?_eq_some hfind)
    obtain ⟨j, hj⟩ := List.mem_iff_getElem?.mp hmem
    rw [hentry, Option.map_eq_some_iff] at hj
    obtain ⟨x, hx, rfl⟩ := hj
    have hpos := List.find?_some hfind
    exact ⟨j, x, hx, of_decide_eq_true hpos⟩
  | none =>
    refine Or.inr ⟨?_, fun _ => rfl⟩
    rintro ⟨j, x, hx, hpos⟩
    have hmem : splitEntry (l.take j).reverse x (l.drop (j + 1)) ∈ alongPast splitEntry [] l := by
      refine List.mem_of_getElem? (i := j) ?_
      rw [hentry, hx]
      rfl
    exact List.find?_eq_none.mp hfind _ (List.mem_reverse.mpr hmem) (decide_eq_true hpos)

variable {l : List StPair}

/-- With a valid time of its own, a trace does not depend on the ones before. -/
theorem splitTrace_of_hasValidTime (h : HasValidTime l) (last last' : ℤ) :
    (splitTrace last l).1 = (splitTrace last' l).1 := by
  rcases lastValidTime_cases l with ⟨-, t, ht⟩ | ⟨hno, -⟩
  · rw [splitTrace_eq, splitTrace_eq, ht, ht]
  · exact absurd h hno

/-- Without a valid time, the time of the trace before shows in the last packet. -/
theorem splitTrace_ne_of_not_hasValidTime (h : ¬HasValidTime l) (hpacket : ∃ x ∈ l, 0 < x.size) :
    (splitTrace 0 l).1 ≠ (splitTrace 1 l).1 := by
  have hlast : ∀ last, lastValidTime last (alongPast splitEntry [] l) = last := by
    rcases lastValidTime_cases l with ⟨hyes, -⟩ | ⟨-, hlast⟩
    · exact absurd hyes h
    · exact hlast
  have hsome : ((splitLoop l).pre true).isSome := by
    obtain ⟨-, hpos, -⟩ := splitLoop_spec l l.length
    rw [exists_getD_iff (p := fun x => 0 < x.size)] at hpos
    exact hpos.mpr hpacket
  obtain ⟨j, hj⟩ := Option.isSome_iff_exists.mp hsome
  obtain ⟨x, hx, hown, hnone⟩ := pre_splitLoop_eq_some_iff.mp hj
  have hne : x.size ≠ 0 := (ownItem_true.mp hown).ne'
  intro heq
  -- the two final times of the last packet agree modulo `2 ^ 32`, so 0 and 1 would
  have hentry : (splitTrace 0 l).1[j]?.map StPair.time =
      (splitTrace 1 l).1[j]?.map StPair.time := by
    rw [heq]
  rw [getElem?_splitTrace, getElem?_splitTrace, hx, hlast, hlast] at hentry
  simp only [Option.map_some, Option.some.injEq, splitFinal, sameWay_of_own hown, hnone, hne, ne_eq,
    not_false_eq_true, and_self, if_true] at hentry
  unfold toInt at hentry
  have hmod := congrArg (· % ((2 ^ 32 : ℕ) : ℤ)) hentry
  simp only [Int.bmod_emod] at hmod
  push_cast at hmod
  omega

/-! ## The loop over the clusters -/

/-- `split` leaves the other traces alone. -/
theorem splitRounds_other {ids : List ℤ} {s s' : Straces × ℤ}
    (h : ids.foldlM splitRound s = .ok s') {i : ℤ} (hi : i ∉ ids) : s'.1 i = s.1 i := by
  induction ids generalizing s with
  | nil =>
    obtain rfl := Except.ok.inj h
    rfl
  | cons k ids ih =>
    rw [List.foldlM_cons] at h
    obtain ⟨s1, h1, hrest⟩ := bind_eq_ok_iff.mp h
    obtain ⟨l, -, -, rfl⟩ := splitRound_eq_ok_iff.mp h1
    rw [ih hrest fun hmem => hi (List.mem_cons_of_mem k hmem)]
    refine Function.update_of_ne (fun heq => hi ?_) _ _
    rw [heq]
    exact List.mem_cons_self

/-- What `split` makes of a trace, with the time left by the traces before it. -/
theorem splitRounds_at {pre post : List ℤ} {i : ℤ} (hids : (pre ++ i :: post).Nodup)
    {s s' : Straces × ℤ} (h : (pre ++ i :: post).foldlM splitRound s = .ok s')
    (hl : s.1 i = some (some l)) :
    ∃ s1, pre.foldlM splitRound s = .ok s1 ∧ s'.1 i = some (some (splitTrace s1.2 l).1) := by
  rw [List.foldlM_append] at h
  obtain ⟨s1, h1, hrest⟩ := bind_eq_ok_iff.mp h
  rw [List.foldlM_cons] at hrest
  obtain ⟨s2, h2, hpost⟩ := bind_eq_ok_iff.mp hrest
  obtain ⟨l', hl', -, rfl⟩ := splitRound_eq_ok_iff.mp h2
  obtain ⟨-, hpostids, hdisjoint⟩ := List.nodup_append.mp hids
  have hpre : i ∉ pre := fun hmem => hdisjoint i hmem i List.mem_cons_self rfl
  rw [splitRounds_other h1 hpre, hl] at hl'
  obtain rfl := Option.some.inj (Option.some.inj hl')
  refine ⟨s1, h1, ?_⟩
  rw [splitRounds_other hpost (List.nodup_cons.mp hpostids).1]
  exact Function.update_self _ _ _

/-- What preparing leaves in a trace. -/
theorem prepare_at {total : ℤ} {t t' : Straces} (h : prepare total t = .ok t') {pre post : List ℤ}
    {i : ℤ} (hids : clusterIds total = pre ++ i :: post) (hl : t i = some (some l)) :
    ∃ s1, pre.foldlM splitRound ((fun k => if k ∈ clusterIds total then
        (t k).map (Option.map changeToRelativeTime) else t k), 0) = .ok s1 ∧
      t' i = some (some (splitTrace s1.2 (changeToRelativeTime l)).1) := by
  unfold prepare at h
  simp only [bind_eq_ok_iff, changeLoop_eq_ok_iff (nodup_clusterIds total)] at h
  obtain ⟨t1, ⟨-, rfl⟩, s, hs, h⟩ := h
  obtain rfl := Except.ok.inj h
  have hmem : i ∈ clusterIds total := by
    rw [hids]
    simp
  have hrounds : (pre ++ i :: post).foldlM splitRound ((fun k => if k ∈ clusterIds total then
      (t k).map (Option.map changeToRelativeTime) else t k), 0) = .ok s := hids ▸ hs
  refine splitRounds_at (hids ▸ nodup_clusterIds total) hrounds ?_
  dsimp only
  rw [if_pos hmem, hl]
  rfl

/-! ## Traces that are treated on their own -/

/-- Preparing treats a trace on its own: `split` stays inside it, and what is left in it is the
same in any two tables that can be prepared, whatever their other traces are. -/
def TreatedAlone (l : List StPair) : Prop :=
  (∀ last, (splitTrace last (changeToRelativeTime l)).2.2 = false) ∧
    ∀ (total total' : ℤ) (t t' s s' : Straces) (i i' : ℤ), i ∈ clusterIds total →
      i' ∈ clusterIds total' → t i = some (some l) → t' i' = some (some l) →
        prepare total t = .ok s → prepare total' t' = .ok s' → s i = s' i'

/-- A trace whose last valid time is 1. -/
def shortTrace : List StPair := [⟨-1, 0, 0, 0⟩, ⟨1, 1, 0, 0⟩]

/-- A table of one trace, and a table with `shortTrace` before it. -/
def tableOf (l : List StPair) : Straces := fun i => if i = 1 then some (some l) else none

@[inherit_doc tableOf]
def tableBefore (l : List StPair) : Straces :=
  fun i => if i = 1 then some (some shortTrace) else if i = 2 then some (some l) else none

/-- Alone in its table, a trace starts from the last valid time 0. -/
theorem prepare_tableOf (htwo : TwoWay (changeToRelativeTime l)) :
    ∃ s, prepare 1 (tableOf l) = .ok s ∧
      s 1 = some (some (splitTrace 0 (changeToRelativeTime l)).1) := by
  obtain ⟨s, hs⟩ : ∃ s, prepare 1 (tableOf l) = .ok s := by
    refine prepare_ok_iff.mpr fun i hi => ?_
    obtain rfl : i = 1 := List.mem_singleton.mp hi
    exact ⟨l, rfl, htwo⟩
  have hids : clusterIds 1 = [] ++ 1 :: [] := rfl
  obtain ⟨s1, h1, hl⟩ := prepare_at hs hids rfl
  have hlast : s1.2 = 0 := congrArg Prod.snd (Except.ok.inj h1).symm
  rw [hlast] at hl
  exact ⟨s, hs, hl⟩

/-- Behind `shortTrace` it starts from the last valid time 1. -/
theorem prepare_tableBefore (htwo : TwoWay (changeToRelativeTime l)) :
    ∃ s, prepare 2 (tableBefore l) = .ok s ∧
      s 2 = some (some (splitTrace 1 (changeToRelativeTime l)).1) := by
  have hshort : TwoWay (changeToRelativeTime shortTrace) := by decide
  obtain ⟨s, hs⟩ : ∃ s, prepare 2 (tableBefore l) = .ok s := by
    refine prepare_ok_iff.mpr fun i hi => ?_
    have hi : i ∈ [1, 2] := hi
    rcases List.mem_pair.mp hi with rfl | rfl
    · exact ⟨shortTrace, rfl, hshort⟩
    · exact ⟨l, rfl, htwo⟩
  have hids : clusterIds 2 = [1] ++ 2 :: [] := rfl
  obtain ⟨s1, h1, hl⟩ := prepare_at hs hids rfl
  have hlast : s1.2 = 1 := by
    rw [List.foldlM_cons] at h1
    obtain ⟨s2, h2, h3⟩ := bind_eq_ok_iff.mp h1
    obtain ⟨l', hl', -, rfl⟩ := splitRound_eq_ok_iff.mp h2
    obtain rfl : changeToRelativeTime shortTrace = l' := by
      have hfirst : (1 : ℤ) ∈ clusterIds 2 := by decide
      dsimp only at hl'
      rw [if_pos hfirst] at hl'
      exact Option.some.inj (Option.some.inj hl')
    rw [← Except.ok.inj h3]
    have htime : (splitTrace 0 (changeToRelativeTime shortTrace)).2.1 = 1 := by decide
    exact htime
  rw [hlast] at hl
  exact ⟨s, hs, hl⟩

/-- **A trace is treated on its own exactly if it has packets of both directions and a valid
time after the merging of bursts.** -/
theorem prepare_alone_iff (l : List StPair) :
    TreatedAlone l ↔ TwoWay (changeToRelativeTime l) ∧ HasValidTime (changeToRelativeTime l) := by
  constructor
  · rintro ⟨hinside, hsame⟩
    have htwo : TwoWay (changeToRelativeTime l) := (splitTrace_inside_iff 0 _).mp (hinside 0)
    refine ⟨htwo, ?_⟩
    by_contra hno
    -- the trace alone, and behind one that leaves another last valid time
    obtain ⟨s, hs, hl⟩ := prepare_tableOf htwo
    obtain ⟨s', hs', hl'⟩ := prepare_tableBefore htwo
    have heq := hsame 1 2 _ _ s s' 1 2 (by decide) (by decide) rfl rfl hs hs'
    rw [hl, hl'] at heq
    exact splitTrace_ne_of_not_hasValidTime hno htwo.1 (Option.some.inj (Option.some.inj heq))
  · rintro ⟨htwo, hvalid⟩
    refine ⟨fun last => (splitTrace_inside_iff last _).mpr htwo, ?_⟩
    intro total total' t t' s s' i i' hi hi' hl hl' hs hs'
    obtain ⟨pre, post, hids⟩ := List.append_of_mem hi
    obtain ⟨pre', post', hids'⟩ := List.append_of_mem hi'
    obtain ⟨s1, -, h1⟩ := prepare_at hs hids hl
    obtain ⟨s1', -, h1'⟩ := prepare_at hs' hids' hl'
    rw [h1, h1', splitTrace_of_hasValidTime hvalid s1.2 s1'.2]

/-- **A trace whose packets all carry the same time depends on the trace before it, and one with
packets of a single direction is accessed at index `-1`.** -/
theorem prepare_not_alone :
    let sameTime : List StPair := [⟨-7, 5, 0, 0⟩, ⟨9, 5, 0, 0⟩]
    (prepare 1 (tableOf sameTime)).map (fun s => s 1) =
        .ok (some (some [⟨-7, 0, 0, 0⟩, ⟨9, 0, 0, 7⟩])) ∧
      (prepare 2 (tableBefore sameTime)).map (fun s => s 2) =
        .ok (some (some [⟨-7, 1, 0, 0⟩, ⟨9, 1, 0, 7⟩])) ∧
      (prepare 1 (tableOf [⟨-7, 0, 0, 0⟩, ⟨-9, 300000, 0, 0⟩])).map (fun s => s 1) =
        .error .splitIndex := by
  decide +kernel

end CSBuFLO
