/-
# Merging bursts (`refresh_trace` of `load_st.c`)

`refresh_trace` cuts a trace into bursts.  A burst starts with its head and takes up the
entries that follow as long as none of them goes in the opposite direction of the head or is
200 ms or more away from it.  The head keeps the sum of the sizes, with the time and the stop
probability of the last entry; the other entries are cleared.

* `refreshTrace_eq` : the loops compute `Burst.merged` of every burst;
* `refresh_trace_merges_iff` : the bytes of each direction are kept exactly if no burst whose
  head has size 0 takes up packets of both directions;
* `steady_changeToRelativeTime` : the order of the times after merging.
-/
import CSBuFLO.Trace

namespace CSBuFLO

/-! ## Bytes of a direction -/

/-- The bytes of one direction: the sum of the positive sizes, or of the negative ones without
their sign. -/
def bytes (isPos : Bool) (l : List StPair) : ℕ :=
  ((l.filter (ownItem isPos)).map fun x => x.size.natAbs).sum

@[simp] theorem bytes_nil (isPos : Bool) : bytes isPos [] = 0 := rfl

theorem bytes_append (isPos : Bool) (l l' : List StPair) :
    bytes isPos (l ++ l') = bytes isPos l + bytes isPos l' := by
  simp [bytes]

theorem bytes_cons (isPos : Bool) (x : StPair) (l : List StPair) :
    bytes isPos (x :: l) = bytes isPos l + if ownItem isPos x then x.size.natAbs else 0 := by
  unfold bytes
  rw [List.filter_cons]
  split
  · simp
    omega
  · simp

variable {x : StPair} {l : List StPair}

theorem ownItem_true : ownItem true x = true ↔ 0 < x.size := by simp [ownItem]

theorem ownItem_false : ownItem false x = true ↔ x.size < 0 := by simp [ownItem]

/-- Entries without an own packet have no bytes. -/
theorem bytes_eq_zero_iff {isPos : Bool} :
    bytes isPos l = 0 ↔ ∀ x ∈ l, ownItem isPos x = false := by
  induction l with
  | nil => simp
  | cons x l ih =>
    rw [bytes_cons, Nat.add_eq_zero_iff, ih, List.forall_mem_cons, and_comm]
    refine and_congr_left fun _ => ?_
    cases h : ownItem isPos x with
    | false => simp
    | true =>
      have hne : x.size ≠ 0 := by
        cases isPos with
        | true => exact (ownItem_true.mp h).ne'
        | false => exact (ownItem_false.mp h).ne
      simpa using hne

/-- The sizes of a trace add up to the difference of its two directions. -/
theorem sum_sizes (l : List StPair) : (sizes l).sum = (bytes true l : ℤ) - bytes false l := by
  induction l with
  | nil => rfl
  | cons x l ih =>
    have hcons : (sizes (x :: l)).sum = x.size + (sizes l).sum := by simp [sizes]
    rw [hcons, ih, bytes_cons, bytes_cons]
    simp only [ownItem_true, ownItem_false]
    split_ifs <;> omega

/-- Packets of both directions, counted. -/
theorem twoWay_iff_bytes : TwoWay l ↔ bytes true l ≠ 0 ∧ bytes false l ≠ 0 := by
  unfold TwoWay
  simp only [ne_eq, bytes_eq_zero_iff, not_forall, exists_prop, Bool.not_eq_false, ownItem_true,
    ownItem_false]

/-! ## Bursts -/

/-- `x` is taken up by a burst that starts with `head`. -/
def joins (head x : StPair) : Bool :=
  !decide ((x.size < 0 ∧ head.size > 0) ∨ (x.size > 0 ∧ head.size < 0)) &&
    decide ((x.time - head.time) % 2 ^ 64 < 200000)

/-- A burst: its head and the entries it takes up. -/
structure Burst where
  head : StPair
  rest : List StPair

namespace Burst

/-- All entries of a burst. -/
def entries (b : Burst) : List StPair := b.head :: b.rest

/-- The last entry of a burst. -/
def last (b : Burst) : StPair := b.rest.getLastD b.head

/-- What is left of the head: the sum of all sizes, and the time and the stop probability of
the last entry. -/
def survivor (b : Burst) : StPair :=
  { b.head with size := (sizes b.entries).sum, time := b.last.time, sprob := b.last.sprob }

end Burst

/-- An entry that was merged into another one. -/
def cleared (x : StPair) : StPair := { x with size := 0, time := 0, sprob := 0 }

/-- A burst after merging. -/
def Burst.merged (b : Burst) : List StPair := b.survivor :: b.rest.map cleared

/-- At most `fuel` bursts from the front of a trace. -/
def takeBursts : ℕ → List StPair → List Burst
  | 0, _ => []
  | _ + 1, [] => []
  | fuel + 1, x :: xs => ⟨x, xs.takeWhile (joins x)⟩ :: takeBursts fuel (xs.dropWhile (joins x))

/-- The bursts of a trace. -/
def bursts (l : List StPair) : List Burst := takeBursts l.length l

/-! ## The loops of `refresh_trace` -/

/-- The head of a burst once it has taken up some entries. -/
def absorb (head : StPair) (l : List StPair) : StPair :=
  l.foldl (fun h x => { h with size := h.size + x.size, time := x.time, sprob := x.sprob }) head

theorem absorb_eq (head : StPair) (l : List StPair) :
    absorb head l = { head with
      size := head.size + (sizes l).sum
      time := (l.getLastD head).time
      sprob := (l.getLastD head).sprob } := by
  induction l generalizing head with
  | nil => simp [absorb, sizes]
  | cons x l ih =>
    unfold absorb at ih ⊢
    rw [List.foldl_cons, ih, List.getLastD_cons]
    cases l with
    | nil => simp [sizes]
    | cons y l =>
      rw [List.getLastD_cons, List.getLastD_cons]
      simp [sizes, add_assoc]

/-- **The inner loop** takes up the entries that join the head. -/
theorem mergeBurst_eq (first head : StPair) (l : List StPair) :
    mergeBurst first.time first.size head l =
      (absorb head (l.takeWhile (joins first)), (l.takeWhile (joins first)).map cleared,
        l.dropWhile (joins first)) := by
  induction l generalizing head with
  | nil => rfl
  | cons x l ih =>
    unfold mergeBurst
    dsimp only
    by_cases hdir : (x.size < 0 ∧ first.size > 0) ∨ (x.size > 0 ∧ first.size < 0)
    · have hjoin : joins first x = false := by simp [joins, hdir]
      rw [if_pos hdir, List.takeWhile_cons_of_neg (by simp [hjoin]),
        List.dropWhile_cons_of_neg (by simp [hjoin])]
      rfl
    · rw [if_neg hdir]
      by_cases htime : (x.time - first.time) % 2 ^ 64 ≥ 200000
      · have hjoin : joins first x = false := by
          unfold joins
          rw [decide_eq_false (not_lt.mpr htime), Bool.and_false]
        rw [if_pos htime, List.takeWhile_cons_of_neg (by simp [hjoin]),
          List.dropWhile_cons_of_neg (by simp [hjoin])]
        rfl
      · have hjoin : joins first x = true := by
          unfold joins
          rw [decide_eq_false hdir, decide_eq_true (not_le.mp htime)]
          rfl
        rw [if_neg htime, ih, List.takeWhile_cons_of_pos hjoin, List.dropWhile_cons_of_pos hjoin]
        rfl

theorem length_dropWhile_le {α : Type} (p : α → Bool) (l : List α) :
    (l.dropWhile p).length ≤ l.length :=
  (List.dropWhile_sublist p).length_le

theorem refreshBursts_eq (fuel : ℕ) (h : l.length ≤ fuel) :
    refreshBursts fuel l = (takeBursts fuel l).flatMap Burst.merged := by
  induction fuel generalizing l with
  | zero =>
    obtain rfl : l = [] := List.length_eq_zero_iff.mp (by omega)
    rfl
  | succ fuel ih =>
    cases l with
    | nil => rfl
    | cons x l =>
      have hlen := length_dropWhile_le (joins x) l
      rw [List.length_cons] at h
      unfold refreshBursts takeBursts
      dsimp only
      rw [mergeBurst_eq, List.flatMap_cons]
      dsimp only
      rw [ih (by omega), absorb_eq]
      simp [Burst.merged, Burst.survivor, Burst.entries, Burst.last, sizes]

/-- **`refresh_trace` merges every burst.** -/
theorem refreshTrace_eq (l : List StPair) : refreshTrace l = (bursts l).flatMap Burst.merged :=
  refreshBursts_eq l.length le_rfl

theorem entries_takeBursts (fuel : ℕ) (h : l.length ≤ fuel) :
    (takeBursts fuel l).flatMap Burst.entries = l := by
  induction fuel generalizing l with
  | zero =>
    obtain rfl : l = [] := List.length_eq_zero_iff.mp (by omega)
    rfl
  | succ fuel ih =>
    cases l with
    | nil => rfl
    | cons x l =>
      have hlen := length_dropWhile_le (joins x) l
      rw [List.length_cons] at h
      unfold takeBursts
      rw [List.flatMap_cons, ih (by omega)]
      simp [Burst.entries]

/-- The bursts are the trace, cut into pieces. -/
theorem entries_bursts (l : List StPair) : (bursts l).flatMap Burst.entries = l :=
  entries_takeBursts l.length le_rfl

/-- Every burst consists of a head and entries that join it. -/
theorem joins_of_mem_takeBursts {fuel : ℕ} {b : Burst} (hb : b ∈ takeBursts fuel l)
    (hx : x ∈ b.rest) : joins b.head x = true := by
  induction fuel generalizing l with
  | zero => cases hb
  | succ fuel ih =>
    cases l with
    | nil => cases hb
    | cons y l =>
      unfold takeBursts at hb
      rcases List.mem_cons.mp hb with rfl | hb
      · exact List.mem_takeWhile_imp hx
      · exact ih hb

/-! ## The bytes of each direction -/

/-- A burst after merging goes in one direction only. -/
theorem bytes_merged (b : Burst) (isPos : Bool) :
    bytes isPos b.merged = bytes isPos b.entries - bytes (!isPos) b.entries := by
  have hcleared : bytes isPos (b.rest.map cleared) = 0 := by
    refine bytes_eq_zero_iff.mpr fun x hx => ?_
    obtain ⟨y, -, rfl⟩ := List.mem_map.mp hx
    cases isPos <;> rfl
  have hsum := sum_sizes b.entries
  unfold Burst.merged
  rw [bytes_cons, hcleared]
  have hsize : b.survivor.size = (bytes true b.entries : ℤ) - bytes false b.entries := hsum
  cases isPos with
  | true =>
    simp only [ownItem_true, hsize, Bool.not_true]
    split_ifs <;> omega
  | false =>
    simp only [ownItem_false, hsize, Bool.not_false]
    split_ifs <;> omega

/-- No burst takes anything away from a direction exactly if each has packets of one direction
only. -/
theorem bytes_flatMap_merged (bs : List Burst) (isPos : Bool) :
    bytes isPos (bs.flatMap Burst.merged) ≤ bytes isPos (bs.flatMap Burst.entries) ∧
      (bytes isPos (bs.flatMap Burst.merged) = bytes isPos (bs.flatMap Burst.entries) ↔
        ∀ b ∈ bs, ¬TwoWay b.entries) := by
  induction bs with
  | nil => simp
  | cons b bs ih =>
    obtain ⟨hle, hiff⟩ := ih
    have hmerged := bytes_merged b isPos
    rw [List.flatMap_cons, List.flatMap_cons, bytes_append, bytes_append, List.forall_mem_cons,
      ← hiff, twoWay_iff_bytes]
    cases isPos with
    | true =>
      simp only [Bool.not_true] at hmerged
      omega
    | false =>
      simp only [Bool.not_false] at hmerged
      omega

/-- A burst with packets of both directions has a head of size 0. -/
theorem twoWay_entries_iff {fuel : ℕ} {b : Burst} (hb : b ∈ takeBursts fuel l) :
    TwoWay b.entries ↔ b.head.size = 0 ∧ TwoWay b.rest := by
  have hjoin : ∀ x ∈ b.rest,
      ¬((x.size < 0 ∧ b.head.size > 0) ∨ (x.size > 0 ∧ b.head.size < 0)) := by
    intro x hx
    have h := joins_of_mem_takeBursts hb hx
    unfold joins at h
    obtain ⟨h, -⟩ := (Bool.and_eq_true_iff).mp h
    exact of_decide_eq_false (by simpa only [Bool.not_eq_true'] using h)
  unfold TwoWay Burst.entries
  constructor
  · rintro ⟨⟨x, hx, hpos⟩, ⟨y, hy, hneg⟩⟩
    rcases List.mem_cons.mp hx with rfl | hx
    · rcases List.mem_cons.mp hy with rfl | hy
      · omega
      · exact absurd (Or.inl ⟨hneg, hpos⟩) (hjoin y hy)
    · rcases List.mem_cons.mp hy with rfl | hy
      · exact absurd (Or.inr ⟨hpos, hneg⟩) (hjoin x hx)
      · have h1 := hjoin x hx
        have h2 := hjoin y hy
        exact ⟨by omega, ⟨x, hx, hpos⟩, y, hy, hneg⟩
  · rintro ⟨-, ⟨x, hx, hpos⟩, y, hy, hneg⟩
    exact ⟨⟨x, List.mem_cons_of_mem _ hx, hpos⟩, y, List.mem_cons_of_mem _ hy, hneg⟩

/-! ## What merging should do -/

/-- The values of an `int`. -/
def IsInt (x : ℤ) : Prop := -2 ^ 31 ≤ x ∧ x < 2 ^ 31

instance (x : ℤ) : Decidable (IsInt x) := inferInstanceAs (Decidable (_ ∧ _))

/-- `l'` is `l`, cut into groups and merged: every group becomes its first entry, with the time
and the stop probability of its last one, followed by cleared entries; and no group spans a
change of direction or 200 ms from its first entry. -/
structure MergesTo (l l' : List StPair) (groups : List Burst) : Prop where
  entries : groups.flatMap Burst.entries = l
  merged : groups.flatMap Burst.merged = l'
  oneWay : ∀ b ∈ groups, ¬TwoWay b.entries
  close : ∀ b ∈ groups, ∀ x ∈ b.rest, 0 ≤ x.time - b.head.time ∧ x.time - b.head.time < 200000

/-- The unsigned comparison of the times is exact for `int`s. -/
theorem close_of_joins {head : StPair} (h : joins head x = true) (hx : IsInt x.time)
    (hhead : IsInt head.time) : 0 ≤ x.time - head.time ∧ x.time - head.time < 200000 := by
  unfold joins at h
  obtain ⟨-, h⟩ := (Bool.and_eq_true_iff).mp h
  have hmod := of_decide_eq_true h
  unfold IsInt at hx hhead
  omega

/-- **Merging keeps the bytes of each direction exactly if no burst whose head has size 0 takes
up packets of both directions.** -/
theorem refresh_trace_merges_iff (l : List StPair) (hint : ∀ x ∈ l, IsInt x.time) :
    (bytes true (refreshTrace l) = bytes true l ∧ bytes false (refreshTrace l) = bytes false l ∧
        ∃ groups, MergesTo l (refreshTrace l) groups) ↔
      ∀ b ∈ bursts l, b.head.size = 0 → ¬TwoWay b.rest := by
  have hcond : (∀ b ∈ bursts l, ¬TwoWay b.entries) ↔
      ∀ b ∈ bursts l, b.head.size = 0 → ¬TwoWay b.rest := by
    refine forall₂_congr fun b hb => ?_
    rw [twoWay_entries_iff hb, not_and]
  have hpos := (bytes_flatMap_merged (bursts l) true).2
  have hneg := (bytes_flatMap_merged (bursts l) false).2
  rw [← refreshTrace_eq, entries_bursts] at hpos hneg
  rw [← hcond]
  constructor
  · rintro ⟨hkeep, -, -⟩
    exact hpos.mp hkeep
  · intro hone
    refine ⟨hpos.mpr hone, hneg.mpr hone, bursts l, entries_bursts l, (refreshTrace_eq l).symm,
      hone, fun b hb x hx => ?_⟩
    have hmem : ∀ y ∈ b.entries, IsInt y.time := by
      intro y hy
      refine hint y ?_
      rw [← entries_bursts l]
      exact List.mem_flatMap.mpr ⟨b, hb, hy⟩
    exact close_of_joins (joins_of_mem_takeBursts hb hx)
      (hmem x (List.mem_cons_of_mem _ hx)) (hmem b.head List.mem_cons_self)

/-- A trace in which every burst goes one way. -/
def mergeableTrace : List StPair :=
  [⟨-100, 0, 1, 0⟩, ⟨0, 5, 2, 0⟩, ⟨-30, 9, 3, 0⟩, ⟨0, 250000, 4, 0⟩, ⟨70, 250001, 5, 0⟩]

theorem refresh_trace_merges_iff_mergeableTrace :
    bytes true (refreshTrace mergeableTrace) = bytes true mergeableTrace ∧
      bytes false (refreshTrace mergeableTrace) = bytes false mergeableTrace ∧
      ∃ groups, MergesTo mergeableTrace (refreshTrace mergeableTrace) groups :=
  (refresh_trace_merges_iff mergeableTrace (by decide)).mpr (by decide)

/-- **A head of size 0 mixes both directions.**  Of 5 bytes in one direction and 3 in the other,
2 bytes are left. -/
theorem refresh_trace_loses_bytes :
    let l : List StPair := [⟨0, 0, 0, 0⟩, ⟨5, 10, 0, 0⟩, ⟨-3, 20, 0, 0⟩]
    refreshTrace l = [⟨2, 20, 0, 0⟩, ⟨0, 0, 0, 0⟩, ⟨0, 0, 0, 0⟩] ∧
      bytes true l = 5 ∧ bytes true (refreshTrace l) = 2 ∧
      bytes false l = 3 ∧ bytes false (refreshTrace l) = 0 := by
  decide

/-! ## The times after merging -/

/-- Times that are not negative and do not decrease, up to cleared entries. -/
structure Steady (l : List StPair) : Prop where
  nonneg : ∀ x ∈ l, 0 ≤ x.time
  mono : l.Pairwise fun x y => x.time ≤ y.time ∨ (y.size = 0 ∧ y.time = 0)

/-- An entry after merging is cleared or has the time of an entry before. -/
theorem mem_merged {b : Burst} {y : StPair} (hy : y ∈ b.merged) :
    (y.size = 0 ∧ y.time = 0) ∨ ∃ x ∈ b.entries, y.time = x.time := by
  rcases List.mem_cons.mp hy with rfl | hy
  · refine Or.inr ⟨b.last, ?_, rfl⟩
    unfold Burst.last Burst.entries
    rw [← List.getLast_eq_getLastD (List.cons_ne_nil _ _)]
    exact List.getLast_mem _
  · obtain ⟨x, -, rfl⟩ := List.mem_map.mp hy
    exact Or.inl ⟨rfl, rfl⟩

theorem mem_flatMap_merged {bs : List Burst} {y : StPair} (hy : y ∈ bs.flatMap Burst.merged) :
    (y.size = 0 ∧ y.time = 0) ∨ ∃ x ∈ bs.flatMap Burst.entries, y.time = x.time := by
  obtain ⟨b, hb, hy⟩ := List.mem_flatMap.mp hy
  refine (mem_merged hy).imp_right fun ⟨x, hx, heq⟩ => ?_
  exact ⟨x, List.mem_flatMap.mpr ⟨b, hb, hx⟩, heq⟩

/-- The last entry of a burst has the greatest time. -/
theorem time_le_last {head : StPair} {rest : List StPair}
    (h : (head :: rest).Pairwise fun x y => x.time ≤ y.time) (hx : x ∈ head :: rest) :
    x.time ≤ (rest.getLastD head).time := by
  induction rest generalizing head x with
  | nil =>
    obtain rfl := List.mem_singleton.mp hx
    exact le_rfl
  | cons y rest ih =>
    rw [List.getLastD_cons]
    obtain ⟨hhead, hrest⟩ := List.pairwise_cons.mp h
    rcases List.mem_cons.mp hx with rfl | hx
    · exact (hhead y List.mem_cons_self).trans (ih hrest List.mem_cons_self)
    · exact ih hrest hx

/-- **Merging keeps the order of the times.** -/
theorem steady_flatMap_merged {bs : List Burst}
    (hmono : (bs.flatMap Burst.entries).Pairwise fun x y => x.time ≤ y.time)
    (hnonneg : ∀ x ∈ bs.flatMap Burst.entries, 0 ≤ x.time) : Steady (bs.flatMap Burst.merged) := by
  have hentry : ∀ y ∈ bs.flatMap Burst.merged, 0 ≤ y.time := by
    intro y hy
    rcases mem_flatMap_merged hy with ⟨-, hzero⟩ | ⟨x, hx, heq⟩
    · exact hzero.ge
    · rw [heq]
      exact hnonneg x hx
  refine ⟨hentry, ?_⟩
  induction bs with
  | nil => exact List.Pairwise.nil
  | cons b bs ih =>
    rw [List.flatMap_cons] at hmono hnonneg hentry ⊢
    obtain ⟨hburst, hrest, hcross⟩ := List.pairwise_append.mp hmono
    refine List.pairwise_append.mpr ⟨?_, ?_, fun x hx y hy => ?_⟩
    · -- within a burst all entries but the first are cleared
      refine List.pairwise_cons.mpr ⟨fun y hy => Or.inr ?_, ?_⟩
      · obtain ⟨z, -, rfl⟩ := List.mem_map.mp hy
        exact ⟨rfl, rfl⟩
      · refine List.pairwise_map.mpr (List.pairwise_of_forall fun _ _ => Or.inr ⟨rfl, rfl⟩)
    · exact ih hrest (fun x hx => hnonneg x (List.mem_append_right _ hx))
        fun y hy => hentry y (List.mem_append_right _ hy)
    · rcases mem_flatMap_merged hy with hcleared | ⟨z, hz, heq⟩
      · exact Or.inr hcleared
      · left
        rw [heq]
        rcases mem_merged hx with ⟨-, hzero⟩ | ⟨w, hw, heq'⟩
        · rw [hzero]
          exact hnonneg z (List.mem_append_right _ hz)
        · rw [heq']
          exact hcross w hw z hz

/-- Every time is at most one that is left after merging. -/
theorem exists_merged_ge {bs : List Burst}
    (hmono : (bs.flatMap Burst.entries).Pairwise fun x y => x.time ≤ y.time)
    (hx : x ∈ bs.flatMap Burst.entries) : ∃ y ∈ bs.flatMap Burst.merged, x.time ≤ y.time := by
  obtain ⟨b, hb, hx⟩ := List.mem_flatMap.mp hx
  have hburst : b.entries.Pairwise fun x y => x.time ≤ y.time :=
    hmono.sublist (List.sublist_flatten_of_mem (List.mem_map_of_mem hb))
  exact ⟨b.survivor, List.mem_flatMap.mpr ⟨b, hb, List.mem_cons_self⟩, time_le_last hburst hx⟩

/-- The entries of a trace with their times relative to the first one. -/
def relative (l : List StPair) : List StPair :=
  l.map fun x => { x with time := toInt (x.time - (l.headD default).time) }

theorem changeToRelativeTime_eq (l : List StPair) :
    changeToRelativeTime l = (bursts (relative l)).flatMap Burst.merged :=
  refreshTrace_eq (relative l)

/-- In a trace whose times do not decrease the first time is the smallest. -/
theorem head_time_le (h : l.Pairwise fun x y => x.time ≤ y.time) :
    ∀ x ∈ l, (l.headD default).time ≤ x.time := by
  cases l with
  | nil => exact fun x hx => (nomatch hx)
  | cons z l => exact List.forall_mem_cons.mpr ⟨le_rfl, (List.pairwise_cons.mp h).1⟩

section Times

variable {l : List StPair} (hmono : l.Pairwise fun x y => x.time ≤ y.time)
  (hint : ∀ x ∈ l, x.time - (l.headD default).time < 2 ^ 31)

include hmono hint

/-- Times that do not decrease and fit an `int` do not wrap. -/
theorem relative_eq :
    relative l = l.map fun x => { x with time := x.time - (l.headD default).time } := by
  refine List.map_congr_left fun x hx => ?_
  rw [toInt_of_lt (Int.sub_nonneg_of_le (head_time_le hmono x hx)) (hint x hx)]

theorem relative_mono : (relative l).Pairwise fun x y => x.time ≤ y.time := by
  rw [relative_eq hmono hint]
  refine List.pairwise_map.mpr (hmono.imp fun hle => ?_)
  exact Int.sub_le_sub_right hle _

theorem relative_nonneg : ∀ x ∈ relative l, 0 ≤ x.time := by
  rw [relative_eq hmono hint]
  intro x hx
  obtain ⟨y, hy, rfl⟩ := List.mem_map.mp hx
  exact Int.sub_nonneg_of_le (head_time_le hmono y hy)

/-- **The times of a prepared trace**, for a trace whose times do not decrease. -/
theorem steady_changeToRelativeTime : Steady (changeToRelativeTime l) := by
  have hmono' := relative_mono hmono hint
  have hnonneg := relative_nonneg hmono hint
  rw [← entries_bursts (relative l)] at hmono' hnonneg
  rw [changeToRelativeTime_eq]
  exact steady_flatMap_merged hmono' hnonneg

/-- A positive relative time is left after merging. -/
theorem exists_pos_changeToRelativeTime (hpos : ∃ x ∈ l, (l.headD default).time < x.time) :
    ∃ y ∈ changeToRelativeTime l, 0 < y.time := by
  obtain ⟨x, hx, hlt⟩ := hpos
  have hmono' := relative_mono hmono hint
  have hmem : ({ x with time := x.time - (l.headD default).time } : StPair) ∈ relative l := by
    rw [relative_eq hmono hint]
    exact List.mem_map_of_mem hx
  rw [← entries_bursts (relative l)] at hmono' hmem
  obtain ⟨y, hy, hle⟩ := exists_merged_ge hmono' hmem
  rw [changeToRelativeTime_eq]
  exact ⟨y, hy, lt_of_lt_of_le (Int.sub_pos_of_lt hlt) hle⟩

end Times

/-- Merging leaves what is expected alone. -/
theorem expected_changeToRelativeTime (h : ∀ x ∈ l, x.expected = 0) :
    ∀ y ∈ changeToRelativeTime l, y.expected = 0 := by
  have hrelative : ∀ x ∈ relative l, x.expected = 0 := by
    intro x hx
    obtain ⟨z, hz, rfl⟩ := List.mem_map.mp hx
    exact h z hz
  intro y hy
  rw [changeToRelativeTime_eq] at hy
  obtain ⟨b, hb, hy⟩ := List.mem_flatMap.mp hy
  have hentries : ∀ x ∈ b.entries, x.expected = 0 := by
    intro x hx
    refine hrelative x ?_
    rw [← entries_bursts (relative l)]
    exact List.mem_flatMap.mpr ⟨b, hb, hx⟩
  rcases List.mem_cons.mp hy with rfl | hy
  · exact hentries b.head List.mem_cons_self
  · obtain ⟨x, hx, rfl⟩ := List.mem_map.mp hy
    exact hentries x (List.mem_cons_of_mem _ hx)

/-- The times after merging are `int`s. -/
theorem time_lt_of_mem_changeToRelativeTime {y : StPair} (hy : y ∈ changeToRelativeTime l) :
    y.time < 2 ^ 31 := by
  rw [changeToRelativeTime_eq] at hy
  rcases mem_flatMap_merged hy with ⟨-, hzero⟩ | ⟨x, hx, heq⟩
  · omega
  · rw [entries_bursts] at hx
    obtain ⟨z, -, rfl⟩ := List.mem_map.mp hx
    rw [heq]
    exact toInt_lt _

end CSBuFLO
