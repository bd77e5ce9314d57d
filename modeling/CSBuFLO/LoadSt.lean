/-
# Loading the databases (`hashmap.c`, `load_st.c`, `set_cluster_id` of `misc.c`)

The first call of `set_cluster_id` loads two files: `clusters.txt` with the clusters of URLs
(`hm_build`), and `st.txt` with the trace of each cluster (`load_st`), which are then prepared
by `change_to_relative_time` and `split`.  The files have their own counts and ids, and both
parsers return what they have read up to the first error.

The model follows the memory accesses: a key buffer that is too short, a write outside the
table of traces, a read of an entry that was not filled and an access to index `-1` of a trace
are faults.  `load_safe_iff` says for which files and URLs there is none of them.
-/
import CSBuFLO.Scanf
import CSBuFLO.Trace
import CSBuFLO.UrlTable

namespace CSBuFLO

open Scanf

/-! ## `hm_build` -/

/-- `,`. -/
def comma : UInt8 := 44

/-- `"%d,%d,\n"`: two numbers, stored as `int`s. -/
def scanPair (input : List UInt8) : Option (ℤ × ℤ × List UInt8) :=
  match scan [.int, .lit comma, .int, .lit comma, .space] input with
  | ([.int a, .int b], rest) => some (toInt a, toInt b, rest)
  | _ => none

/-- The lines `hm_build` inserts: up to `webcnt` of them, until one is malformed. -/
def hmRows : ℕ → List UInt8 → List Row
  | 0, _ => []
  | webcnt + 1, input =>
    match scan [.word, .space, .int, .lit comma, .space] input with
    | ([.word url, .int v], rest) =>
      if h : 0 < toInt v then ⟨url, toInt v, h⟩ :: hmRows webcnt rest else []
    | _ => []

/-- The two files, `none` for one that cannot be opened. -/
structure Files where
  clusters : Option (List UInt8)
  st : Option (List UInt8)

/-- `total_clusters` after `hm_build`: the second number of the file, even if the file is
refused, or 0. -/
def Files.total (F : Files) : ℤ :=
  match F.clusters.bind scanPair with
  | some (_, ccnt, _) => ccnt
  | none => 0

/-- The lines of `clusters.txt` that `hm_build` inserts. -/
def Files.rows (F : Files) : List Row :=
  match F.clusters.bind scanPair with
  | some (webcnt, ccnt, rest) => if webcnt < 0 ∨ ccnt < 0 then [] else hmRows webcnt.toNat rest
  | none => []

/-- `hm_build`. -/
def hmBuild (F : Files) : Except LoadFault Hashmap := F.rows.foldlM hmInsert emptyHashmap

/-! ## `load_st.c` -/

/-- A trace of `st.txt`; `none` if the file ends within it. -/
structure Record where
  id : ℤ
  trace : Option (List StPair)

/-- `n` times `"%d,"`. -/
def scanInts : ℕ → List UInt8 → Option (List ℤ × List UInt8)
  | 0, input => some ([], input)
  | n + 1, input =>
    match scan [.int, .lit comma] input with
    | ([.int v], rest) => (scanInts n rest).map fun r => (toInt v :: r.1, r.2)
    | _ => none

/-- Sizes, times and stop probabilities of `n` packets, each list followed by one character. -/
def scanTrace (n : ℕ) (input : List UInt8) : Option (List StPair × List UInt8) :=
  (scanInts n input).bind fun sizes =>
    (scanInts n sizes.2.tail).bind fun times =>
      (scanInts n times.2.tail).map fun probs =>
        (List.zipWith (fun (s : ℤ × ℤ) p => ⟨s.1, s.2, (p % 2 ^ 32).toNat, 0⟩)
          (sizes.1.zip times.1) probs.1, probs.2.tail)

/-- The traces `load_st` stores: up to `n` of them, until one is malformed. -/
def stRecords : ℕ → List UInt8 → List Record
  | 0, _ => []
  | n + 1, input =>
    match scanPair input with
    | some (id, stsize, rest) =>
      if id ≤ 0 ∨ stsize < 0 then []
      else
        match scanTrace stsize.toNat rest with
        | some (l, rest') => ⟨id, some l⟩ :: stRecords n rest'
        | none => [⟨id, none⟩]
    | none => []

/-- The table of traces: entries that were never stored, and traces that may be incomplete. -/
abbrev Straces : Type := ℤ → Option (Option (List StPair))

/-- Store a trace. -/
def Straces.store (t : Straces) (r : Record) : Straces := Function.update t r.id (some r.trace)

/-- The traces of `st.txt` that `load_st` stores. -/
def Files.records (F : Files) : List Record :=
  match F.st with
  | some input => stRecords F.total.toNat input
  | none => []

/-- Store a trace, within the bounds of the table. -/
def storeTrace (ccnt : ℤ) (t : Straces) (r : Record) : Except LoadFault Straces :=
  if r.id ≤ ccnt then .ok (t.store r) else .error .straceWrite

/-- `load_st`; `none` is the null pointer. -/
def loadSt (F : Files) : Except LoadFault (Option Straces) := do
  if F.st = none then return none
  let t ← F.records.foldlM (storeTrace F.total) fun _ => none
  return some t

/-- Read a trace. -/
def Straces.read (t : Straces) (i : ℤ) : Except LoadFault (List StPair) :=
  match t i with
  | some (some l) => .ok l
  | _ => .error .unfilledRead

/-- The ids of the traces: `1..total_clusters`. -/
def clusterIds (total : ℤ) : List ℤ := (List.range total.toNat).map fun i : ℕ => (i : ℤ) + 1

/-- One round of `change_to_relative_time`. -/
def changeTrace (t : Straces) (i : ℤ) : Except LoadFault Straces := do
  let l ← t.read i
  return Function.update t i (some (some (changeToRelativeTime l)))

/-- One round of `split`, with `last_valid_time`. -/
def splitRound (s : Straces × ℤ) (i : ℤ) : Except LoadFault (Straces × ℤ) := do
  let l ← s.1.read i
  let r := splitTrace s.2 l
  if r.2.2 then throw .splitIndex
  return (Function.update s.1 i (some (some r.1)), r.2.1)

/-- `change_to_relative_time` and `split` on the table. -/
def prepare (total : ℤ) (t : Straces) : Except LoadFault Straces := do
  let t ← (clusterIds total).foldlM changeTrace t
  let s ← (clusterIds total).foldlM splitRound (t, 0)
  return s.1

/-! ## `set_cluster_id` -/

/-- The statics `clusters`, `total_clusters` and `straces` of `misc.c`. -/
structure Databases where
  clusters : Option Hashmap := none
  total : ℤ := 0
  straces : Option Straces := none

/-- The cluster table and `total_clusters`, loaded at the first call. -/
def loadClusters (F : Files) (db : Databases) : Except LoadFault (Hashmap × ℤ) :=
  match db.clusters with
  | some hm => return (hm, db.total)
  | none => do
      let hm ← hmBuild F
      return (hm, F.total)

/-- The table of traces, loaded and prepared unless there is one. -/
def loadTraces (F : Files) (total : ℤ) (db : Databases) : Except LoadFault (Option Straces) :=
  match db.straces with
  | some t => return some t
  | none => do
      match ← loadSt F with
      | some t => return some (← prepare total t)
      | none => if clusterIds total = [] then return none else throw .unfilledRead

/-- `set_cluster_id` with the loading of the databases: the new `cluster_id`. -/
def loadClusterId (F : Files) (db : Databases) (url : List UInt8) :
    Except LoadFault (ℤ × Databases) := do
  let c ← loadClusters F db
  let straces ← loadTraces F c.2 db
  let id ← hmLookupKey c.1 url
  return (id, { clusters := some c.1, total := c.2, straces := straces })

/-- One call after the other. -/
def loadClusterIds (F : Files) :
    Databases → List (List UInt8) → Except LoadFault (List ℤ × Databases)
  | db, [] => return ([], db)
  | db, url :: urls => do
      let r ← loadClusterId F db url
      let rs ← loadClusterIds F r.2 urls
      return (r.1 :: rs.1, rs.2)

/-! ## When the loaders succeed -/

section Checks

variable {ε α ι : Type}

theorem bind_eq_ok_iff {β : Type} {x : Except ε α} {f : α → Except ε β} {b : β} :
    (x >>= f) = .ok b ↔ ∃ a, x = .ok a ∧ f a = .ok b := by
  cases x with
  | ok a => exact ⟨fun h => ⟨a, rfl, h⟩, fun ⟨_, ha, h⟩ => Except.ok.inj ha ▸ h⟩
  | error e => exact ⟨fun h => (nomatch h), fun ⟨_, ha, _⟩ => (nomatch ha)⟩

/-- A loop whose rounds only fail on entries that do not pass a check. -/
theorem foldlM_eq_ok_iff {step : α → ι → Except ε α} {p : ι → Prop} {f : α → ι → α}
    (hok : ∀ a x, p x → step a x = .ok (f a x)) (herr : ∀ a x b, step a x = .ok b → p x)
    {l : List ι} {a b : α} :
    l.foldlM step a = .ok b ↔ (∀ x ∈ l, p x) ∧ b = l.foldl f a := by
  induction l generalizing a with
  | nil =>
    simp only [List.foldlM_nil, List.not_mem_nil, false_implies, implies_true, List.foldl_nil,
      true_and]
    exact ⟨fun h => (Except.ok.inj h).symm, fun h => congrArg Except.ok h.symm⟩
  | cons x l ih =>
    rw [List.foldlM_cons, bind_eq_ok_iff, List.forall_mem_cons, List.foldl_cons]
    constructor
    · rintro ⟨a', ha', hrest⟩
      have hx := herr a x a' ha'
      obtain rfl := Except.ok.inj ((hok a x hx).symm.trans ha')
      obtain ⟨hl, rfl⟩ := ih.mp hrest
      exact ⟨⟨hx, hl⟩, rfl⟩
    · rintro ⟨⟨hx, hl⟩, rfl⟩
      exact ⟨_, hok a x hx, ih.mpr ⟨hl, rfl⟩⟩

end Checks

/-- The cluster table of the file, if all its keys fit. -/
def Files.hashmap (F : Files) : Hashmap := F.rows.foldl hmAdd emptyHashmap

variable {F : Files} {i : ℤ} {t : Straces}

theorem hmBuild_eq_ok_iff {hm : Hashmap} :
    hmBuild F = .ok hm ↔ (∀ row ∈ F.rows, shortKey row.url) ∧ hm = F.hashmap := by
  refine foldlM_eq_ok_iff (fun hm row h => if_pos h) fun hm row b h => ?_
  split at h
  · assumption
  · cases h

/-- The table of traces of the file, if its ids fit. -/
def Files.stored (F : Files) : Straces := F.records.foldl Straces.store fun _ => none

theorem loadSt_eq_ok_iff {t : Option Straces} :
    loadSt F = .ok t ↔ (F.st = none ∧ t = none) ∨
      (F.st ≠ none ∧ (∀ r ∈ F.records, r.id ≤ F.total) ∧ t = some F.stored) := by
  have hstore : ∀ t', F.records.foldlM (storeTrace F.total) (fun _ => none) = .ok t' ↔
      (∀ r ∈ F.records, r.id ≤ F.total) ∧ t' = F.stored := by
    intro t'
    refine foldlM_eq_ok_iff (fun t r h => if_pos h) fun t r b h => ?_
    split at h
    · assumption
    · cases h
  unfold loadSt
  by_cases hst : F.st = none
  · simp only [hst, if_true, ne_eq, not_true_eq_false, false_and, or_false, true_and]
    exact ⟨fun h => (Except.ok.inj h).symm, fun h => h ▸ rfl⟩
  · simp only [hst, if_false, ne_eq, not_false_eq_true, false_and, false_or, true_and]
    rw [show (do
        let t ← F.records.foldlM (storeTrace F.total) fun _ => none
        return some t : Except LoadFault (Option Straces)) = .ok t ↔ _ from bind_eq_ok_iff]
    constructor
    · rintro ⟨t', ht', h⟩
      obtain ⟨hids, rfl⟩ := (hstore t').mp ht'
      exact ⟨hids, (Except.ok.inj h).symm⟩
    · rintro ⟨hids, rfl⟩
      exact ⟨_, (hstore _).mpr ⟨hids, rfl⟩, rfl⟩

/-- What is stored under an id is the trace of a record with this id. -/
theorem store_eq_some {l : List Record} {x : Option (List StPair)}
    (h : l.foldl Straces.store t i = some x) :
    (∃ r ∈ l, r.id = i ∧ r.trace = x) ∨ t i = some x := by
  induction l generalizing t with
  | nil => exact Or.inr h
  | cons r l ih =>
    rcases ih h with ⟨r', hr', hid⟩ | hstore
    · exact Or.inl ⟨r', List.mem_cons_of_mem r hr', hid⟩
    · unfold Straces.store at hstore
      by_cases hi : i = r.id
      · rw [hi, Function.update_self] at hstore
        exact Or.inl ⟨r, List.mem_cons_self, hi.symm, Option.some.inj hstore⟩
      · rw [Function.update_of_ne hi] at hstore
        exact Or.inr hstore

/-- Every id of a record has an entry. -/
theorem exists_store {l : List Record} (h : i ∈ l.map Record.id ∨ t i ≠ none) :
    ∃ x, l.foldl Straces.store t i = some x := by
  induction l generalizing t with
  | nil =>
    rcases h with h | h
    · simp at h
    · exact Option.ne_none_iff_exists'.mp h
  | cons r l ih =>
    refine ih ?_
    by_cases hi : i = r.id
    · right
      unfold Straces.store
      rw [hi, Function.update_self]
      simp
    · rcases h with h | h
      · rw [List.map_cons, List.mem_cons] at h
        exact Or.inl (h.resolve_left hi)
      · right
        unfold Straces.store
        rwa [Function.update_of_ne hi]

theorem mem_clusterIds {total : ℤ} : i ∈ clusterIds total ↔ 1 ≤ i ∧ i ≤ total := by
  unfold clusterIds
  simp only [List.mem_map, List.mem_range]
  constructor
  · rintro ⟨k, hk, rfl⟩
    omega
  · rintro ⟨h1, h2⟩
    exact ⟨(i - 1).toNat, by omega, by omega⟩

theorem nodup_clusterIds (total : ℤ) : (clusterIds total).Nodup := by
  refine List.nodup_range.map fun a b h => ?_
  omega

theorem length_stRecords (n : ℕ) (input : List UInt8) : (stRecords n input).length ≤ n := by
  induction n generalizing input with
  | zero => exact le_refl 0
  | succ n ih =>
    unfold stRecords
    split
    · split
      · exact Nat.zero_le _
      · split
        · exact Nat.succ_le_succ (ih _)
        · simp
    · exact Nat.zero_le _

/-! ## When the traces can be prepared -/

theorem read_eq_ok_iff {l : List StPair} : t.read i = .ok l ↔ t i = some (some l) := by
  unfold Straces.read
  split
  · rename_i l' h
    rw [h]
    exact ⟨fun h => congrArg (some ∘ some) (Except.ok.inj h),
      fun h => congrArg Except.ok (Option.some.inj (Option.some.inj h))⟩
  · rename_i hne
    exact ⟨fun h => (nomatch h), fun h => absurd h (hne l)⟩

/-- `change_to_relative_time` on the given ids. -/
theorem changeLoop_eq_ok_iff {ids : List ℤ} (hids : ids.Nodup) {t' : Straces} :
    ids.foldlM changeTrace t = .ok t' ↔ (∀ i ∈ ids, ∃ l, t i = some (some l)) ∧
      t' = fun i => if i ∈ ids then (t i).map (Option.map changeToRelativeTime) else t i := by
  induction ids generalizing t with
  | nil =>
    simp only [List.foldlM_nil, List.not_mem_nil, false_implies, implies_true, if_false, true_and]
    exact ⟨fun h => (Except.ok.inj h).symm, fun h => congrArg Except.ok h.symm⟩
  | cons i ids ih =>
    obtain ⟨hi, hids⟩ := List.nodup_cons.mp hids
    have hother : ∀ (x : Option (Option (List StPair))) k, k ∈ ids →
        Function.update t i x k = t k :=
      fun x k hk => Function.update_of_ne (fun h : k = i => hi (h ▸ hk)) x t
    rw [List.foldlM_cons, bind_eq_ok_iff, List.forall_mem_cons]
    unfold changeTrace
    simp only [bind_eq_ok_iff, read_eq_ok_iff]
    constructor
    · rintro ⟨t1, ⟨l, hl, h1⟩, hrest⟩
      obtain rfl := Except.ok.inj h1
      obtain ⟨hfilled, rfl⟩ := (ih hids).mp hrest
      refine ⟨⟨⟨l, hl⟩, fun k hk => ?_⟩, funext fun k => ?_⟩
      · obtain ⟨l', hl'⟩ := hfilled k hk
        exact ⟨l', (hother _ k hk).symm.trans hl'⟩
      · by_cases hk : k = i
        · rw [hk, if_neg hi, if_pos List.mem_cons_self, Function.update_self, hl]
          rfl
        · simp only [List.mem_cons, hk, false_or, Function.update_of_ne hk]
    · rintro ⟨⟨⟨l, hl⟩, hfilled⟩, rfl⟩
      refine ⟨_, ⟨l, hl, rfl⟩, (ih hids).mpr ⟨fun k hk => ?_, funext fun k => ?_⟩⟩
      · rw [hother _ k hk]
        exact hfilled k hk
      · by_cases hk : k = i
        · rw [hk, if_neg hi, if_pos List.mem_cons_self, Function.update_self, hl]
          rfl
        · simp only [List.mem_cons, hk, false_or, Function.update_of_ne hk]

/-- One round of `split`. -/
theorem splitRound_eq_ok_iff {s s' : Straces × ℤ} :
    splitRound s i = .ok s' ↔ ∃ l, s.1 i = some (some l) ∧ TwoWay l ∧
      s' = (Function.update s.1 i (some (some (splitTrace s.2 l).1)), (splitTrace s.2 l).2.1) := by
  unfold splitRound
  simp only [bind_eq_ok_iff, read_eq_ok_iff]
  refine exists_congr fun l => and_congr_right fun _ => ?_
  rw [← splitTrace_inside_iff s.2 l]
  cases (splitTrace s.2 l).2.2 with
  | false => exact ⟨fun h => ⟨rfl, (Except.ok.inj h).symm⟩, fun h => congrArg Except.ok h.2.symm⟩
  | true => exact ⟨fun h => (nomatch h), fun h => (nomatch h.1)⟩

/-- `split` succeeds exactly if the traces are there and have packets of both directions. -/
theorem splitRounds_ok_iff {ids : List ℤ} (hids : ids.Nodup) {last : ℤ} :
    (∃ s, ids.foldlM splitRound (t, last) = .ok s) ↔
      ∀ i ∈ ids, ∃ l, t i = some (some l) ∧ TwoWay l := by
  induction ids generalizing t last with
  | nil =>
    simp only [List.not_mem_nil, false_implies, implies_true, iff_true]
    exact ⟨(t, last), rfl⟩
  | cons i ids ih =>
    obtain ⟨hi, hids⟩ := List.nodup_cons.mp hids
    have hother : ∀ (x : Option (Option (List StPair))) k, k ∈ ids →
        Function.update t i x k = t k :=
      fun x k hk => Function.update_of_ne (fun h : k = i => hi (h ▸ hk)) x t
    simp only [List.foldlM_cons, bind_eq_ok_iff, splitRound_eq_ok_iff, List.forall_mem_cons]
    constructor
    · rintro ⟨s, s1, ⟨l, hl, htwo, rfl⟩, hrest⟩
      refine ⟨⟨l, hl, htwo⟩, fun k hk => ?_⟩
      obtain ⟨l', hl', htwo'⟩ := (ih hids).mp ⟨s, hrest⟩ k hk
      exact ⟨l', (hother _ k hk).symm.trans hl', htwo'⟩
    · rintro ⟨⟨l, hl, htwo⟩, hrest⟩
      have hnext : ∃ s, ids.foldlM splitRound (Function.update t i
          (some (some (splitTrace last l).1)), (splitTrace last l).2.1) = .ok s := by
        refine (ih hids).mpr fun k hk => ?_
        rw [hother _ k hk]
        exact hrest k hk
      obtain ⟨s, hs⟩ := hnext
      exact ⟨s, _, ⟨l, hl, htwo, rfl⟩, hs⟩

/-- `split` loses no trace. -/
theorem splitRounds_filled {ids : List ℤ} {s s' : Straces × ℤ}
    (h : ids.foldlM splitRound s = .ok s') {k : ℤ} (hk : ∃ l, s.1 k = some (some l)) :
    ∃ l, s'.1 k = some (some l) := by
  induction ids generalizing s with
  | nil => exact Except.ok.inj h ▸ hk
  | cons i ids ih =>
    rw [List.foldlM_cons] at h
    obtain ⟨s1, h1, hrest⟩ := bind_eq_ok_iff.mp h
    obtain ⟨l, -, -, rfl⟩ := splitRound_eq_ok_iff.mp h1
    refine ih hrest ?_
    dsimp only
    by_cases hki : k = i
    · rw [hki, Function.update_self]
      exact ⟨_, rfl⟩
    · rw [Function.update_of_ne hki]
      exact hk

/-- **Preparing the traces** succeeds exactly if all of them are there and have packets of both
directions after the merging of bursts. -/
theorem prepare_ok_iff {total : ℤ} :
    (∃ t', prepare total t = .ok t') ↔
      ∀ i ∈ clusterIds total, ∃ l, t i = some (some l) ∧ TwoWay (changeToRelativeTime l) := by
  unfold prepare
  simp only [bind_eq_ok_iff, changeLoop_eq_ok_iff (nodup_clusterIds total)]
  constructor
  · rintro ⟨t', t1, ⟨hfilled, rfl⟩, s, hs, -⟩ i hi
    obtain ⟨l, hl⟩ := hfilled i hi
    obtain ⟨l', hl', htwo⟩ := (splitRounds_ok_iff (nodup_clusterIds total)).mp ⟨s, hs⟩ i hi
    rw [if_pos hi, hl] at hl'
    cases hl'
    exact ⟨l, hl, htwo⟩
  · intro h
    have hsplit : ∃ s, (clusterIds total).foldlM splitRound (fun i => if i ∈ clusterIds total then
        (t i).map (Option.map changeToRelativeTime) else t i, 0) = .ok s := by
      refine (splitRounds_ok_iff (nodup_clusterIds total)).mpr fun i hi => ?_
      obtain ⟨l, hl, htwo⟩ := h i hi
      rw [if_pos hi, hl]
      exact ⟨_, rfl, htwo⟩
    obtain ⟨s, hs⟩ := hsplit
    exact ⟨s.1, _, ⟨fun i hi => (h i hi).imp fun l hl => hl.1, rfl⟩, s, hs, rfl⟩

theorem prepare_filled {total : ℤ} {t' : Straces} (h : prepare total t = .ok t')
    (hi : i ∈ clusterIds total) : ∃ l, t' i = some (some l) := by
  unfold prepare at h
  simp only [bind_eq_ok_iff, changeLoop_eq_ok_iff (nodup_clusterIds total)] at h
  obtain ⟨t1, ⟨hfilled, rfl⟩, s, hs, h⟩ := h
  obtain rfl := Except.ok.inj h
  refine splitRounds_filled hs ?_
  obtain ⟨l, hl⟩ := hfilled i hi
  dsimp only
  rw [if_pos hi, hl]
  exact ⟨_, rfl⟩

/-! ## Safe files -/

/-- The files that can be loaded without a fault: every key fits into `tmpkey`, `st.txt` holds
exactly one trace for each cluster, and every trace is complete and has packets of both
directions after the merging of bursts. -/
structure Files.Safe (F : Files) : Prop where
  keys : ∀ row ∈ F.rows, shortKey row.url
  ids : (F.records.map Record.id).Perm (clusterIds F.total)
  traces : ∀ r ∈ F.records, ∃ l, r.trace = some l ∧ TwoWay (changeToRelativeTime l)

theorem Files.records_of_none (h : F.st = none) : F.records = [] := by
  unfold Files.records
  rw [h]

theorem Files.length_records (F : Files) : F.records.length ≤ F.total.toNat := by
  unfold Files.records
  split
  · exact length_stRecords _ _
  · exact Nat.zero_le _

/-- The stored traces are all there exactly if the file has one for each cluster. -/
theorem stored_iff (F : Files) :
    ((∀ r ∈ F.records, r.id ≤ F.total) ∧ ∀ i ∈ clusterIds F.total,
        ∃ l, F.stored i = some (some l) ∧ TwoWay (changeToRelativeTime l)) ↔
      (F.records.map Record.id).Perm (clusterIds F.total) ∧
        ∀ r ∈ F.records, ∃ l, r.trace = some l ∧ TwoWay (changeToRelativeTime l) := by
  have hstored : ∀ {i x}, F.stored i = some x → ∃ r ∈ F.records, r.id = i ∧ r.trace = x := by
    intro i x h
    rcases store_eq_some h with hr | hnone
    · exact hr
    · cases hnone
  constructor
  · rintro ⟨-, hall⟩
    have hsub : clusterIds F.total ⊆ F.records.map Record.id := by
      intro i hi
      obtain ⟨l, hl, -⟩ := hall i hi
      obtain ⟨r, hr, hid, -⟩ := hstored hl
      exact List.mem_map.mpr ⟨r, hr, hid⟩
    -- there are at most as many records as clusters, so that none is left over
    have hperm : (clusterIds F.total).Perm (F.records.map Record.id) :=
      (List.subperm_of_subset (nodup_clusterIds F.total) hsub).perm_of_length_le (by
        simpa [clusterIds] using F.length_records)
    refine ⟨hperm.symm, fun r hr => ?_⟩
    have hmem : r.id ∈ clusterIds F.total := hperm.mem_iff.mpr (List.mem_map_of_mem hr)
    obtain ⟨l, hl, htwo⟩ := hall r.id hmem
    obtain ⟨r', hr', hid, htrace⟩ := hstored hl
    obtain rfl :=
      List.inj_on_of_nodup_map (hperm.nodup_iff.mp (nodup_clusterIds F.total)) hr' hr hid
    exact ⟨l, htrace, htwo⟩
  · rintro ⟨hperm, hall⟩
    refine ⟨fun r hr => ?_, fun i hi => ?_⟩
    · exact (mem_clusterIds.mp (hperm.mem_iff.mp (List.mem_map_of_mem hr))).2
    · obtain ⟨x, hx⟩ := exists_store (t := fun _ => none) (Or.inl (hperm.mem_iff.mpr hi))
      obtain ⟨r, hr, -, htrace⟩ := hstored hx
      obtain ⟨l, hl, htwo⟩ := hall r hr
      refine ⟨l, hx.trans ?_, htwo⟩
      rw [← htrace, hl]

/-- **Loading the traces** succeeds exactly if the file has one good trace for each cluster. -/
theorem loadTraces_ok_iff (F : Files) :
    (∃ s, loadTraces F F.total {} = .ok s) ↔
      (F.records.map Record.id).Perm (clusterIds F.total) ∧
        ∀ r ∈ F.records, ∃ l, r.trace = some l ∧ TwoWay (changeToRelativeTime l) := by
  unfold loadTraces
  dsimp only
  simp only [bind_eq_ok_iff, loadSt_eq_ok_iff]
  by_cases hst : F.st = none
  · rw [Files.records_of_none hst, List.map_nil, List.nil_perm]
    constructor
    · rintro ⟨s, t, ⟨-, rfl⟩ | ⟨hsome, -⟩, hs⟩
      · dsimp only at hs
        split at hs
        · rename_i hnil
          exact ⟨hnil, by simp⟩
        · cases hs
      · exact absurd hst hsome
    · rintro ⟨hnil, -⟩
      exact ⟨none, none, Or.inl ⟨hst, rfl⟩, if_pos hnil⟩
  · rw [← stored_iff F, ← prepare_ok_iff]
    constructor
    · rintro ⟨s, t, ⟨hnone, -⟩ | ⟨-, hids, rfl⟩, hs⟩
      · exact absurd hnone hst
      · obtain ⟨t', ht', -⟩ := bind_eq_ok_iff.mp hs
        exact ⟨hids, t', ht'⟩
    · rintro ⟨hids, t', ht'⟩
      exact ⟨some t', some F.stored, Or.inr ⟨hst, hids, rfl⟩, bind_eq_ok_iff.mpr ⟨t', ht', rfl⟩⟩

/-- The traces of all clusters are there after loading. -/
theorem loadTraces_filled {s : Option Straces} (h : loadTraces F F.total {} = .ok s)
    (hi : i ∈ clusterIds F.total) : ∃ t l, s = some t ∧ t i = some (some l) := by
  unfold loadTraces at h
  dsimp only at h
  simp only [bind_eq_ok_iff, loadSt_eq_ok_iff] at h
  obtain ⟨t, ⟨-, rfl⟩ | ⟨-, -, rfl⟩, h⟩ := h
  · dsimp only at h
    rw [if_neg (List.ne_nil_of_mem hi)] at h
    cases h
  · obtain ⟨t', ht', h⟩ := bind_eq_ok_iff.mp h
    obtain ⟨l, hl⟩ := prepare_filled ht' hi
    exact ⟨t', l, (Except.ok.inj h).symm, hl⟩

/-! ## Calls of `set_cluster_id` -/

/-- The databases after a successful first call. -/
structure Databases.Loaded (F : Files) (db : Databases) : Prop where
  clusters : db.clusters = some F.hashmap
  total : db.total = F.total
  straces : loadTraces F F.total {} = .ok db.straces

theorem hmLookupKey_eq_ok_iff {hm : Hashmap} {url : List UInt8} {id : ℤ} :
    hmLookupKey hm url = .ok id ↔ shortKey url ∧ id = hmLookup hm url := by
  unfold hmLookupKey
  split
  · rename_i hshort
    exact ⟨fun h => ⟨hshort, (Except.ok.inj h).symm⟩, fun h => congrArg Except.ok h.2.symm⟩
  · rename_i hlong
    exact ⟨fun h => (nomatch h), fun h => absurd h.1 hlong⟩

/-- The first call. -/
theorem loadClusterId_first {url : List UInt8} {id : ℤ} {db : Databases} :
    loadClusterId F {} url = .ok (id, db) ↔ (∀ row ∈ F.rows, shortKey row.url) ∧ shortKey url ∧
      id = hmLookup F.hashmap url ∧ db.Loaded F := by
  unfold loadClusterId loadClusters
  dsimp only
  simp only [bind_eq_ok_iff, hmBuild_eq_ok_iff, hmLookupKey_eq_ok_iff]
  constructor
  · rintro ⟨c, ⟨hm, ⟨hkeys, rfl⟩, hc⟩, s, hs, id', ⟨hshort, rfl⟩, h⟩
    obtain rfl := Except.ok.inj hc
    obtain ⟨rfl, rfl⟩ := Prod.mk.inj (Except.ok.inj h)
    exact ⟨hkeys, hshort, rfl, rfl, rfl, hs⟩
  · rintro ⟨hkeys, hshort, rfl, hclusters, htotal, hs⟩
    obtain ⟨clusters, total, straces⟩ := db
    dsimp only at hclusters htotal hs
    subst hclusters htotal
    exact ⟨(F.hashmap, F.total), ⟨F.hashmap, ⟨hkeys, rfl⟩, rfl⟩, straces, hs, _, ⟨hshort, rfl⟩, rfl⟩

/-- A later call. -/
theorem loadClusterId_again {db : Databases} (hdb : db.Loaded F) {url : List UInt8} {id : ℤ}
    {db' : Databases} :
    loadClusterId F db url = .ok (id, db') ↔
      shortKey url ∧ id = hmLookup F.hashmap url ∧ db' = db := by
  obtain ⟨clusters, total, straces⟩ := db
  obtain ⟨hclusters, htotal, hs⟩ := hdb
  dsimp only at hclusters htotal hs
  subst hclusters htotal
  have hload : ∀ {s}, loadTraces F F.total ⟨some F.hashmap, F.total, straces⟩ = .ok s ↔
      s = straces := by
    intro s
    cases straces with
    | some t => exact ⟨fun h => (Except.ok.inj h).symm, fun h => congrArg Except.ok h.symm⟩
    | none =>
      have hsame : loadTraces F F.total ⟨some F.hashmap, F.total, none⟩ =
          loadTraces F F.total {} := rfl
      rw [hsame, hs]
      exact ⟨fun h => (Except.ok.inj h).symm, fun h => congrArg Except.ok h.symm⟩
  unfold loadClusterId loadClusters
  dsimp only
  simp only [bind_eq_ok_iff, hmLookupKey_eq_ok_iff]
  constructor
  · rintro ⟨c, hc, s, hs', id', ⟨hshort, rfl⟩, h⟩
    obtain rfl := Except.ok.inj hc
    obtain rfl := hload.mp hs'
    obtain ⟨rfl, rfl⟩ := Prod.mk.inj (Except.ok.inj h)
    exact ⟨hshort, rfl, rfl⟩
  · rintro ⟨hshort, rfl, rfl⟩
    exact ⟨(F.hashmap, F.total), rfl, straces, hload.mpr rfl, _, ⟨hshort, rfl⟩, rfl⟩

theorem loadClusterIds_again {db : Databases} (hdb : db.Loaded F) {urls : List (List UInt8)}
    {ids : List ℤ} {db' : Databases} :
    loadClusterIds F db urls = .ok (ids, db') ↔
      (∀ url ∈ urls, shortKey url) ∧ ids = urls.map (hmLookup F.hashmap) ∧ db' = db := by
  induction urls generalizing ids db' with
  | nil =>
    simp only [List.not_mem_nil, false_implies, implies_true, List.map_nil, true_and]
    constructor
    · intro h
      obtain ⟨rfl, rfl⟩ := Prod.mk.inj (Except.ok.inj h)
      exact ⟨rfl, rfl⟩
    · rintro ⟨rfl, rfl⟩
      rfl
  | cons url urls ih =>
    unfold loadClusterIds
    simp only [bind_eq_ok_iff, List.forall_mem_cons, List.map_cons]
    constructor
    · rintro ⟨⟨id, db1⟩, h1, ⟨ids', db2⟩, hrest, h⟩
      obtain ⟨hshort, rfl, hsame⟩ := (loadClusterId_again hdb).mp h1
      rw [hsame] at hrest
      obtain ⟨hshorts, rfl, rfl⟩ := ih.mp hrest
      obtain ⟨rfl, rfl⟩ := Prod.mk.inj (Except.ok.inj h)
      exact ⟨⟨hshort, hshorts⟩, rfl, rfl⟩
    · rintro ⟨⟨hshort, hshorts⟩, rfl, hsame⟩
      exact ⟨(_, db), (loadClusterId_again hdb).mpr ⟨hshort, rfl, rfl⟩, (_, db'),
        ih.mpr ⟨hshorts, rfl, hsame⟩, rfl⟩

/-- The result of a call is usable: there is no cluster, or its trace has been loaded. -/
def Databases.Usable (db : Databases) (id : ℤ) : Prop :=
  id = -1 ∨ (1 ≤ id ∧ id ≤ db.total ∧ ∃ t l, db.straces = some t ∧ t id = some (some l))

/-- Calls of `set_cluster_id` without a fault, all with usable results. -/
def SafeCalls (F : Files) (urls : List (List UInt8)) : Prop :=
  ∃ ids db, loadClusterIds F {} urls = .ok (ids, db) ∧ ∀ id ∈ ids, db.Usable id

/-- The URLs of `clusters.txt` have no spaces in them. -/
theorem space_notMem_hmRows {webcnt : ℕ} {input : List UInt8} {row : Row}
    (h : row ∈ hmRows webcnt input) : space ∉ row.url := by
  induction webcnt generalizing input with
  | zero => cases h
  | succ webcnt ih =>
    unfold hmRows at h
    split at h
    · rename_i url v rest hscan
      split at h
      · rcases List.mem_cons.mp h with rfl | hrest
        · intro hmem
          have hspace : isSpace space = true := by decide
          rw [isSpace_of_scan_word hscan hmem] at hspace
          cases hspace
        · exact ih hrest
      · cases h
    · cases h

theorem Files.space_notMem (F : Files) : ∀ row ∈ F.rows, space ∉ row.url := by
  intro row hrow
  unfold Files.rows at hrow
  split at hrow
  · split at hrow
    · cases hrow
    · exact space_notMem_hmRows hrow
  · cases hrow

/-- Loaded databases are usable for a URL exactly if the cluster in its first row is at most
`total_clusters`. -/
theorem usable_iff {db : Databases} (hdb : db.Loaded F) (url : List UInt8) :
    db.Usable (hmLookup F.hashmap url) ↔ ∀ row ∈ firstRow F.rows url, row.id ≤ F.total := by
  have hlookup := hmLookup_foldl F.space_notMem url
  unfold Databases.Usable Files.hashmap
  rw [hlookup, hdb.total]
  cases firstRow F.rows url with
  | none => exact ⟨fun _ row hrow => (nomatch hrow), fun _ => Or.inl rfl⟩
  | some row =>
    rw [Option.map_some, Option.getD_some]
    constructor
    · rintro (hnone | ⟨-, hle, -⟩) row' hrow'
      · have hpos := row.pos
        omega
      · obtain rfl := Option.mem_some_iff.mp hrow'
        exact hle
    · intro hrow
      have hle := hrow row rfl
      have hid : row.id ∈ clusterIds F.total := mem_clusterIds.mpr ⟨row.pos, hle⟩
      exact Or.inr ⟨row.pos, hle, loadTraces_filled hdb.straces hid⟩

/-- **Loading the databases is safe** exactly if the files are safe, every URL that is looked up
fits into `tmpkey`, and the first row of `clusters.txt` with this URL, if there is one, names a
cluster up to `total_clusters`. -/
theorem load_safe_iff (F : Files) (urls : List (List UInt8)) :
    SafeCalls F urls ↔ (urls ≠ [] → F.Safe) ∧ ∀ url ∈ urls, shortKey url ∧
      ∀ row ∈ firstRow F.rows url, row.id ≤ F.total := by
  cases urls with
  | nil =>
    simp only [ne_eq, not_true_eq_false, false_implies, List.not_mem_nil, implies_true, and_self,
      iff_true]
    exact ⟨[], {}, rfl, by simp⟩
  | cons url urls =>
    simp only [ne_eq, reduceCtorEq, not_false_eq_true, true_implies]
    unfold SafeCalls loadClusterIds
    simp only [bind_eq_ok_iff]
    constructor
    · rintro ⟨ids, db, ⟨⟨id, db1⟩, h1, ⟨ids', db2⟩, hrest, h⟩, husable⟩
      obtain ⟨hkeys, hshort, rfl, hdb⟩ := loadClusterId_first.mp h1
      obtain ⟨hshorts, rfl, rfl⟩ := (loadClusterIds_again hdb).mp hrest
      obtain ⟨rfl, rfl⟩ := Prod.mk.inj (Except.ok.inj h)
      obtain ⟨hids, htraces⟩ := (loadTraces_ok_iff F).mp ⟨_, hdb.straces⟩
      refine ⟨⟨hkeys, hids, htraces⟩, List.forall_mem_cons.mpr ⟨⟨hshort, ?_⟩, fun u hu => ?_⟩⟩
      · exact (usable_iff hdb url).mp (husable _ List.mem_cons_self)
      · exact ⟨hshorts u hu, (usable_iff hdb u).mp
          (husable _ (List.mem_cons_of_mem _ (List.mem_map_of_mem hu)))⟩
    · rintro ⟨hsafe, hurls⟩
      obtain ⟨s, hs⟩ := (loadTraces_ok_iff F).mpr ⟨hsafe.ids, hsafe.traces⟩
      have hdb : Databases.Loaded F ⟨some F.hashmap, F.total, s⟩ := ⟨rfl, rfl, hs⟩
      refine ⟨_, _, ⟨_, loadClusterId_first.mpr
        ⟨hsafe.keys, (hurls url List.mem_cons_self).1, rfl, hdb⟩, _,
        (loadClusterIds_again hdb).mpr
          ⟨fun u hu => (hurls u (List.mem_cons_of_mem _ hu)).1, rfl, rfl⟩, rfl⟩, ?_⟩
      intro id hid
      have hmem : id ∈ (url :: urls).map (hmLookup F.hashmap) := hid
      obtain ⟨u, hu, rfl⟩ := List.mem_map.mp hmem
      exact (usable_iff hdb u).mpr (hurls u hu).2

/-- One URL of `n` bytes `a` in cluster `id`, with `total_clusters = 1`. -/
def oneUrl (n : ℕ) (id : Char) : List UInt8 :=
  (['1', ',', '1', ',', '\n'] ++ List.replicate n 'a' ++ [' ', id, ',', '\n']).map Char.toUInt8

/-- The trace of cluster 1: two packets, the second one of `size` bytes. -/
def oneTrace (id : Char) (size : List Char) : List UInt8 :=
  ([id, ',', '2', ',', '\n', '-', '7', ','] ++ size ++
    [',', '\n', '0', ',', '1', ',', '\n', '0', ',', '0', ',', '\n']).map Char.toUInt8

/-- Well-formed files load, but loading is unsafe for: a missing `st.txt`, a trace whose packets all
go the same way, a trace of a cluster above `total_clusters`, a row with a URL of 257 bytes, and a
URL whose cluster is above `total_clusters`. -/
theorem load_unsafe :
    (loadClusterId ⟨oneUrl 1 '1', oneTrace '1' ['9']⟩ {} [97]).map Prod.fst = .ok 1 ∧
      (loadClusterId ⟨oneUrl 1 '1', none⟩ {} [97]).map Prod.fst = .error .unfilledRead ∧
      (loadClusterId ⟨oneUrl 1 '1', oneTrace '1' ['-', '9']⟩ {} [97]).map Prod.fst =
        .error .splitIndex ∧
      (loadClusterId ⟨oneUrl 1 '1', oneTrace '2' ['9']⟩ {} [97]).map Prod.fst =
        .error .straceWrite ∧
      (loadClusterId ⟨oneUrl 257 '1', oneTrace '1' ['9']⟩ {} [97]).map Prod.fst =
        .error .tmpkey ∧
      (loadClusterId ⟨oneUrl 1 '2', oneTrace '1' ['9']⟩ {} [97]).map
        (fun r => (r.1, r.2.total)) = .ok (2, 1) := by
  refine ⟨?_, ?_, ?_, ?_, ?_, ?_⟩ <;> decide +kernel

end CSBuFLO
