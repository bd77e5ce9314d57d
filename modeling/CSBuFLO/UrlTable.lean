/-
# The URL table is a first-wins map

`hm_lookup` cuts its key at the first space or NUL and hashes the copy; `hm_insert` hashes the key
it is given and stores it as it is.  For keys without spaces the two agree, and the table is a
hash table with chained buckets (`Buckets`): the value of a key is that of its first insertion.

`hm_lookup` copies the key into `tmpkey`, which has room for 256 bytes.  `url_table_first_wins_iff`
says that the table works for a query exactly if what is copied of it fits.
-/
import CSBuFLO.Buckets
import CSBuFLO.Url

namespace CSBuFLO

/-! ## Faults -/

/-- An access outside what it may touch. -/
inductive LoadFault where
  /-- `hm_lookup` writes behind `tmpkey[256]`. -/
  | tmpkey
  /-- `load_st` writes outside `straces[1..ccnt]`. -/
  | straceWrite
  /-- A trace that `load_st` did not fill is read. -/
  | unfilledRead
  /-- `split` accesses entry `-1` of a trace. -/
  | splitIndex
  deriving DecidableEq, Repr

/-! ## `hashmap.c` -/

/-- The key fits into `tmpkey` with its final NUL. -/
def shortKey (key : List UInt8) : Prop := (cutKey key).length ≤ 256

instance (key : List UInt8) : Decidable (shortKey key) := inferInstanceAs (Decidable (_ ≤ _))

/-- `hm_lookup`, with the bounds of `tmpkey`. -/
def hmLookupKey (hm : Hashmap) (key : List UInt8) : Except LoadFault ℤ :=
  if shortKey key then .ok (hmLookup hm key) else .error .tmpkey

/-- A line of `clusters.txt`. -/
structure Row where
  url : List UInt8
  id : ℤ
  pos : 0 < id

/-- `hm_insert` of a key that fits: at the front of its bucket, unless it is there. -/
def hmAdd (hm : Hashmap) (row : Row) : Hashmap :=
  if hmLookup hm row.url ≠ -1 then hm
  else
    let bucket := (defaultHash row.url).toNat % hmSize
    { buckets := Function.update hm.buckets bucket
        ((row.url.takeWhile (· ≠ 0), row.id) :: hm.buckets bucket)
      pos := by
        intro i kv hkv
        by_cases hi : i = bucket
        · rw [hi, Function.update_self] at hkv
          rcases List.mem_cons.mp hkv with rfl | hkv
          · exact row.pos
          · exact hm.pos bucket kv hkv
        · rw [Function.update_of_ne hi] at hkv
          exact hm.pos i kv hkv }

/-- `hm_insert`. -/
def hmInsert (hm : Hashmap) (row : Row) : Except LoadFault Hashmap :=
  if shortKey row.url then .ok (hmAdd hm row) else .error .tmpkey

/-- The table without any key. -/
def emptyHashmap : Hashmap := ⟨fun _ => [], Hashmap.pos_noPage⟩

/-! ## The table as chained buckets -/

/-- The bucket of a key. -/
def bucketOf (key : List UInt8) : ℕ := (defaultHash key).toNat % hmSize

/-- A C string without spaces of at most 255 bytes. -/
structure Row.Plain (row : Row) : Prop where
  space : space ∉ row.url
  nul : 0 ∉ row.url
  length : row.url.length ≤ 255

/-- **`hm_lookup` looks its cut key up in the buckets.** -/
theorem hmLookup_eq (hm : Hashmap) (q : List UInt8) :
    hmLookup hm q = (Buckets.lookup bucketOf hm.buckets (cutKey q)).getD (-1) := by
  unfold hmLookup Buckets.lookup Buckets.first bucketOf
  dsimp only
  cases (hm.buckets ((defaultHash (cutKey q)).toNat % hmSize)).find? fun kv => kv.1 = cutKey q with
  | none => rfl
  | some kv => rfl

/-- The values are positive, so that `-1` is not one of them. -/
theorem hmLookup_ne_iff (hm : Hashmap) (q : List UInt8) :
    hmLookup hm q ≠ -1 ↔ (Buckets.lookup bucketOf hm.buckets (cutKey q)).isSome := by
  rw [hmLookup_eq]
  cases hfind : Buckets.lookup bucketOf hm.buckets (cutKey q) with
  | none => simp
  | some v =>
    obtain ⟨kv, hkv, rfl⟩ := Option.map_eq_some_iff.mp hfind
    have hpos := hm.pos _ kv (List.mem_of_find?_eq_some hkv)
    simp only [Option.getD_some, Option.isSome_some, iff_true]
    omega

/-- Cutting a key twice is cutting it once. -/
theorem cutKey_cutKey (key : List UInt8) : cutKey (cutKey key) = cutKey key := by
  unfold cutKey
  rw [List.takeWhile_eq_self_iff]
  intro b hb
  have hkept := List.mem_takeWhile_imp hb
  exact hkept

/-- The hash is that of the cut key. -/
theorem bucketOf_cutKey (key : List UInt8) : bucketOf (cutKey key) = bucketOf key := by
  unfold bucketOf defaultHash
  rw [cutKey_cutKey]

/-- A key without spaces is stored up to its NUL, as it is looked up. -/
theorem takeWhile_eq_cutKey {key : List UInt8} (h : space ∉ key) :
    key.takeWhile (· ≠ 0) = cutKey key := by
  unfold cutKey
  induction key with
  | nil => rfl
  | cons b key ih =>
    have hne : (b != space) = true := bne_iff_ne.mpr fun heq => h (heq ▸ List.mem_cons_self)
    have hnul : decide (b ≠ 0) = (b != 0) := by rw [decide_not]; rfl
    rw [List.takeWhile_cons, List.takeWhile_cons, hne, Bool.true_and, hnul,
      ih fun hmem => h (List.mem_cons_of_mem b hmem)]

/-- **`hm_insert` puts a key in front of its bucket**, unless it is there. -/
theorem buckets_hmAdd (hm : Hashmap) {row : Row} (h : space ∉ row.url) :
    (hmAdd hm row).buckets = Buckets.insert bucketOf hm.buckets (cutKey row.url, row.id) := by
  have hthere := hmLookup_ne_iff hm row.url
  unfold hmAdd Buckets.insert
  by_cases hfound : hmLookup hm row.url ≠ -1
  · rw [if_pos hfound, if_pos (hthere.mp hfound)]
  · rw [if_neg hfound, if_neg fun hsome => hfound (hthere.mpr hsome), bucketOf_cutKey]
    dsimp only
    rw [takeWhile_eq_cutKey h]
    rfl

/-- Inserting keys one after the other. -/
theorem buckets_foldl (rows : List Row) (h : ∀ row ∈ rows, space ∉ row.url) (hm : Hashmap) :
    (rows.foldl hmAdd hm).buckets = Buckets.insertAll bucketOf hm.buckets
      (rows.map fun row => (cutKey row.url, row.id)) := by
  induction rows generalizing hm with
  | nil => rfl
  | cons row rows ih =>
    rw [List.foldl_cons, ih fun row' hrow' => h row' (List.mem_cons_of_mem row hrow'),
      buckets_hmAdd hm (h row List.mem_cons_self)]
    rfl

/-- The first row with the URL that a query asks for. -/
def firstRow (rows : List Row) (q : List UInt8) : Option Row :=
  rows.find? fun row => cutKey row.url = cutKey q

/-- **A query finds the first row with its URL.** -/
theorem hmLookup_foldl {rows : List Row} (h : ∀ row ∈ rows, space ∉ row.url) (q : List UInt8) :
    hmLookup (rows.foldl hmAdd emptyHashmap) q = ((firstRow rows q).map Row.id).getD (-1) := by
  have hempty : Buckets.lookup bucketOf emptyHashmap.buckets (cutKey q) = none := rfl
  have hmap : (rows.map fun row => (cutKey row.url, row.id)).find? (fun kv => kv.1 = cutKey q) =
      (firstRow rows q).map fun row => (cutKey row.url, row.id) := List.find?_map
  rw [hmLookup_eq, buckets_foldl rows h, Buckets.lookup_insertAll, hempty, Option.none_or]
  unfold Buckets.first
  rw [hmap, Option.map_map]
  rfl

/-! ## Plain keys -/

/-- Such a key is not cut. -/
theorem Row.Plain.cutKey {row : Row} (h : row.Plain) : cutKey row.url = row.url := by
  unfold CSBuFLO.cutKey
  rw [List.takeWhile_eq_self_iff]
  intro b hb
  rw [Bool.and_eq_true, bne_iff_ne, bne_iff_ne]
  exact ⟨fun heq => h.space (heq ▸ hb), fun heq => h.nul (heq ▸ hb)⟩

theorem Row.Plain.shortKey {row : Row} (h : row.Plain) : shortKey row.url := by
  unfold CSBuFLO.shortKey
  rw [h.cutKey]
  exact h.length.trans (by decide)

theorem hmInsert_eq_ok (hm : Hashmap) {row : Row} (h : row.Plain) :
    hmInsert hm row = .ok (hmAdd hm row) :=
  if_pos h.shortKey

/-- Plain keys are inserted without a fault. -/
theorem foldlM_hmInsert {rows : List Row} (h : ∀ row ∈ rows, row.Plain) (hm : Hashmap) :
    rows.foldlM hmInsert hm = .ok (rows.foldl hmAdd hm) := by
  induction rows generalizing hm with
  | nil => rfl
  | cons row rows ih =>
    rw [List.foldlM_cons, hmInsert_eq_ok hm (h row List.mem_cons_self)]
    exact ih (fun row' hrow' => h row' (List.mem_cons_of_mem row hrow')) (hmAdd hm row)

/-! ## First insertion wins -/

/-- The value of the first insertion of a key, or -1. -/
def firstValue (rows : List Row) (key : List UInt8) : ℤ :=
  match rows.find? fun row => row.url = key with
  | some row => row.id
  | none => -1

/-- The first insertion is the first row with the URL. -/
theorem firstValue_eq {rows : List Row} (h : ∀ row ∈ rows, row.Plain) (q : List UInt8) :
    firstValue rows (cutKey q) = ((firstRow rows q).map Row.id).getD (-1) := by
  have hfind : (rows.find? fun row => row.url = cutKey q) = firstRow rows q :=
    List.find?_congr fun row hrow => by rw [(h row hrow).cutKey]
  unfold firstValue
  rw [hfind]
  cases firstRow rows q with
  | none => rfl
  | some row => rfl

/-- What a table that `rows` were inserted into is for a query: no bucket has a key twice, every
entry is in the bucket of its key, the query finds the first insertion of the part before its first
space or NUL, and inserting another key does not change what it finds. -/
structure FirstWins (rows : List Row) (q : List UInt8) (hm : Hashmap) : Prop where
  nodup : ∀ i, ((hm.buckets i).map Prod.fst).Nodup
  placed : ∀ i kv, kv ∈ hm.buckets i → i = (defaultHash kv.1).toNat % hmSize
  lookup : hmLookupKey hm q = .ok (firstValue rows (cutKey q))
  other : ∀ row, row.Plain → row.url ≠ cutKey q → ∃ hm', hmInsert hm row = .ok hm' ∧
    hmLookupKey hm' q = hmLookupKey hm q

/-- **The URL table is a first-wins map** for a query exactly if the part of it before its first
space or NUL fits into `tmpkey`. -/
theorem url_table_first_wins_iff (rows : List Row) (hrows : ∀ row ∈ rows, row.Plain)
    (q : List UInt8) :
    (∃ hm, rows.foldlM hmInsert emptyHashmap = .ok hm ∧ FirstWins rows q hm) ↔
      (cutKey q).length ≤ 256 := by
  have hspace : ∀ row ∈ rows, space ∉ row.url := fun row hrow => (hrows row hrow).space
  have hformed : Buckets.WellFormed bucketOf (rows.foldl hmAdd emptyHashmap).buckets := by
    rw [buckets_foldl rows hspace]
    exact Buckets.wellFormed_empty.insertAll _
  constructor
  · rintro ⟨hm', -, hwins⟩
    by_contra hlong
    have hfault : hmLookupKey hm' q = .error .tmpkey := if_neg hlong
    rw [hwins.lookup] at hfault
    cases hfault
  · intro hlength
    have hshort : shortKey q := hlength
    refine ⟨_, foldlM_hmInsert hrows emptyHashmap, hformed.nodup, hformed.placed, ?_, ?_⟩
    · unfold hmLookupKey
      rw [if_pos hshort, hmLookup_foldl hspace, firstValue_eq hrows]
    · intro row hrow hne
      refine ⟨hmAdd _ row, hmInsert_eq_ok _ hrow, ?_⟩
      unfold hmLookupKey
      rw [if_pos hshort, if_pos hshort, hmLookup_eq, hmLookup_eq, buckets_hmAdd _ hrow.space,
        hrow.cutKey, Buckets.lookup_insert_of_ne hne]

/-- The URL `a`, inserted for cluster 1 and then for cluster 2, is found for `a bc` with its first
cluster. -/
theorem url_table_first_wins_twice :
    ∃ hm, [⟨[97], 1, by decide⟩, ⟨[97], 2, by decide⟩].foldlM hmInsert emptyHashmap = .ok hm ∧
      hmLookupKey hm [97, 32, 98, 99] = .ok 1 := by
  have hplain : ∀ row ∈ ([⟨[97], 1, by decide⟩, ⟨[97], 2, by decide⟩] : List Row), row.Plain := by
    simp only [List.forall_mem_cons]
    exact ⟨⟨by decide, by decide, by decide⟩, ⟨by decide, by decide, by decide⟩,
      fun _ hmem => (nomatch hmem)⟩
  obtain ⟨hm, hfold, hwins⟩ :=
    (url_table_first_wins_iff _ hplain [97, 32, 98, 99]).mpr (by decide)
  exact ⟨hm, hfold, hwins.lookup⟩

/-- **A row with a URL of 257 bytes** cannot be inserted even into the empty table: `hm_insert`
looks it up first, and it does not fit. -/
theorem url_table_long_query :
    hmInsert emptyHashmap ⟨List.replicate 257 97, 1, by decide⟩ = .error .tmpkey ∧
      ¬ ∃ hm, ([] : List Row).foldlM hmInsert emptyHashmap = .ok hm ∧
        FirstWins [] (List.replicate 257 97) hm := by
  have hlong : ¬ shortKey (List.replicate 257 97) := by decide +kernel
  refine ⟨if_neg hlong, ?_⟩
  rintro ⟨hm, -, hwins⟩
  have hfault : hmLookupKey hm (List.replicate 257 97) = .error .tmpkey := if_neg hlong
  rw [hwins.lookup] at hfault
  cases hfault

end CSBuFLO
