/-
# Hash tables with chained buckets

A table gives a list of key and value for each bucket.  A key belongs to the bucket of its hash;
inserting puts the pair at the front of that bucket, unless the key is there already.

* `WellFormed` : every entry is in the bucket of its key, and no bucket has a key twice;
* `lookup_insert` : an insertion only matters to its own key, and only the first time;
* `lookup_insertAll` : a table filled from a list of pairs finds what the list finds, which is the
  value of the first pair with the key.
-/
import Mathlib.Data.List.Nodup
import Mathlib.Logic.Function.Basic

namespace Buckets

variable {K V ι : Type} {hash : K → ι} {b : ι → List (K × V)}

/-- Every entry is in the bucket of its key, and no bucket has a key twice. -/
structure WellFormed (hash : K → ι) (b : ι → List (K × V)) : Prop where
  placed : ∀ i kv, kv ∈ b i → i = hash kv.1
  nodup : ∀ i, ((b i).map Prod.fst).Nodup

theorem wellFormed_empty : WellFormed hash (fun _ => ([] : List (K × V))) :=
  ⟨fun _ _ hmem => (nomatch hmem), fun _ => .nil⟩

/-! ## Lookup and insertion -/

variable [DecidableEq K] [DecidableEq ι]

/-- The value of the first pair with a key. -/
def first (l : List (K × V)) (k : K) : Option V := (l.find? fun kv => kv.1 = k).map Prod.snd

theorem first_cons (kv : K × V) (l : List (K × V)) (k : K) :
    first (kv :: l) k = if kv.1 = k then some kv.2 else first l k := by
  unfold first
  rw [List.find?_cons]
  split
  · rename_i hk
    rw [if_pos (of_decide_eq_true hk)]
    rfl
  · rename_i hk
    rw [if_neg (of_decide_eq_false hk)]

/-- A key that is not found is in no pair. -/
theorem first_eq_none {l : List (K × V)} {k : K} (h : first l k = none) {kv : K × V}
    (hmem : kv ∈ l) : kv.1 ≠ k := by
  have hall := List.find?_eq_none.mp (Option.map_eq_none_iff.mp h) kv hmem
  exact fun heq => hall (decide_eq_true heq)

/-- The value of a key in a table. -/
def lookup (hash : K → ι) (b : ι → List (K × V)) (k : K) : Option V := first (b (hash k)) k

/-- Insert a pair in front of its bucket, unless the key is there. -/
def insert (hash : K → ι) (b : ι → List (K × V)) (kv : K × V) : ι → List (K × V) :=
  if (lookup hash b kv.1).isSome then b
  else Function.update b (hash kv.1) (kv :: b (hash kv.1))

/-- Insert the pairs of a list, one after the other. -/
def insertAll (hash : K → ι) (b : ι → List (K × V)) (kvs : List (K × V)) : ι → List (K × V) :=
  kvs.foldl (insert hash) b

/-- **An insertion only matters to its own key**, and only if the key was not there. -/
theorem lookup_insert (hash : K → ι) (b : ι → List (K × V)) (kv : K × V) (k : K) :
    lookup hash (insert hash b kv) k =
      (lookup hash b k).or (if kv.1 = k then some kv.2 else none) := by
  unfold insert
  split
  · rename_i hthere
    split
    · rename_i hk
      obtain ⟨v, hv⟩ := Option.isSome_iff_exists.mp hthere
      rw [← hk, hv]
      rfl
    · rw [Option.or_none]
  · rename_i hnew
    rw [Option.not_isSome_iff_eq_none] at hnew
    unfold lookup
    by_cases hi : hash k = hash kv.1
    · rw [hi, Function.update_self, first_cons]
      split
      · rename_i hk
        rw [← hk]
        exact (congrArg (Option.or · (some kv.2)) hnew).symm
      · rw [Option.or_none]
    · rw [Function.update_of_ne hi, if_neg fun hk => hi (congrArg hash hk.symm), Option.or_none]

/-- An insertion does not change what other keys find. -/
theorem lookup_insert_of_ne {kv : K × V} {k : K} (h : kv.1 ≠ k) :
    lookup hash (insert hash b kv) k = lookup hash b k := by
  rw [lookup_insert, if_neg h, Option.or_none]

/-- **An insertion keeps the table well formed.** -/
theorem WellFormed.insert (h : WellFormed hash b) (kv : K × V) :
    WellFormed hash (insert hash b kv) := by
  unfold Buckets.insert
  split
  · exact h
  · rename_i hnew
    rw [Option.not_isSome_iff_eq_none] at hnew
    constructor
    · intro i kv' hmem
      by_cases hi : i = hash kv.1
      · subst hi
        rw [Function.update_self] at hmem
        rcases List.mem_cons.mp hmem with rfl | hold
        · rfl
        · exact h.placed _ _ hold
      · rw [Function.update_of_ne hi] at hmem
        exact h.placed i kv' hmem
    · intro i
      by_cases hi : i = hash kv.1
      · subst hi
        rw [Function.update_self, List.map_cons, List.nodup_cons]
        refine ⟨?_, h.nodup _⟩
        -- the key would have been found
        intro hmem
        obtain ⟨kv', hkv', heq⟩ := List.mem_map.mp hmem
        exact first_eq_none hnew hkv' heq
      · rw [Function.update_of_ne hi]
        exact h.nodup i

theorem WellFormed.insertAll (h : WellFormed hash b) (kvs : List (K × V)) :
    WellFormed hash (insertAll hash b kvs) := by
  induction kvs generalizing b with
  | nil => exact h
  | cons kv kvs ih => exact ih (h.insert kv)

/-- **The first pair with a key wins.** -/
theorem lookup_insertAll (hash : K → ι) (b : ι → List (K × V)) (kvs : List (K × V)) (k : K) :
    lookup hash (insertAll hash b kvs) k = (lookup hash b k).or (first kvs k) := by
  induction kvs generalizing b with
  | nil => exact (Option.or_none).symm
  | cons kv kvs ih =>
    have hcons : first (kv :: kvs) k =
        (if kv.1 = k then some kv.2 else none).or (first kvs k) := by
      rw [first_cons]
      split <;> rfl
    rw [hcons, ← Option.or_assoc, ← lookup_insert]
    exact ih (Buckets.insert hash b kv)

end Buckets
