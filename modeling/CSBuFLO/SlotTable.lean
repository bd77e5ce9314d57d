/-
# Tables of slots

A table is a list of slots, free or taken.  A new entry goes into the first free slot, or into a
new one at the end, together with some free ones (`alloc`).  Slots are reused, so an index alone
does not say which entry is meant; entries carry a key that does.

`Holds key table t v` says where the entry with the key `t` is: `v` is its index and the entry, or
`none` when the table has no such entry.  The lemmas say what a change of one slot does to this.
-/
import Mathlib

namespace SlotTable

variable {σ τ : Type}

/-- The entry in a slot. -/
def get (table : List (Option σ)) (i : ℕ) : Option σ := (table[i]?).join

/-- Put an entry into the first free slot, or behind the last one with `spare` free slots after it;
`none` when the table has more than `limit` slots, all taken. -/
def alloc (spare limit : ℕ) (table : List (Option σ)) (x : σ) : Option (List (Option σ) × ℕ) :=
  match table.findIdx? Option.isNone with
  | some i => some (table.set i (some x), i)
  | none =>
    if limit < table.length then none
    else some (table ++ some x :: List.replicate spare none, table.length)

theorem lt_length_of_get {table : List (Option σ)} {i : ℕ} {x : σ} (h : get table i = some x) :
    i < table.length := by
  by_contra hlt
  rw [get, List.getElem?_eq_none (Nat.le_of_not_lt hlt)] at h
  cases h

/-- One slot of a table has changed. -/
structure Changed (table table' : List (Option σ)) (i : ℕ) (x : Option σ) : Prop where
  here : get table' i = x
  elsewhere : ∀ j, j ≠ i → get table' j = get table j

theorem changed_set {table : List (Option σ)} {i : ℕ} (hi : i < table.length) (x : Option σ) :
    Changed table (table.set i x) i x where
  here := by
    rw [get, List.getElem?_set_self hi]
    rfl
  elsewhere := by
    intro j hj
    rw [get, get, List.getElem?_set_ne (Ne.symm hj)]

/-- A new entry is put into a slot that was free. -/
theorem changed_alloc {spare limit i : ℕ} {table table' : List (Option σ)} {x : σ}
    (h : alloc spare limit table x = some (table', i)) :
    get table i = none ∧ Changed table table' i (some x) := by
  unfold alloc at h
  split at h
  · rename_i k hk
    obtain ⟨rfl, rfl⟩ := Prod.mk.inj (Option.some.inj h)
    obtain ⟨hlt, hnone, -⟩ := List.findIdx?_eq_some_iff_getElem.mp hk
    refine ⟨?_, changed_set hlt (some x)⟩
    rw [get, List.getElem?_eq_getElem hlt]
    exact Option.isNone_iff_eq_none.mp hnone
  · split_ifs at h
    obtain ⟨rfl, rfl⟩ := Prod.mk.inj (Option.some.inj h)
    have hnone : table[table.length]? = none := List.getElem?_eq_none le_rfl
    refine ⟨by rw [get, hnone]; rfl, ⟨?_, ?_⟩⟩
    · rw [get, List.getElem?_append_right le_rfl, Nat.sub_self]
      rfl
    · intro j hj
      rcases Nat.lt_or_gt_of_ne hj with hlt | hgt
      · rw [get, get, List.getElem?_append_left hlt]
      · -- behind the new entry there are free slots or none at all
        obtain ⟨k, rfl⟩ := Nat.exists_eq_add_of_lt hgt
        rw [get, get, List.getElem?_append_right (by omega),
          List.getElem?_eq_none (show table.length ≤ table.length + k + 1 by omega),
          show table.length + k + 1 - table.length = k + 1 by omega, List.getElem?_cons_succ,
          List.getElem?_replicate]
        split <;> rfl

/-! ## Entries by their keys -/

/-- Where the entry with the key `t` is. -/
def Holds (key : σ → τ) (table : List (Option σ)) (t : τ) (v : Option (ℕ × σ)) : Prop :=
  ∀ i x, (get table i = some x ∧ key x = t) ↔ v = some (i, x)

variable {key : σ → τ} {table table' : List (Option σ)} {t : τ} {i : ℕ} {x x' : Option σ}
  {v : Option (ℕ × σ)}

theorem holds_nil : Holds key [] t none := by
  intro i x
  constructor
  · rintro ⟨h, -⟩
    cases h
  · intro h
    cases h

/-- Other keys are not concerned. -/
theorem Holds.of_ne (h : Holds key table t v) (hchange : Changed table table' i x')
    (hold : ∀ y, get table i = some y → key y ≠ t) (hnew : ∀ y, x' = some y → key y ≠ t) :
    Holds key table' t v := by
  intro j y
  rw [← h j y]
  by_cases hj : j = i
  · subst hj
    rw [hchange.here]
    exact ⟨fun hy => absurd hy.2 (hnew y hy.1), fun hy => absurd hy.2 (hold y hy.1)⟩
  · rw [hchange.elsewhere j hj]

/-- The entry with the key itself is put, replaced or removed. -/
theorem Holds.change (h : Holds key table t v) (hchange : Changed table table' i x')
    (hv : ∀ y, v = some y → y.1 = i) (hnew : ∀ y, x' = some y → key y = t) :
    Holds key table' t (x'.map fun y => (i, y)) := by
  intro j y
  rw [Option.map_eq_some_iff]
  constructor
  · rintro ⟨hget, hkey⟩
    by_cases hj : j = i
    · subst hj
      rw [hchange.here] at hget
      exact ⟨y, hget, rfl⟩
    · rw [hchange.elsewhere j hj] at hget
      exact absurd (hv _ ((h j y).mp ⟨hget, hkey⟩)) hj
  · rintro ⟨y', rfl, heq⟩
    obtain ⟨rfl, rfl⟩ := Prod.mk.inj heq
    exact ⟨hchange.here, hnew _ rfl⟩

/-- **A change that concerns one key only**: the other entries stay where they are, and `w` is where
the entry with the key `t` is afterwards. -/
structure Step (key : σ → τ) (table table' : List (Option σ)) (t : τ) (w : Option (ℕ × σ)) :
    Prop where
  own : Holds key table' t w
  others : ∀ t' v, t' ≠ t → Holds key table t' v → Holds key table' t' v

theorem Step.refl (h : Holds key table t v) : Step key table table t v := ⟨h, fun _ _ _ h => h⟩

/-- The entry is replaced or removed. -/
theorem Step.set {y : σ} (h : Holds key table t (some (i, y)))
    (hnew : ∀ z, x' = some z → key z = t) :
    Step key table (table.set i x') t (x'.map fun z => (i, z)) := by
  obtain ⟨hget, hkey⟩ := (h i y).mpr rfl
  have hchange := changed_set (lt_length_of_get hget) x'
  refine ⟨h.change hchange (fun z hz => ?_) hnew, fun t' v ht hv => hv.of_ne hchange ?_ ?_⟩
  · obtain rfl := Option.some.inj hz
    rfl
  · intro z hz
    obtain rfl := Option.some.inj (hget.symm.trans hz)
    exact fun h => ht (h.symm.trans hkey)
  · exact fun z hz h => ht (h.symm.trans (hnew z hz))

/-- An entry with a new key is put into the table. -/
theorem Step.alloc {spare limit : ℕ} {y : σ} (h : Holds key table t none) (hy : key y = t)
    (ha : alloc spare limit table y = some (table', i)) :
    Step key table table' t (some (i, y)) := by
  obtain ⟨hnone, hchange⟩ := changed_alloc ha
  refine ⟨h.change hchange (fun z hz => ?_) (fun z hz => ?_), fun t' v ht hv =>
    hv.of_ne hchange ?_ ?_⟩
  · cases hz
  · obtain rfl := Option.some.inj hz
    exact hy
  · intro z hz
    cases hnone.symm.trans hz
  · intro z hz
    obtain rfl := Option.some.inj hz
    exact fun h => ht (h.symm.trans hy)

theorem Holds.get_eq {y : σ} (h : Holds key table t (some (i, y))) :
    get table i = some y ∧ key y = t := (h i y).mpr rfl

theorem Holds.eq_some {y : σ} (h : Holds key table t v) (hget : get table i = some y)
    (hkey : key y = t) : v = some (i, y) := (h i y).mp ⟨hget, hkey⟩

end SlotTable
