/-
# Hash tables with linear probing

A table has `n` cells, some of them empty.  A key is searched from the cell of its hash on, cell by
cell and around the end of the table, until an empty cell or one with the key is found; there it
is also put.

* `probe` is the search;
* `Placed` : every entry can be found, since the cells from its hash up to it are not empty;
* `probe_spec` : in such a table with an empty cell, the search ends at the key if it is there, and
  at an empty cell if it is not;
* `Placed.put` : what is put where the search ended can be found.
-/
import Mathlib.Data.Finset.Card
import Mathlib.Data.Finset.Range
import Mathlib.Logic.Function.Basic
import Mathlib.Tactic.Ring

namespace Probing

variable {ι K : Type} [DecidableEq K] {n : ℕ} {hash : K → ℕ} {key : ι → K} {table : ℕ → Option ι}

/-- The cell at which the search for `k` from cell `i` on ends, with at most `fuel` cells looked
at. -/
def probe (n : ℕ) (key : ι → K) (table : ℕ → Option ι) (k : K) : ℕ → ℕ → Option ℕ
  | 0, _ => none
  | fuel + 1, i =>
    match table i with
    | none => some i
    | some e => if key e = k then some i else probe n key table k fuel ((i + 1) % n)

/-- The cells before the `d`-th one from `h` on are not empty. -/
def Filled (n : ℕ) (table : ℕ → Option ι) (h d : ℕ) : Prop :=
  ∀ d' < d, (table ((h + d') % n)).isSome

/-- Every entry can be found. -/
def Placed (n : ℕ) (hash : K → ℕ) (key : ι → K) (table : ℕ → Option ι) : Prop :=
  ∀ i < n, ∀ e, table i = some e →
    ∃ d < n, (hash (key e) + d) % n = i ∧ Filled n table (hash (key e)) d

omit [DecidableEq K] in
theorem placed_empty : Placed n hash key (fun _ => none) := fun _ _ _ h => nomatch h

omit [DecidableEq K] in
/-- Every cell is some places behind a given one. -/
theorem exists_offset {h i : ℕ} (hh : h < n) (hi : i < n) : ∃ d < n, (h + d) % n = i := by
  rcases Nat.lt_or_ge i h with hlt | hge
  · refine ⟨n + i - h, by omega, ?_⟩
    have hsum : h + (n + i - h) = i + n := by omega
    rw [hsum, Nat.add_mod_right, Nat.mod_eq_of_lt hi]
  · refine ⟨i - h, by omega, ?_⟩
    have hsum : h + (i - h) = i := by omega
    rw [hsum, Nat.mod_eq_of_lt hi]

/-- The search from the `d`-th cell on, if there is an empty cell at or behind it. -/
theorem probe_from {k : K} {h d₀ : ℕ} (hempty : table ((h + d₀) % n) = none) (fuel d : ℕ)
    (hd : d ≤ d₀) (hfuel : d₀ < d + fuel) (hfilled : Filled n table h d)
    (hother : ∀ d' < d, ∀ e, table ((h + d') % n) = some e → key e ≠ k) :
    ∃ d₁ ≤ d₀, probe n key table k fuel ((h + d) % n) = some ((h + d₁) % n) ∧
      Filled n table h d₁ ∧
      (∀ d' < d₁, ∀ e, table ((h + d') % n) = some e → key e ≠ k) ∧
      ∀ e, table ((h + d₁) % n) = some e → key e = k := by
  induction fuel generalizing d with
  | zero => omega
  | succ fuel ih =>
    cases hcell : table ((h + d) % n) with
    | none =>
      refine ⟨d, hd, ?_, hfilled, hother, ?_⟩
      · rw [probe, hcell]
      · intro e he
        rw [hcell] at he
        cases he
    | some e =>
      by_cases hkey : key e = k
      · refine ⟨d, hd, ?_, hfilled, hother, ?_⟩
        · rw [probe, hcell]
          exact if_pos hkey
        · intro e' he'
          rw [hcell] at he'
          rw [← Option.some.inj he']
          exact hkey
      · -- the next cell
        have hne : d ≠ d₀ := by
          rintro rfl
          rw [hempty] at hcell
          cases hcell
        have hnext : ((h + d) % n + 1) % n = (h + (d + 1)) % n := by
          rw [Nat.mod_add_mod, Nat.add_assoc]
        have hstep : probe n key table k (fuel + 1) ((h + d) % n) =
            probe n key table k fuel ((h + (d + 1)) % n) := by
          rw [probe, hcell, ← hnext]
          exact if_neg hkey
        rw [hstep]
        refine ih (d + 1) (by omega) (by omega) (fun d' hd' => ?_) fun d' hd' e' he' => ?_
        · rcases Nat.lt_succ_iff_lt_or_eq.mp hd' with hlt | rfl
          · exact hfilled d' hlt
          · rw [hcell]
            rfl
        · rcases Nat.lt_succ_iff_lt_or_eq.mp hd' with hlt | rfl
          · exact hother d' hlt e' he'
          · rw [hcell] at he'
            rw [← Option.some.inj he']
            exact hkey

/-- **The search** ends at the key if it is in the table, and at an empty cell if it is not. -/
theorem probe_spec (hplaced : Placed n hash key table) {k : K} (hhash : hash k < n)
    (hempty : ∃ i < n, table i = none) :
    ∃ d < n, probe n key table k n (hash k) = some ((hash k + d) % n) ∧
      Filled n table (hash k) d ∧
      (∀ e, table ((hash k + d) % n) = some e → key e = k) ∧
      (table ((hash k + d) % n) = none → ∀ i < n, ∀ e, table i = some e → key e ≠ k) := by
  obtain ⟨i₀, hi₀, hnone⟩ := hempty
  obtain ⟨d₀, hd₀, rfl⟩ := exists_offset hhash hi₀
  have hstart : ∀ d' < 0, ∀ e, table ((hash k + d') % n) = some e → key e ≠ k := fun _ hlt =>
    absurd hlt (Nat.not_lt_zero _)
  obtain ⟨d, hd, hprobe, hfilled, hother, hfound⟩ := probe_from hnone n 0 (Nat.zero_le _)
    (by omega) (fun _ hlt => absurd hlt (Nat.not_lt_zero _)) hstart
  rw [Nat.add_zero, Nat.mod_eq_of_lt hhash] at hprobe
  refine ⟨d, by omega, hprobe, hfilled, hfound, fun hend i hi e he hkey => ?_⟩
  -- the key would have been met before the empty cell
  obtain ⟨d₁, hd₁, rfl, hfilled₁⟩ := hplaced i hi e he
  rw [hkey] at he hfilled₁
  rcases Nat.lt_trichotomy d₁ d with hlt | rfl | hgt
  · exact hother d₁ hlt e he hkey
  · rw [hend] at he
    cases he
  · have hcell := hfilled₁ d hgt
    rw [hend] at hcell
    cases hcell

omit [DecidableEq K] in
/-- **Putting** an entry where the search for its key has ended. -/
theorem Placed.put (hplaced : Placed n hash key table) {e : ι} {d : ℕ} (hd : d < n)
    (hfilled : Filled n table (hash (key e)) d) :
    Placed n hash key (Function.update table ((hash (key e) + d) % n) (some e)) := by
  have hmono : ∀ {h d'}, Filled n table h d' →
      Filled n (Function.update table ((hash (key e) + d) % n) (some e)) h d' := by
    intro h d' hf d'' hlt
    by_cases hcell : (h + d'') % n = (hash (key e) + d) % n
    · rw [hcell, Function.update_self]
      rfl
    · rw [Function.update_of_ne hcell]
      exact hf d'' hlt
  intro i hi e' he'
  by_cases hcell : i = (hash (key e) + d) % n
  · subst hcell
    rw [Function.update_self] at he'
    rw [← Option.some.inj he']
    exact ⟨d, hd, rfl, hmono hfilled⟩
  · rw [Function.update_of_ne hcell] at he'
    obtain ⟨d', hd', hi', hf⟩ := hplaced i hi e' he'
    exact ⟨d', hd', hi', hmono hf⟩

/-! ## Empty cells -/

/-- The number of cells that are not empty. -/
def used (n : ℕ) (table : ℕ → Option ι) : ℕ :=
  ((Finset.range n).filter fun i => (table i).isSome).card

omit [DecidableEq K] in
theorem used_empty : used n (fun _ => (none : Option ι)) = 0 := by simp [used]

omit [DecidableEq K] in
theorem exists_empty (h : used n table < n) : ∃ i < n, table i = none := by
  by_contra hall
  have heq : (Finset.range n).filter (fun i => (table i).isSome) = Finset.range n := by
    refine Finset.filter_true_of_mem fun i hi => ?_
    exact Option.isSome_iff_ne_none.mpr fun hnone => hall ⟨i, Finset.mem_range.mp hi, hnone⟩
  unfold used at h
  rw [heq, Finset.card_range] at h
  exact Nat.lt_irrefl _ h

omit [DecidableEq K] in
/-- Putting an entry uses at most one more cell. -/
theorem used_put (i : ℕ) (e : ι) :
    used n (Function.update table i (some e)) ≤ used n table + 1 := by
  unfold used
  refine (Finset.card_le_card ?_).trans (Finset.card_insert_le i _)
  intro j hj
  rw [Finset.mem_filter] at hj
  by_cases hji : j = i
  · exact Finset.mem_insert.mpr (Or.inl hji)
  · rw [Function.update_of_ne hji] at hj
    exact Finset.mem_insert_of_mem (Finset.mem_filter.mpr hj)

end Probing
