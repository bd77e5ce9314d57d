/-
# Ring buffers

A ring of `n` cells is an array with the index of the next cell to write.  Its contents are the
entries written last, newest first (`Ring.last`), so that a write puts its entry at the front
and drops what no longer fits (`Ring.last_push`).

* `cell n i d` is the cell `d + 1` places before `i`;
* `last n arr i k` lists the `k` entries before `i`;
* `last_append` is the same for a block of entries that is written at once;
* `cells_perm` says that a ring which has not wrapped, or is full, uses the cells from 0 on.
-/
import Mathlib.Data.List.Nodup
import Mathlib.Data.List.Perm.Subperm
import Mathlib.Tactic.SplitIfs

namespace Ring

variable {α : Type*} {n i k : ℕ}

/-- The cell `d + 1` places before `i` in a ring of `n` cells. -/
def cell (n i d : ℕ) : ℕ := if d < i then i - 1 - d else n + i - 1 - d

/-- The last `k` entries of a ring whose next entry goes to cell `i`, newest first. -/
def last (n : ℕ) (arr : ℕ → α) (i k : ℕ) : List α := (List.range k).map fun d => arr (cell n i d)

@[simp] theorem length_last (arr : ℕ → α) : (last n arr i k).length = k := by simp [last]

theorem next_eq (h : i < n) : (i + 1) % n = if i + 1 = n then 0 else i + 1 := by
  split
  · rename_i hn
    rw [hn, Nat.mod_self]
  · exact Nat.mod_eq_of_lt (by omega)

theorem next_lt (h : i < n) : (i + 1) % n < n := Nat.mod_lt _ (by omega)

/-- The cell before the next one. -/
theorem cell_next_zero (h : i < n) : cell n ((i + 1) % n) 0 = i := by
  rw [next_eq h]
  unfold cell
  split_ifs <;> omega

/-- Going back one place more from the next cell. -/
theorem cell_next_succ {d : ℕ} (h : i < n) (hd : d + 1 < n) :
    cell n ((i + 1) % n) (d + 1) = cell n i d := by
  rw [next_eq h]
  unfold cell
  split_ifs <;> omega

/-- Fewer than `n` places back, one does not come to the next cell to write. -/
theorem cell_ne {d : ℕ} (hd : d + 1 < n) : cell n i d ≠ i := by
  unfold cell
  split <;> omega

/-- **Writing an entry** puts it in front of the others, of which the last `n` are kept. -/
theorem last_push (arr : ℕ → α) (x : α) (h : i < n) (hk : k ≤ n) :
    last n (Function.update arr i x) ((i + 1) % n) (min (k + 1) n) =
      (x :: last n arr i k).take n := by
  refine List.ext_getElem ?_ fun d hd hd' => ?_
  · simp [Nat.min_comm]
  · rw [length_last] at hd
    rw [List.getElem_take]
    cases d with
    | zero => simp [last, cell_next_zero h]
    | succ d =>
      have hne : cell n i d ≠ i := cell_ne (by omega)
      simp [last, cell_next_succ (d := d) h (by omega), hne]

theorem getElem_last {d : ℕ} (arr : ℕ → α) (hd : d < (last n arr i k).length) :
    (last n arr i k)[d] = arr (cell n i d) := by
  simp [last]

/-- Fewer of the last entries. -/
theorem take_last {m : ℕ} (arr : ℕ → α) (h : m ≤ k) : (last n arr i k).take m = last n arr i m := by
  unfold last
  rw [← List.map_take, List.take_range, Nat.min_eq_left h]

/-- **Writing a block of entries** puts them in front of the others: the block is
before the next cell `j`, and the other entries are before the block. -/
theorem last_append {j : ℕ} (arr arr' : ℕ → α) (block : List α)
    (hnew : ∀ d (hd : d < block.reverse.length), arr' (cell n j d) = block.reverse[d])
    (hold : ∀ d, block.length + d < n → arr' (cell n j (block.length + d)) = arr (cell n i d)) :
    last n arr' j (min (k + block.length) n) = (block.reverse ++ last n arr i k).take n := by
  refine List.ext_getElem ?_ fun d hd hd' => ?_
  · rw [length_last, List.length_take, List.length_append, List.length_reverse, length_last]
    omega
  · rw [length_last] at hd
    rw [getElem_last, List.getElem_take]
    by_cases hlt : d < block.reverse.length
    · rw [List.getElem_append_left hlt]
      exact hnew d hlt
    · rw [List.getElem_append_right (by omega), getElem_last]
      rw [List.length_reverse] at hlt ⊢
      have hsplit := hold (d - block.length) (by omega)
      rwa [Nat.add_sub_cancel' (by omega)] at hsplit

/-- A ring that has not wrapped, or is full, uses the cells from 0 on. -/
theorem cells_perm (h : k = i ∧ i < n ∨ k = n ∧ i < n) :
    ((List.range k).map (cell n i)).Perm (List.range k) := by
  have hnodup : ((List.range k).map (cell n i)).Nodup := by
    refine (List.nodup_range).map_on fun d hd d' hd' heq => ?_
    rw [List.mem_range] at hd hd'
    unfold cell at heq
    split_ifs at heq <;> omega
  have hsub : (List.range k).map (cell n i) ⊆ List.range k := by
    intro c hc
    obtain ⟨d, hd, rfl⟩ := List.mem_map.mp hc
    rw [List.mem_range] at hd ⊢
    unfold cell
    split <;> omega
  exact (List.subperm_of_subset hnodup hsub).perm_of_length_le (by simp)

theorem last_perm (arr : ℕ → α) (h : k = i ∧ i < n ∨ k = n ∧ i < n) :
    (last n arr i k).Perm ((List.range k).map arr) := by
  have hperm := (cells_perm h).map arr
  rwa [List.map_map] at hperm

end Ring
