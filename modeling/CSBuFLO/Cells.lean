/-
# Stretches of cells

A memory is a function from addresses to values; `segment f a n` reads `n` cells from address `a`
on.  Two ways to write are given: `store` puts a list at an address, `move` copies a stretch.

* `segment_append`, `take_segment`, `drop_segment` : a stretch is cut at any point;
* `segment_store`, `segment_store_of_le` : what is stored is read back, and what is before it stays;
* `segment_move` : what is copied is read at the new place.
-/
import Mathlib.Data.List.GetD

namespace Cells

variable {α : Type*} (f : ℕ → α) (a : ℕ)

/-- The `n` cells from `a` on. -/
def segment (f : ℕ → α) (a n : ℕ) : List α := (List.range n).map fun k => f (a + k)

/-- Put a list at an address. -/
def store (f : ℕ → α) (p : ℕ) (xs : List α) : ℕ → α :=
  fun k => if k < p then f k else xs.getD (k - p) (f k)

/-- Copy `n` cells from `src` to `dst`. -/
def move (f : ℕ → α) (dst src n : ℕ) : ℕ → α :=
  fun k => if dst ≤ k ∧ k < dst + n then f (src + (k - dst)) else f k

@[simp] theorem length_segment (n : ℕ) : (segment f a n).length = n := by
  unfold segment
  rw [List.length_map, List.length_range]

theorem getElem_segment {n k : ℕ} (h : k < (segment f a n).length) :
    (segment f a n)[k] = f (a + k) := by
  simp only [segment, List.getElem_map, List.getElem_range]

theorem segment_append (n m : ℕ) : segment f a n ++ segment f (a + n) m = segment f a (n + m) := by
  unfold segment
  rw [List.range_add, List.map_append, List.map_map]
  congr 1
  refine List.map_congr_left fun k _ => ?_
  rw [Nat.add_assoc]
  rfl

theorem take_segment {n k : ℕ} (h : k ≤ n) : (segment f a n).take k = segment f a k := by
  unfold segment
  rw [← List.map_take, List.take_range, Nat.min_eq_left h]

theorem drop_segment {n k : ℕ} (h : k ≤ n) :
    (segment f a n).drop k = segment f (a + k) (n - k) := by
  have hsplit := segment_append f a k (n - k)
  rw [Nat.add_sub_cancel' h] at hsplit
  rw [← hsplit, List.drop_left' (length_segment f a k)]

/-- Two memories with the same cells have the same stretches. -/
theorem segment_congr {f g : ℕ → α} {a c n : ℕ} (h : ∀ k < n, f (a + k) = g (c + k)) :
    segment f a n = segment g c n :=
  List.map_congr_left fun k hk => h k (List.mem_range.mp hk)

/-- What is stored is read back. -/
theorem segment_store (p : ℕ) (xs : List α) : segment (store f p xs) p xs.length = xs := by
  apply List.ext_getElem
  · exact length_segment _ _ _
  · intro k hk hk'
    rw [getElem_segment]
    unfold store
    rw [if_neg (by omega), Nat.add_sub_cancel_left]
    exact List.getD_eq_getElem xs _ hk'

/-- The cells before the address stay. -/
theorem segment_store_of_le {a n p : ℕ} (xs : List α) (h : a + n ≤ p) :
    segment (store f p xs) a n = segment f a n :=
  segment_congr fun k hk => if_pos (by omega)

/-- What is copied is read at the new place. -/
theorem segment_move (dst src n : ℕ) : segment (move f dst src n) dst n = segment f src n := by
  refine segment_congr fun k hk => ?_
  unfold move
  rw [if_pos (by omega), Nat.add_sub_cancel_left]

end Cells
