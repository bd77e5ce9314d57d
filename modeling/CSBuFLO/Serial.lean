/-
# Formats that can be read back

A format writes a value as a list of symbols and reads a value from the front of a list.
`Format.get_put` is its law: what was written is read back, whatever follows it.  It may only
hold for some values (`Valid`), since lengths are limited and strings may not hold every symbol.

* `getList` reads several values;
* a format is `Exact` when it only reads what it writes, and `Normal` when what it reads can be
  written in no more symbols.
-/
import Mathlib

namespace Serial

variable {β α : Type}

/-- How values are written and read.  `Valid` are the values that survive it. -/
structure Format (β α : Type) where
  put : α → List β
  get : List β → Option (α × List β)
  Valid : α → Prop
  get_put : ∀ {x : α}, Valid x → ∀ rest, get (put x ++ rest) = some (x, rest)

namespace Format

/-- Read a number of values. -/
def getList (F : Format β α) : ℕ → List β → Option (List α × List β)
  | 0, bs => some ([], bs)
  | n + 1, bs => (F.get bs).bind fun r => (F.getList n r.2).map fun t => (r.1 :: t.1, t.2)

/-- A list of values is read back, with what follows it left over. -/
theorem getList_flatMap (F : Format β α) {xs : List α} (h : ∀ x ∈ xs, F.Valid x) (rest : List β) :
    F.getList xs.length (xs.flatMap F.put ++ rest) = some (xs, rest) := by
  induction xs with
  | nil => rfl
  | cons x xs ih =>
    have hx := F.get_put (h x List.mem_cons_self) (xs.flatMap F.put ++ rest)
    rw [List.flatMap_cons, List.append_assoc, List.length_cons, getList, hx, Option.bind_some,
      ih fun y hy => h y (List.mem_cons_of_mem x hy), Option.map_some]

/-! ## Exact formats -/

/-- Only what is written is read. -/
def Exact (F : Format β α) : Prop :=
  ∀ {bs : List β} {x : α} {rest : List β}, F.get bs = some (x, rest) →
    bs = F.put x ++ rest ∧ F.Valid x

/-- What is read can be written, and in no more symbols than it was read from. -/
def Normal (F : Format β α) : Prop :=
  ∀ {bs : List β} {x : α} {rest : List β}, F.get bs = some (x, rest) →
    F.Valid x ∧ (F.put x).length + rest.length ≤ bs.length

/-- Exact formats are normal: nothing shorter is accepted. -/
theorem Exact.normal {F : Format β α} (hF : F.Exact) : F.Normal := by
  intro bs x rest h
  obtain ⟨rfl, hvalid⟩ := hF h
  exact ⟨hvalid, (List.length_append ..).ge⟩

end Format

end Serial
