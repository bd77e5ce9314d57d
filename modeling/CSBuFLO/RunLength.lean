/-
# Queues with repeated entries counted

A queue in which equal neighbours are kept once, with a count.  An entry that is pushed behind an
equal one only raises the count, up to a limit; one that is popped lowers it.

* `expand` is the queue that is meant;
* `expand_push` and `expand_pop` say that the operations are those of a queue.
-/
import Mathlib.Data.List.Basic

namespace RunLength

variable {α : Type} [DecidableEq α]

/-- The queue that is meant. -/
def expand (q : List (α × ℕ)) : List α := q.flatMap fun e => List.replicate e.2 e.1

/-- Put an entry at the end; `none` if a count would reach the limit. -/
def push (limit : ℕ) (q : List (α × ℕ)) (x : α) : Option (List (α × ℕ)) :=
  match q.getLast? with
  | some e =>
    if e.1 = x then
      if limit ≤ e.2 + 1 then none else some (q.dropLast ++ [(e.1, e.2 + 1)])
    else some (q ++ [(x, 1)])
  | none => some (q ++ [(x, 1)])

/-- Take an entry from the front. -/
def pop : List (α × ℕ) → Option (α × List (α × ℕ))
  | [] => none
  | (x, n) :: q => some (x, if n ≤ 1 then q else (x, n - 1) :: q)

/-- No entry has a count of 0. -/
def Positive (q : List (α × ℕ)) : Prop := ∀ e ∈ q, 0 < e.2

omit [DecidableEq α] in
theorem expand_append (q r : List (α × ℕ)) : expand (q ++ r) = expand q ++ expand r :=
  List.flatMap_append

omit [DecidableEq α] in
theorem expand_singleton (x : α) (n : ℕ) : expand [(x, n)] = List.replicate n x := by
  simp [expand]

variable {q q' : List (α × ℕ)}

/-- The two ways of a push. -/
theorem push_cases {limit : ℕ} {x : α} (h : push limit q x = some q') :
    q' = q ++ [(x, 1)] ∨
      ∃ init n, q = init ++ [(x, n)] ∧ q' = init ++ [(x, n + 1)] := by
  unfold push at h
  cases hlast : q.getLast? with
  | none =>
    rw [hlast] at h
    exact Or.inl (Option.some.inj h).symm
  | some e =>
    rw [hlast] at h
    dsimp only at h
    split_ifs at h with hx hlimit
    · obtain ⟨y, n⟩ := e
      obtain rfl : y = x := hx
      exact Or.inr ⟨q.dropLast, n, (List.dropLast_append_getLast? _ hlast).symm,
        (Option.some.inj h).symm⟩
    · exact Or.inl (Option.some.inj h).symm

/-- **A push puts the entry at the end.** -/
theorem expand_push {limit : ℕ} {x : α} (h : push limit q x = some q') :
    expand q' = expand q ++ [x] := by
  rcases push_cases h with rfl | ⟨init, n, rfl, rfl⟩
  · rw [expand_append, expand_singleton, List.replicate_one]
  · rw [expand_append, expand_append, expand_singleton, expand_singleton, List.replicate_succ',
      List.append_assoc]

theorem Positive.push {limit : ℕ} {x : α} (hq : Positive q) (h : push limit q x = some q') :
    Positive q' := by
  intro e he
  rcases push_cases h with rfl | ⟨init, n, rfl, rfl⟩
  · rcases List.mem_append.mp he with he | he
    · exact hq e he
    · rw [List.mem_singleton.mp he]
      exact Nat.one_pos
  · rcases List.mem_append.mp he with he | he
    · exact hq e (List.mem_append_left _ he)
    · rw [List.mem_singleton.mp he]
      exact Nat.succ_pos n

omit [DecidableEq α] in
/-- **A pop takes the entry at the front.** -/
theorem expand_pop {x : α} (hq : Positive q) (h : pop q = some (x, q')) :
    expand q = x :: expand q' ∧ Positive q' := by
  cases q with
  | nil => cases h
  | cons e q =>
    obtain ⟨y, n⟩ := e
    have hpos : 0 < n := hq (y, n) List.mem_cons_self
    have hrest : Positive q := fun e he => hq e (List.mem_cons_of_mem _ he)
    obtain ⟨rfl, rfl⟩ := Prod.mk.inj (Option.some.inj h)
    obtain ⟨m, rfl⟩ : ∃ m, n = m + 1 := ⟨n - 1, by omega⟩
    have hexpand : expand ((y, m + 1) :: q) = y :: (List.replicate m y ++ expand q) := rfl
    rw [hexpand]
    split
    · rename_i hone
      obtain rfl : m = 0 := by omega
      exact ⟨rfl, hrest⟩
    · refine ⟨rfl, fun e he => ?_⟩
      rcases List.mem_cons.mp he with rfl | he
      · dsimp only
        omega
      · exact hrest e he

omit [DecidableEq α] in
/-- Only an empty queue has nothing to pop. -/
theorem expand_of_pop_none (h : pop q = none) : expand q = [] := by
  cases q with
  | nil => rfl
  | cons e q => cases h

end RunLength
