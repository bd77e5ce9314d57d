/-
# Queues and their implementations

A queue is a list: entries are appended at its end and taken from its front, and some may be taken
back at the end.  An operation that asks for more entries than there are fails and changes nothing.

* `Queue.step`, `Queue.run` : one operation, and a list of them with its replies;
* `Machine.run` : the same for an implementation, whose steps may stop with an error;
* `Machine.run_refines` : if every step of an implementation does what the queue does, then so does
  every run, and `Machine.run_error` : a run stops only as a step can stop.
-/
import Mathlib.Data.List.Basic

namespace Queue

variable {α : Type*}

/-- The operations.  `look` is any operation that leaves the entries as they are. -/
inductive Op (α : Type*) where
  | push (xs : List α)
  | pop (n : ℕ)
  | skip (n : ℕ)
  | skipEnd (n : ℕ)
  | clear
  | look

/-- One operation and its reply: the entries that are handed out, or `none` for a failure. -/
def step (q : List α) : Op α → List α × Option (List α)
  | .push xs => (q ++ xs, some [])
  | .pop n => if q.length < n then (q, none) else (q.drop n, some (q.take n))
  | .skip n => if q.length < n then (q, none) else (q.drop n, some [])
  | .skipEnd n => if q.length < n then (q, none) else (q.take (q.length - n), some [])
  | .clear => ([], some [])
  | .look => (q, some [])

/-- A list of operations. -/
def run (q : List α) : List (Op α) → List α × List (Option (List α))
  | [] => (q, [])
  | o :: os => ((run (step q o).1 os).1, (step q o).2 :: (run (step q o).1 os).2)

end Queue

namespace Machine

variable {α S E ε : Type*}

/-- The states and replies of an implementation. -/
def run (step : S → E → Except ε (S × Option (List α))) :
    S → List E → Except ε (S × List (Option (List α)))
  | s, [] => .ok (s, [])
  | s, e :: es =>
    match step s e with
    | .error x => .error x
    | .ok (s1, r) =>
      match run step s1 es with
      | .error x => .error x
      | .ok (s2, rs) => .ok (s2, r :: rs)

section Refinement

variable {step : S → E → Except ε (S × Option (List α))} {abs : S → List α} {op : E → Queue.Op α}
  {I : S → Prop}
  (hstep : ∀ s e s' r, I s → step s e = .ok (s', r) →
    I s' ∧ Queue.step (abs s) (op e) = (abs s', r))
include hstep

/-- **Refinement rule.**  An implementation whose steps do what the queue does, under an invariant,
does so in every run. -/
theorem run_refines {es : List E} {s s' : S} {rs : List (Option (List α))} (hs : I s)
    (h : run step s es = .ok (s', rs)) :
    I s' ∧ Queue.run (abs s) (es.map op) = (abs s', rs) := by
  induction es generalizing s rs with
  | nil =>
    cases h
    exact ⟨hs, rfl⟩
  | cons e es ih =>
    unfold run at h
    cases h1 : step s e with
    | error x =>
      rw [h1] at h
      cases h
    | ok x =>
      obtain ⟨s1, r⟩ := x
      obtain ⟨hI, hq⟩ := hstep s e s1 r hs h1
      rw [h1] at h
      dsimp only at h
      cases h2 : run step s1 es with
      | error x =>
        rw [h2] at h
        cases h
      | ok y =>
        rw [h2] at h
        cases h
        obtain ⟨hI', hrun⟩ := ih hI h2
        refine ⟨hI', ?_⟩
        rw [List.map_cons, Queue.run, hq, hrun]

/-- **How a run stops.**  What is known of the errors of every step is known of those of a run. -/
theorem run_error {P : ε → Prop} (herror : ∀ s e x, I s → step s e = .error x → P x)
    {es : List E} {s : S} {x : ε} (hs : I s) (h : run step s es = .error x) : P x := by
  induction es generalizing s with
  | nil => cases h
  | cons e es ih =>
    unfold run at h
    cases h1 : step s e with
    | error y =>
      rw [h1] at h
      cases h
      exact herror s e _ hs h1
    | ok y =>
      obtain ⟨s1, r⟩ := y
      rw [h1] at h
      dsimp only at h
      cases h2 : run step s1 es with
      | error z =>
        rw [h2] at h
        cases h
        exact ih (hstep s e s1 r hs h1).1 h2
      | ok z =>
        rw [h2] at h
        cases h

end Refinement

end Machine
