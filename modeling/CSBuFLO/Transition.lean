/-
# Runs of a deterministic transition function

A system with states `S` and events `E` is a partial function `step : S → E → Option S`;
`none` means that the event cannot happen in that state (or that the process ends).

* `run` iterates `step` over a list of events;
* `inv_run` is the invariant rule for whole runs, and `sim_run` the rule for simulations;
* `Along P` says that every step of a run satisfies `P`, and `along_of_inv` is the rule
  that turns an invariant into a property of every step, under a guard `G` that the
  steps of the run are assumed to meet;
* `logStep` adds a log to the state.
-/
import Mathlib

namespace Transition

variable {S E : Type} {step : S → E → Option S}

/-- The state after a list of events. -/
def run (step : S → E → Option S) : S → List E → Option S
  | s, [] => some s
  | s, e :: es => (step s e).bind fun s' => run step s' es

@[simp] theorem run_nil (s : S) : run step s [] = some s := rfl

variable {es : List E} {s : S} {P : S → E → S → Prop}

theorem run_cons_eq_some {s'' : S} {e : E} :
    run step s (e :: es) = some s'' ↔ ∃ s', step s e = some s' ∧ run step s' es = some s'' := by
  rw [run, Option.bind_eq_some_iff]

/-- A run over two lists of events is a run over the first and then one over the second. -/
theorem run_append (s : S) (es fs : List E) :
    run step s (es ++ fs) = (run step s es).bind fun s' => run step s' fs := by
  induction es generalizing s with
  | nil => rfl
  | cons e es ih =>
    rw [List.cons_append, run, run, Option.bind_assoc]
    exact congrArg _ (funext fun s' => ih s')

/-- **Invariant rule.**  What every step preserves, every run preserves. -/
theorem inv_run {I : S → Prop} (hstep : ∀ s e s', I s → step s e = some s' → I s') {s' : S}
    (h : run step s es = some s') (hs : I s) : I s' := by
  induction es generalizing s with
  | nil => exact Option.some.inj h ▸ hs
  | cons e es ih =>
    obtain ⟨s1, h1, h⟩ := run_cons_eq_some.mp h
    exact ih h (hstep _ _ _ hs h1)

/-- **Invariant rule for a relation.**  What every step keeps, every sequence of steps
keeps. -/
theorem inv_reflTransGen {R : S → S → Prop} {I : S → Prop} (hstep : ∀ s s', I s → R s s' → I s')
    {s' : S} (h : Relation.ReflTransGen R s s') (hs : I s) : I s' := by
  induction h with
  | refl => exact hs
  | tail _ hlast ih => exact hstep _ _ ih hlast

/-- **Forward simulation.**  Where every step of one system is matched by some steps of another,
none included, every run is matched by a run. -/
theorem sim_run {S' E' : Type} {step' : S' → E' → Option S'} {R : S → S' → Prop}
    (hsim : ∀ {s e s1 t}, R s t → step s e = some s1 →
      ∃ es' t1, run step' t es' = some t1 ∧ R s1 t1) {s1 : S} {t : S'} (h : run step s es = some s1)
    (hs : R s t) : ∃ es' t1, run step' t es' = some t1 ∧ R s1 t1 := by
  induction es generalizing s t with
  | nil =>
    obtain rfl := Option.some.inj h
    exact ⟨[], t, rfl, hs⟩
  | cons e es ih =>
    obtain ⟨s2, h2, h⟩ := run_cons_eq_some.mp h
    obtain ⟨es2, t2, hrun2, ht2⟩ := hsim hs h2
    obtain ⟨es3, t3, hrun3, ht3⟩ := ih h ht2
    refine ⟨es2 ++ es3, t3, ?_, ht3⟩
    rw [run_append, hrun2, Option.bind_some, hrun3]

/-! ## Properties of every step -/

/-- Every step of the run over `es` satisfies `P`. -/
def Along (step : S → E → Option S) (P : S → E → S → Prop) : S → List E → Prop
  | _, [] => True
  | s, e :: es => ∀ s', step s e = some s' → P s e s' ∧ Along step P s' es

/-- A property of all the events of a run holds of every step. -/
theorem along_of_forall (h : ∀ e ∈ es, ∀ s s', P s e s') (s : S) : Along step P s es := by
  induction es generalizing s with
  | nil => trivial
  | cons e es ih =>
    exact fun s' _ => ⟨h e List.mem_cons_self s s',
      ih (fun e' he' => h e' (List.mem_cons_of_mem e he')) s'⟩

/-- Whether every step of a run satisfies a property that can be computed. -/
instance decidableAlong {P : S → E → S → Prop} [∀ s e s', Decidable (P s e s')] :
    (s : S) → (es : List E) → Decidable (Along step P s es)
  | _, [] => isTrue trivial
  | s, e :: es =>
    match h : step s e with
    | none => isTrue fun _ hs => absurd (h.symm.trans hs) (Option.some_ne_none _).symm
    | some s1 =>
      have := decidableAlong (P := P) s1 es
      decidable_of_iff (P s e s1 ∧ Along step P s1 es)
        ⟨fun hall _ hs => Option.some.inj (h.symm.trans hs) ▸ hall, fun hall => hall s1 h⟩

theorem Along.imp {Q : S → E → S → Prop} (hPQ : ∀ s e s', P s e s' → Q s e s')
    (h : Along step P s es) : Along step Q s es := by
  induction es generalizing s with
  | nil => trivial
  | cons e es ih => exact fun s' hs => ⟨hPQ s e s' (h s' hs).1, ih (h s' hs).2⟩

/-- The first part of a run. -/
theorem Along.take {fs : List E} (h : Along step P s (es ++ fs)) : Along step P s es := by
  induction es generalizing s with
  | nil => trivial
  | cons e es ih => exact fun s' hs => ⟨(h s' hs).1, ih (h s' hs).2⟩

/-- The rest of a run. -/
theorem Along.drop {fs : List E} {s' : S} (h : Along step P s (es ++ fs))
    (hrun : run step s es = some s') : Along step P s' fs := by
  induction es generalizing s with
  | nil =>
    obtain rfl := Option.some.inj hrun
    exact h
  | cons e es ih =>
    obtain ⟨s1, h1, hrun1⟩ := run_cons_eq_some.mp hrun
    exact ih (h s1 h1).2 hrun1

/-- The last step of a run. -/
theorem Along.last {e : E} {s' s'' : S} (h : Along step P s (es ++ [e]))
    (hrun : run step s es = some s') (hs : step s' e = some s'') : P s' e s'' :=
  (h.drop hrun s'' hs).1

/-- **Invariant rule with a guard.**  In a run whose steps all meet `G`, an invariant that
such steps preserve holds at the end. -/
theorem inv_run_of_along {G : S → E → S → Prop} {I : S → Prop}
    (hstep : ∀ s e s', I s → G s e s' → step s e = some s' → I s') {s' : S} (hG : Along step G s es)
    (h : run step s es = some s') (hs : I s) : I s' := by
  induction es generalizing s with
  | nil => exact Option.some.inj h ▸ hs
  | cons e es ih =>
    obtain ⟨s1, h1, h⟩ := run_cons_eq_some.mp h
    obtain ⟨hg, hG⟩ := hG s1 h1
    exact ih hG h (hstep _ _ _ hs hg h1)

/-- **From an invariant to every step.**  If steps that meet `G` preserve `I` and satisfy
`P` where `I` holds, then every step of a run that meets `G` satisfies `P`. -/
theorem along_of_inv {G : S → E → S → Prop} {I : S → Prop}
    (hstep : ∀ s e s', I s → G s e s' → step s e = some s' → I s' ∧ P s e s')
    (hG : Along step G s es) (hs : I s) : Along step P s es := by
  induction es generalizing s with
  | nil => trivial
  | cons e es ih =>
    intro s1 h1
    obtain ⟨hg, hG⟩ := hG s1 h1
    obtain ⟨hinv, hP⟩ := hstep _ _ _ hs hg h1
    exact ⟨hP, ih hG hinv⟩

/-! ## Runs that are computed -/

/-- What is said about a result that can be computed. -/
instance decidableExistsSome {α : Type} (o : Option α) (P : α → Prop) [DecidablePred P] :
    Decidable (∃ a, o = some a ∧ P a) :=
  match o with
  | none => isFalse (by simp)
  | some a => decidable_of_iff (P a) (by simp)

section Computed

variable {s : S} {es : List E} {e : E}

/-- A run to a state with a property, and what follows from that. -/
theorem exists_run_and {P Q : S → Prop} (h : ∃ s1, run step s es = some s1 ∧ P s1)
    (hQ : ∀ {s1}, run step s es = some s1 → P s1 → Q s1) :
    ∃ s1, run step s es = some s1 ∧ P s1 ∧ Q s1 := by
  obtain ⟨s1, h1, hP⟩ := h
  exact ⟨s1, h1, hP, hQ h1 hP⟩

/-- A run and one more step. -/
theorem exists_run_step {P : S → S → Prop}
    (h : ∃ s1, run step s es = some s1 ∧ ∃ s2, step s1 e = some s2 ∧ P s1 s2) :
    ∃ s1 s2, run step s es = some s1 ∧ step s1 e = some s2 ∧ P s1 s2 := by
  obtain ⟨s1, h1, s2, h2, hP⟩ := h
  exact ⟨s1, s2, h1, h2, hP⟩

/-- A run and one more step with a property, and what follows from that. -/
theorem exists_run_step_and {P Q : S → S → Prop}
    (h : ∃ s1, run step s es = some s1 ∧ ∃ s2, step s1 e = some s2 ∧ P s1 s2)
    (hQ : ∀ {s1 s2}, run step s es = some s1 → step s1 e = some s2 → P s1 s2 → Q s1 s2) :
    ∃ s1 s2, run step s es = some s1 ∧ step s1 e = some s2 ∧ P s1 s2 ∧ Q s1 s2 := by
  obtain ⟨s1, h1, s2, h2, hP⟩ := h
  exact ⟨s1, s2, h1, h2, hP, hQ h1 h2 hP⟩

end Computed

/-! ## Runs with a log -/

/-- A step that also updates a log of what has happened. -/
def logStep {L : Type} (step : S → E → Option S) (upd : S → E → S → L → L) (x : S × L) (e : E) :
    Option (S × L) :=
  (step x.1 e).map fun s' => (s', upd x.1 e s' x.2)

theorem logStep_eq_some {L : Type} {upd : S → E → S → L → L} {s' : S} {l l' : L} {e : E} :
    logStep step upd (s, l) e = some (s', l') ↔ step s e = some s' ∧ l' = upd s e s' l := by
  unfold logStep
  rw [Option.map_eq_some_iff]
  constructor
  · rintro ⟨s1, h1, heq⟩
    obtain ⟨rfl, rfl⟩ := Prod.mk.inj heq
    exact ⟨h1, rfl⟩
  · rintro ⟨h, rfl⟩
    exact ⟨s', h, rfl⟩

end Transition
