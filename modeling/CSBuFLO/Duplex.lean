/-
# Two parties and a FIFO link in each direction

Both parties run the same machine.  A party acts on its own or receives the next message of its
peer; both can make it send messages.  Messages are never lost and arrive in the order they were
sent, so a party is described by its state, all the messages it has sent, and the number of its
peer's messages it has taken (`Party`).

`inv_step` is the invariant rule: it is enough to look at one party that moves (`Move`) and at
the two views of the pair afterwards.
-/
import CSBuFLO.Transition

namespace Duplex

/-- What both parties run. -/
structure Machine (σ ε μ : Type) where
  /-- A local event: the new state and the messages sent. -/
  act : σ → ε → Option (σ × List μ)
  /-- A message of the peer. -/
  receive : σ → μ → Option (σ × List μ)

/-- One party: its state, what it has sent, and how many messages of its peer it has taken. -/
structure Party (σ μ : Type) where
  state : σ
  sent : List μ := []
  taken : ℕ := 0

/-- An event on one side. -/
inductive Event (ε : Type) where
  | act (side : Bool) (e : ε)
  | deliver (side : Bool)

variable {σ ε μ : Type}

/-- The party that moves. -/
def Event.side : Event ε → Bool
  | .act b _ => b
  | .deliver b => b

/-- The local event, if it is not a delivery. -/
def Event.action : Event ε → Option ε
  | .act _ e => some e
  | .deliver _ => none

/-- The messages on their way from `q` to `p`. -/
def Party.incoming (p q : Party σ μ) : List μ := q.sent.drop p.taken

/-- A new state, and more messages sent. -/
def Party.after (p : Party σ μ) (r : σ × List μ) : Party σ μ :=
  { p with state := r.1, sent := p.sent ++ r.2 }

/-- A message taken. -/
def Party.take (p : Party σ μ) : Party σ μ := { p with taken := p.taken + 1 }

/-- One event. -/
def step (M : Machine σ ε μ) (s : Bool → Party σ μ) : Event ε → Option (Bool → Party σ μ)
  | .act b e => (M.act (s b).state e).map fun r => Function.update s b ((s b).after r)
  | .deliver b =>
    ((s !b).sent[(s b).taken]?).bind fun m =>
      (M.receive (s b).state m).map fun r => Function.update s b ((s b).after r).take

/-- A move of the party `p` with peer `q`, by a local event or by a delivery. -/
inductive Move (M : Machine σ ε μ) (p q : Party σ μ) : Option ε → Party σ μ → Prop where
  | act {e : ε} {r : σ × List μ} (h : M.act p.state e = some r) : Move M p q (some e) (p.after r)
  | receive {m : μ} {r : σ × List μ} (hm : q.sent[p.taken]? = some m)
      (h : M.receive p.state m = some r) : Move M p q none (p.after r).take

variable {M : Machine σ ε μ}

variable {s : Bool → Party σ μ}

theorem step_deliver {b : Bool} {m : μ} {r : σ × List μ} (hm : (s !b).sent[(s b).taken]? = some m)
    (hr : M.receive (s b).state m = some r) :
    step M s (.deliver b) = some (Function.update s b ((s b).after r).take) := by
  rw [step, hm, Option.bind_some, hr, Option.map_some]

theorem step_move {s' : Bool → Party σ μ} {ev : Event ε} (h : step M s ev = some s') :
    ∃ p', Move M (s ev.side) (s !ev.side) ev.action p' ∧ s' = Function.update s ev.side p' := by
  cases ev with
  | act b e =>
    obtain ⟨r, hr, rfl⟩ := Option.map_eq_some_iff.mp h
    exact ⟨_, .act hr, rfl⟩
  | deliver b =>
    obtain ⟨m, hm, h⟩ := Option.bind_eq_some_iff.mp h
    obtain ⟨r, hr, rfl⟩ := Option.map_eq_some_iff.mp h
    exact ⟨_, .receive hm hr, rfl⟩

/-- **Invariant rule, for an invariant that depends on the side.**  What the party that moves
keeps, for its own view of the pair and for its peer's, holds on both sides after the step. -/
theorem inv_step_side {I : Bool → Party σ μ → Party σ μ → Prop} {s' : Bool → Party σ μ}
    {ev : Event ε}
    (hmove : ∀ {p'}, I ev.side (s ev.side) (s !ev.side) → I (!ev.side) (s !ev.side) (s ev.side) →
      Move M (s ev.side) (s !ev.side) ev.action p' →
        I ev.side p' (s !ev.side) ∧ I (!ev.side) (s !ev.side) p') (h : step M s ev = some s')
    (hs : ∀ b, I b (s b) (s !b)) : ∀ b, I b (s' b) (s' !b) := by
  obtain ⟨p', hp', rfl⟩ := step_move h
  have hpeer := hs !ev.side
  rw [Bool.not_not] at hpeer
  obtain ⟨hown, hother⟩ := hmove (hs ev.side) hpeer hp'
  intro d
  by_cases hd : d = ev.side
  · subst hd
    rw [Function.update_self, Function.update_of_ne (Bool.not_ne_self _)]
    exact hown
  · obtain rfl : d = !ev.side := Bool.eq_not_of_ne hd
    rw [Bool.not_not, Function.update_self, Function.update_of_ne (Bool.not_ne_self _)]
    exact hother

/-- **Invariant rule.**  The same for an invariant that is the same on both sides. -/
theorem inv_step {I : Party σ μ → Party σ μ → Prop} {s' : Bool → Party σ μ} {ev : Event ε}
    (hmove : ∀ {p'}, I (s ev.side) (s !ev.side) → I (s !ev.side) (s ev.side) →
      Move M (s ev.side) (s !ev.side) ev.action p' → I p' (s !ev.side) ∧ I (s !ev.side) p')
    (h : step M s ev = some s') (hs : ∀ b, I (s b) (s !b)) : ∀ b, I (s' b) (s' !b) :=
  inv_step_side (I := fun _ => I) hmove h hs

/-! ## Messages on their way -/

/-- A message that is taken was the first in line. -/
theorem incoming_take {p q : Party σ μ} {m : μ} (h : q.sent[p.taken]? = some m) :
    p.incoming q = m :: p.take.incoming q := by
  obtain ⟨hlt, rfl⟩ := List.getElem?_eq_some_iff.mp h
  exact List.drop_eq_getElem_cons hlt

/-- Sending does not change what a party still has to take. -/
@[simp] theorem after_incoming (p q : Party σ μ) (r : σ × List μ) :
    (p.after r).incoming q = p.incoming q := rfl

/-- What a party sends goes to the end of the line. -/
theorem incoming_after {p q : Party σ μ} (r : σ × List μ) (h : q.taken ≤ p.sent.length) :
    q.incoming (p.after r) = q.incoming p ++ r.2 :=
  List.drop_append_of_le_length h

end Duplex
