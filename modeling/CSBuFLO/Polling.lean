/-
# Pollers: decoders that are called again after every read

A poller looks at the input buffered so far.  It may have nothing to do yet (`more`), take a
part of the input and go on (`go`), or come to a decision (`stop`).  It is called after every
read until it has nothing to do.  A call also sees an environment that it should not look at,
such as the memory behind the buffer.

A position is `Stable` if the decision taken there would be the same with more input and in
any other environment.  `Poller.run_eq_settle` is the rule: if a poller only ever decides at
stable positions, then it does not matter how its input is cut into reads.
-/
import Mathlib

namespace Polling

/-- What one call does: the new state and the input left. -/
inductive Call (σ α ο : Type) where
  | more
  | go (s : σ) (rest : List α)
  | stop (o : ο) (rest : List α)

/-- The same call with more input behind. -/
def Call.append {σ α ο : Type} : Call σ α ο → List α → Call σ α ο
  | .more, _ => .more
  | .go s rest, t => .go s (rest ++ t)
  | .stop o rest, t => .stop o (rest ++ t)

/-- A decoder with state `σ` for input of `α`s, in environments `ε`, that decides for an `ο`. -/
structure Poller (ε σ α ο : Type) where
  call : ε → σ → List α → Call σ α ο
  /-- Going on takes input. -/
  go_lt : ∀ {e s b s' rest}, call e s b = .go s' rest → rest.length < b.length
  /-- Whether there is something to do does not depend on the environment. -/
  call_more : ∀ {e s b} (e'), call e s b = .more → call e' s b = .more

/-- Some input, and the environment of the calls after it. -/
structure Read (ε α : Type) where
  bytes : List α
  env : ε

/-- The input of some reads. -/
def input {ε α : Type} (reads : List (Read ε α)) : List α := (reads.map Read.bytes).flatten

theorem input_concat {ε α : Type} (reads : List (Read ε α)) (r : Read ε α) :
    input (reads ++ [r]) = input reads ++ r.bytes := by
  simp [input]

/-- A poller between two reads: it waits for input, or it has decided and the rest of its input is
left. -/
inductive Phase (σ α ο : Type) where
  | waiting (s : σ) (b : List α)
  | stopped (o : ο) (rest : List α)
  deriving DecidableEq

namespace Poller

variable {ε σ α ο : Type} (P : Poller ε σ α ο)

/-- Call the poller until it has nothing to do, at most `fuel` times. -/
def settleFuel (e : ε) : ℕ → σ → List α → Phase σ α ο
  | 0, s, b => .waiting s b
  | fuel + 1, s, b =>
    match P.call e s b with
    | .more => .waiting s b
    | .go s' rest => settleFuel e fuel s' rest
    | .stop o rest => .stopped o rest

/-- Call the poller until it has nothing to do. -/
def settle (e : ε) (s : σ) (b : List α) : Phase σ α ο := P.settleFuel e (b.length + 1) s b

/-- A read, and the calls after it. -/
def feed (x : Phase σ α ο) (r : Read ε α) : Phase σ α ο :=
  match x with
  | .waiting s b => P.settle r.env s (b ++ r.bytes)
  | .stopped o rest => .stopped o (rest ++ r.bytes)

/-- All reads, from the state `s` with nothing buffered. -/
def run (s : σ) (reads : List (Read ε α)) : Phase σ α ο := reads.foldl P.feed (.waiting s [])

/-- The decision at this position does not depend on later input or on the environment. -/
def Stable (s : σ) (b : List α) : Prop :=
  ∀ e e' t, P.call e s b ≠ .more → P.call e' s (b ++ t) = (P.call e s b).append t

/-- Where a poller can be when the input `l` has been read. -/
inductive At (s₀ : σ) : List α → σ → List α → Prop where
  | start : At s₀ [] s₀ []
  | read {l : List α} {s : σ} {b : List α} (t : List α) :
      At s₀ l s b → At s₀ (l ++ t) s (b ++ t)
  | go {l : List α} {s s' : σ} {b rest : List α} {e : ε} :
      At s₀ l s b → P.call e s b = .go s' rest → At s₀ l s' rest

/-! ## Calls until there is nothing to do -/

variable {P}

variable {b : List α}

theorem settleFuel_eq {e : ε} {fuel : ℕ} {s : σ} (h : b.length < fuel) :
    P.settleFuel e fuel s b = P.settle e s b := by
  induction hn : b.length using Nat.strong_induction_on generalizing fuel s b with
  | _ n ih =>
    subst hn
    obtain ⟨fuel, rfl⟩ : ∃ k, fuel = k + 1 := ⟨fuel - 1, by omega⟩
    unfold settle settleFuel
    cases hcall : P.call e s b with
    | more => rfl
    | stop o rest => rfl
    | go s' rest =>
      have hlt := P.go_lt hcall
      exact (ih rest.length hlt (by omega) rfl).trans (ih rest.length hlt hlt rfl).symm

theorem settle_more {e : ε} {s : σ} (h : P.call e s b = .more) : P.settle e s b = .waiting s b := by
  unfold settle settleFuel
  rw [h]

theorem settle_go {e : ε} {s s' : σ} {rest : List α} (h : P.call e s b = .go s' rest) :
    P.settle e s b = P.settle e s' rest := by
  rw [settle, settleFuel, h]
  exact settleFuel_eq (P.go_lt h)

theorem settle_stop {e : ε} {s : σ} {rest : List α} {o : ο} (h : P.call e s b = .stop o rest) :
    P.settle e s b = .stopped o rest := by
  unfold settle settleFuel
  rw [h]

/-- A poller that waits has nothing to do, in any environment. -/
theorem settle_of_waiting {e e' : ε} {s s' : σ} {b' : List α}
    (h : P.settle e s b = .waiting s' b') : P.settle e' s' b' = .waiting s' b' := by
  induction hn : b.length using Nat.strong_induction_on generalizing s b with
  | _ n ih =>
    subst hn
    cases hcall : P.call e s b with
    | more =>
      rw [settle_more hcall] at h
      obtain ⟨rfl, rfl⟩ := Phase.waiting.inj h
      exact settle_more (P.call_more e' hcall)
    | stop o rest =>
      rw [settle_stop hcall] at h
      cases h
    | go s1 rest =>
      rw [settle_go hcall] at h
      exact ih rest.length (P.go_lt hcall) h rfl

/-- Input that arrives later is treated as if it had been there from the start. -/
theorem settle_append {s₀ : σ} {l : List α} (hl : ∀ s b, P.At s₀ l s b → P.Stable s b) {s : σ}
    (h : P.At s₀ l s b) (e : ε) (r : Read ε α) :
    P.feed (P.settle e s b) r = P.settle r.env s (b ++ r.bytes) := by
  induction hn : b.length using Nat.strong_induction_on generalizing s b with
  | _ n ih =>
    subst hn
    have hstable := hl s b h e r.env r.bytes
    cases hcall : P.call e s b with
    | more =>
      rw [settle_more hcall]
      rfl
    | stop o rest =>
      rw [hcall] at hstable
      rw [settle_stop hcall, settle_stop (hstable (by simp))]
      rfl
    | go s' rest =>
      rw [hcall] at hstable
      rw [settle_go hcall, settle_go (hstable (by simp))]
      exact ih rest.length (P.go_lt hcall) (h.go hcall) rfl

/-- At stable positions the environment does not matter. -/
theorem settle_env {s₀ : σ} {l : List α} (hl : ∀ s b, P.At s₀ l s b → P.Stable s b) {s : σ}
    (h : P.At s₀ l s b) (e e' : ε) : P.settle e s b = P.settle e' s b := by
  have happend := settle_append hl h e ⟨[], e'⟩
  rw [List.append_nil] at happend
  rw [← happend]
  cases hsettle : P.settle e s b with
  | waiting s' b' =>
    unfold feed
    dsimp only
    rw [List.append_nil, settle_of_waiting hsettle]
  | stopped o rest =>
    unfold feed
    dsimp only
    rw [List.append_nil]

/-- A poller that has decided only lets its input pile up. -/
theorem foldl_feed_stopped (o : ο) (rest : List α) (reads : List (Read ε α)) :
    reads.foldl P.feed (.stopped o rest) = .stopped o (rest ++ input reads) := by
  induction reads generalizing rest with
  | nil => simp [input]
  | cons r reads ih =>
    rw [List.foldl_cons, feed, ih]
    simp [input]

/-! ## The rule -/

theorem at_start (s₀ : σ) (l : List α) : P.At s₀ l s₀ l := by
  simpa using At.start.read l

/-- One read after others that ended at stable positions. -/
theorem run_concat_eq_settle {s₀ : σ} (reads : List (Read ε α)) (r : Read ε α)
    (hreads : ∀ pre, pre <+: reads → ∀ s b, P.At s₀ (input pre) s b → P.Stable s b) :
    P.run s₀ (reads ++ [r]) = P.settle r.env s₀ (input (reads ++ [r])) := by
  induction reads using List.reverseRecOn generalizing r with
  | nil => simp [run, feed, input]
  | append_singleton reads r' ih =>
    have hbefore := ih r' fun pre hpre => hreads pre (hpre.trans (List.prefix_append _ _))
    have hlast := hreads _ List.prefix_rfl
    rw [run, List.foldl_append, ← run, hbefore, List.foldl_cons, List.foldl_nil,
      settle_append hlast (at_start s₀ _), ← input_concat]

/-- **The cut does not matter.**  If every read ends at a stable position, the result is that of
a single read. -/
theorem run_eq_settle {s₀ : σ} (hstart : ∀ e, P.call e s₀ [] = .more) (reads : List (Read ε α))
    (hreads : ∀ pre, pre <+: reads → ∀ s b, P.At s₀ (input pre) s b → P.Stable s b) (e : ε) :
    P.run s₀ reads = P.settle e s₀ (input reads) := by
  cases reads using List.reverseRecOn with
  | nil => exact (settle_more (hstart e)).symm
  | append_singleton reads r =>
    rw [run_concat_eq_settle reads r fun pre hpre =>
      hreads pre (hpre.trans (List.prefix_append _ _))]
    exact settle_env (hreads _ List.prefix_rfl) (at_start s₀ _) _ _

end Poller

end Polling
