/-
# Decoders fed with pieces of a stream

A decoder gets a stream in pieces of any length.  After each piece it is polled until
it asks for more input, and every poll before that yields one message.  A decoder may
also give up (`none`).

`Decoder.Owes` packages what has to be shown so that the way the stream is cut does not
matter: a relation between the decoder's state, the messages it still owes and the part
of the stream it has not seen.  `Decoder.Owes.receive` is the rule: if feeding and polling
keep the relation, then all the messages come out, in order and once each, for every cut.

`Decoder.Due` is about the messages before a certain place of the stream, which a piece may
go beyond: once a decoder has got the stream up to that place and asks for more input, none
of them is left (`Decoder.Due.eq_nil`).
-/
import Mathlib

namespace CutStream

/-- A decoder with state `δ`, for a stream of `β`s that carries messages `π`. -/
structure Decoder (δ β π : Type) where
  /-- Take a piece of the stream. -/
  feed : δ → List β → Option δ
  /-- Yield a message, or `none` when more input is needed. -/
  poll : δ → Option (Option π × δ)

namespace Decoder

variable {δ β π : Type} (D : Decoder δ β π)

/-- Poll until more input is needed, at most `fuel` times. -/
def drain : ℕ → δ → Option (List π × δ)
  | 0, d => some ([], d)
  | fuel + 1, d =>
    match D.poll d with
    | none => none
    | some (none, d') => some ([], d')
    | some (some x, d') => (drain fuel d').map fun r => (x :: r.1, r.2)

/-- Feed the pieces one after the other, draining the decoder after each of them. -/
def receive (fuel : ℕ) : δ → List (List β) → Option (List π × δ)
  | d, [] => some ([], d)
  | d, piece :: rest =>
    (D.feed d piece).bind fun d1 =>
      (D.drain fuel d1).bind fun r =>
        (receive fuel r.2 rest).map fun t => (r.1 ++ t.1, t.2)

/-- A relation that says what a decoder owes: in state `d`, with `rest` of the stream
still to come, exactly the messages `ms` are to be yielded.  When nothing is to come and
no poll yields a message, nothing is owed. -/
structure Owes (R : δ → List π → List β → Prop) : Prop where
  feed : ∀ {d ms piece rest}, R d ms (piece ++ rest) → ∃ d', D.feed d piece = some d' ∧ R d' ms rest
  poll : ∀ {d ms rest}, R d ms rest →
    (∃ d', D.poll d = some (none, d') ∧ R d' ms rest ∧ (rest = [] → ms = [])) ∨
    (∃ m ms' d', ms = m :: ms' ∧ D.poll d = some (some m, d') ∧ R d' ms' rest)

variable {D} {R : δ → List π → List β → Prop}

/-- Draining yields some of the messages owed, and all of them when the whole stream has
been seen. -/
theorem Owes.drain (hR : D.Owes R) {fuel : ℕ} {d : δ} {ms : List π} {rest : List β}
    (h : R d ms rest) (hfuel : ms.length < fuel) :
    ∃ got ms' d', ms = got ++ ms' ∧ D.drain fuel d = some (got, d') ∧ R d' ms' rest ∧
      (rest = [] → ms' = []) := by
  induction fuel generalizing d ms with
  | zero => omega
  | succ fuel ih =>
    obtain ⟨d', hpoll, hd', hdone⟩ | ⟨m, ms', d', rfl, hpoll, hd'⟩ := hR.poll h
    · exact ⟨[], ms, d', rfl, by rw [Decoder.drain, hpoll], hd', hdone⟩
    · obtain ⟨got, ms'', d'', rfl, hdrain, hd'', hdone⟩ :=
        ih hd' (by simp only [List.length_cons] at hfuel; omega)
      exact ⟨m :: got, ms'', d'', rfl, by rw [Decoder.drain, hpoll]; simp [hdrain], hd'', hdone⟩

/-- **The cut does not matter.**  Whatever pieces a stream arrives in, the messages owed
come out in order and once each: a part of them while `rest` of the stream is still to
come, all of them at its end.  The fuel only has to exceed their number. -/
theorem Owes.receive (hR : D.Owes R) {fuel : ℕ} (pieces : List (List β)) {d : δ}
    {ms : List π} {rest : List β} (h : R d ms (pieces.flatten ++ rest)) (hne : pieces ≠ [])
    (hfuel : ms.length < fuel) :
    ∃ got ms' d', ms = got ++ ms' ∧ D.receive fuel d pieces = some (got, d') ∧ R d' ms' rest ∧
      (rest = [] → ms' = []) := by
  induction pieces generalizing d ms with
  | nil => exact absurd rfl hne
  | cons piece pieces ih =>
    rw [List.flatten_cons, List.append_assoc] at h
    obtain ⟨d1, hfeed, h1⟩ := hR.feed h
    obtain ⟨got, ms', d2, rfl, hdrain, h2, hdone⟩ := hR.drain h1 hfuel
    rw [Decoder.receive, hfeed, Option.bind_some, hdrain, Option.bind_some]
    -- after the last piece, `drain` has the last word
    by_cases hlast : pieces = []
    · subst hlast
      exact ⟨got, ms', d2, rfl, by simp [Decoder.receive], h2, hdone⟩
    · obtain ⟨got', ms'', d3, rfl, hrec, h3, hdone'⟩ :=
        ih h2 hlast (by rw [List.length_append] at hfuel; omega)
      exact ⟨got ++ got', ms'', d3, (List.append_assoc ..).symm, by simp [hrec], h3, hdone'⟩

/-! ## Messages before a place of the stream -/

/-- A decoder that input does not disturb: a piece can be cut, and a message that can be
yielded comes out the same when more input is there. -/
structure Steady (D : Decoder δ β π) : Prop where
  feed_append : ∀ {d d1 a b}, D.feed d a = some d1 → D.feed d (a ++ b) = D.feed d1 b
  poll_feed : ∀ {d d' d1 m extra}, D.poll d = some (some m, d') → D.feed d extra = some d1 →
    ∃ d1', D.poll d1 = some (some m, d1') ∧ D.feed d' extra = some d1'

/-- The messages `ms` come before the last part `late` of the stream.  Either `late` is still to
come, behind what `ms` are made of, or the decoder has got a part of it. -/
inductive Due (D : Decoder δ β π) (R : δ → List π → List β → Prop) (ms : List π) (late : List β) :
    δ → List β → Prop where
  | coming {d : δ} {rest : List β} (h : R d ms rest) : Due D R ms late d (rest ++ late)
  | reached {d d1 : δ} {extra rest : List β} (h : R d ms []) (hfeed : D.feed d extra = some d1)
      (hlate : extra ++ rest = late) : Due D R ms late d1 rest

namespace Due

variable {ms : List π} {late : List β} {d d' : δ} {rest : List β}

/-- The stream may go on. -/
theorem append (h : D.Due R ms late d rest) (more : List β) :
    D.Due R ms (late ++ more) d (rest ++ more) := by
  cases h with
  | coming h =>
    rw [List.append_assoc]
    exact .coming h
  | reached h hfeed hlate => exact .reached h hfeed (by rw [← List.append_assoc, hlate])

/-- A piece may end before the place or go beyond it. -/
theorem feed (hD : D.Steady) (hR : D.Owes R) {piece : List β}
    (h : D.Due R ms late d (piece ++ rest))
    (hfeed : D.feed d piece = some d') : D.Due R ms late d' rest := by
  generalize hwhole : piece ++ rest = whole at h
  cases h with
  | @coming _ rest0 h =>
    rcases List.append_eq_append_iff.mp hwhole with ⟨b, rfl, rfl⟩ | ⟨extra, rfl, rfl⟩
    · obtain ⟨d1, h1, hd1⟩ := hR.feed h
      obtain rfl := Option.some.inj (h1.symm.trans hfeed)
      exact .coming hd1
    · rw [← List.append_nil rest0] at h
      obtain ⟨d1, h1, hd1⟩ := hR.feed h
      rw [hD.feed_append h1] at hfeed
      exact .reached hd1 hfeed rfl
  | @reached d0 _ extra _ h hfeed0 hlate =>
    refine .reached h ((hD.feed_append hfeed0).trans hfeed) ?_
    rw [← hlate, ← hwhole, List.append_assoc]

/-- The next message that is yielded is the first of those that are due. -/
theorem poll (hD : D.Steady) (hR : D.Owes R) {found : Option π} (h : D.Due R ms late d rest)
    (hpoll : D.poll d = some (found, d')) (hne : ms ≠ []) :
    (found = none ∧ D.Due R ms late d' rest) ∨
      ∃ m ms', found = some m ∧ ms = m :: ms' ∧ D.Due R ms' late d' rest := by
  cases h with
  | coming h =>
    obtain ⟨d1, h1, hd1, -⟩ | ⟨m, ms', d1, rfl, h1, hd1⟩ := hR.poll h
    · obtain ⟨rfl, rfl⟩ := Prod.mk.inj (Option.some.inj (h1.symm.trans hpoll))
      exact Or.inl ⟨rfl, .coming hd1⟩
    · obtain ⟨rfl, rfl⟩ := Prod.mk.inj (Option.some.inj (h1.symm.trans hpoll))
      exact Or.inr ⟨m, ms', rfl, rfl, .coming hd1⟩
  | reached h hfeed hlate =>
    obtain ⟨-, -, -, hdone⟩ | ⟨m, ms', d1, rfl, h1, hd1⟩ := hR.poll h
    · exact absurd (hdone rfl) hne
    · obtain ⟨d2, h2, hfeed2⟩ := hD.poll_feed h1 hfeed
      obtain ⟨rfl, rfl⟩ := Prod.mk.inj (Option.some.inj (h2.symm.trans hpoll))
      exact Or.inr ⟨m, ms', rfl, rfl, .reached hd1 hfeed2 hlate⟩

/-- A decoder that owes a message does not give up. -/
theorem poll_isSome (hD : D.Steady) (hR : D.Owes R) (h : D.Due R ms late d rest) (hne : ms ≠ []) :
    ∃ r, D.poll d = some r := by
  cases h with
  | coming h =>
    obtain ⟨d1, h1, -⟩ | ⟨m, ms', d1, -, h1, -⟩ := hR.poll h
    · exact ⟨_, h1⟩
    · exact ⟨_, h1⟩
  | reached h hfeed hlate =>
    obtain ⟨-, -, -, hdone⟩ | ⟨m, ms', d1, -, h1, -⟩ := hR.poll h
    · exact absurd (hdone rfl) hne
    · obtain ⟨d2, h2, -⟩ := hD.poll_feed h1 hfeed
      exact ⟨_, h2⟩

/-- **A decoder that has got everything up to the place and asks for more input has yielded all
the messages before it.** -/
theorem eq_nil (hD : D.Steady) (hR : D.Owes R) (h : D.Due R ms late d rest)
    (hpoll : D.poll d = some (none, d')) (hlate : rest.length ≤ late.length) : ms = [] := by
  cases h with
  | @coming _ rest0 h =>
    obtain rfl : rest0 = [] := by
      rw [List.length_append] at hlate
      exact List.eq_nil_of_length_eq_zero (by omega)
    obtain ⟨-, -, -, hdone⟩ | ⟨m, ms', d1, rfl, h1, -⟩ := hR.poll h
    · exact hdone rfl
    · cases h1.symm.trans hpoll
  | reached h hfeed _ =>
    obtain ⟨-, -, -, hdone⟩ | ⟨m, ms', d1, rfl, h1, -⟩ := hR.poll h
    · exact hdone rfl
    · obtain ⟨d2, h2, -⟩ := hD.poll_feed h1 hfeed
      cases h2.symm.trans hpoll

end Due

end Decoder

end CutStream
