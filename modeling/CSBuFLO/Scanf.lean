/-
# Formatted input

`fscanf` on the bytes of a file: a format is a list of directives, which are matched one after
the other until one fails.  The values converted before that are the result, with the rest of
the input.  A number is read as `strtol` reads it, into a `long` of 64 bits; storing it in an
`int` is left to the caller.
-/
import Mathlib

namespace Scanf

/-- `isspace`. -/
def isSpace (b : UInt8) : Bool := b == 32 || (9 ≤ b && b ≤ 13)

/-- `isdigit`. -/
def isDigit (b : UInt8) : Bool := 48 ≤ b && b ≤ 57

/-- What a format is made of. -/
inductive Directive where
  /-- `%d`. -/
  | int
  /-- `%s`. -/
  | word
  /-- `%c`. -/
  | char
  /-- A byte that has to be there. -/
  | lit (b : UInt8)
  /-- White space, any amount of it. -/
  | space

/-- A converted value. -/
inductive Value where
  | int (v : ℤ)
  | word (w : List UInt8)
  | char (b : UInt8)
  deriving DecidableEq

/-- The number with the given decimal digits. -/
def digitsValue (ds : List UInt8) : ℤ := ds.foldl (fun v d => 10 * v + (d.toNat - 48 : ℤ)) 0

/-- `strtol`: a number that is too large for a `long` becomes the nearest one that is not. -/
def toLong (v : ℤ) : ℤ := max (-2 ^ 63) (min (2 ^ 63 - 1) v)

/-- An optional sign: whether it is a minus, and what follows. -/
def scanSign : List UInt8 → Bool × List UInt8
  | 45 :: rest => (true, rest)
  | 43 :: rest => (false, rest)
  | input => (false, input)

/-- Match one directive; `none` is a failure. -/
def Directive.scan : Directive → List UInt8 → Option (Option Value × List UInt8)
  | .int, input =>
    let s := scanSign (input.dropWhile isSpace)
    let ds := s.2.takeWhile isDigit
    if ds = [] then none
    else some (some (.int (toLong (if s.1 then -digitsValue ds else digitsValue ds))),
      s.2.dropWhile isDigit)
  | .word, input =>
    let rest := input.dropWhile isSpace
    let w := rest.takeWhile fun b => !isSpace b
    if w = [] then none else some (some (.word w), rest.dropWhile fun b => !isSpace b)
  | .char, b :: rest => some (some (.char b), rest)
  | .char, [] => none
  | .lit b, c :: rest => if c = b then some (none, rest) else none
  | .lit _, [] => none
  | .space, input => some (none, input.dropWhile isSpace)

/-- `fscanf`: the converted values and the rest of the input. -/
def scan : List Directive → List UInt8 → List Value × List UInt8
  | [], input => ([], input)
  | d :: ds, input =>
    match d.scan input with
    | none => ([], input)
    | some (v, rest) =>
      let r := scan ds rest
      (v.toList ++ r.1, r.2)

/-- `%s` reads no white space. -/
theorem isSpace_of_scan_word {ds : List Directive} {input w rest : List UInt8} {vs : List Value}
    (h : scan (.word :: ds) input = (.word w :: vs, rest)) {b : UInt8} (hb : b ∈ w) :
    isSpace b = false := by
  unfold scan Directive.scan at h
  dsimp only at h
  by_cases hw : (input.dropWhile isSpace).takeWhile (fun b => !isSpace b) = []
  · rw [if_pos hw] at h
    cases h
  · rw [if_neg hw] at h
    obtain ⟨hvalues, -⟩ := Prod.mk.inj h
    obtain ⟨hword, -⟩ := List.cons.inj hvalues
    obtain rfl := Value.word.inj hword
    have hkept := List.mem_takeWhile_imp hb
    exact (Bool.not_eq_true' _).mp hkept

end Scanf
