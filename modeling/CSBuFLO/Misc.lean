/-
# Shared globals of the traffic shaper (`misc.c`, `misc.h`, `load_st.h`)

The client and the server process each hold one copy of the file-level statics of
`misc.c`.  This module collects those statics in the record `Globals` and gives
the setters that do more than assign.

Three modes drive everything else (`stmode` in the source):

* `normal` (`-1`): plain SSH, the output buffer is flushed 128 bytes at a time;
* `csbuflo` (`0`): constant-rate writes of `TARGET_QUEUE_LEN` bytes;
* `supertrace` (`1`): a recorded trace decides the size and time of every write.
-/
import Mathlib

namespace CSBuFLO

/-! ## Constants -/

/-- `TARGET_QUEUE_LEN` (misc.h): bytes granted to one csbuflo write. -/
def targetQueueLen : ℕ := 548

/-- `INITIAL_TAU` (misc.h), in microseconds. -/
def initialTau : ℤ := 8192

/-- `LOWER_TAU` (misc.h). -/
def lowerTau : ℤ := 4096

/-- `UPPER_TAU` (misc.h). -/
def upperTau : ℤ := 32768

/-- `INITIAL_BOUNDARY` (misc.h). -/
def initialBoundary : ℤ := 16384

/-- `ARRSIZE` (misc.h): the capacity of the two adaptation ring buffers. -/
def arrSize : ℕ := 1000

/-- `INT_MAX` of the platform. -/
def intMax : ℕ := 2147483647

/-! ## Machine integers -/

/-- Storing a `long` into an `int`: the low 32 bits, read as a signed number. -/
def toInt (x : ℤ) : ℤ := x.bmod (2 ^ 32)

/-- A number that fits an `int` is stored as it is. -/
theorem toInt_of_lt {x : ℤ} (h0 : 0 ≤ x) (h : x < 2 ^ 31) : toInt x = x := by
  unfold toInt
  rw [Int.bmod_eq_of_le] <;> norm_num at * <;> omega

/-- What is stored in an `int` fits one. -/
theorem toInt_lt (x : ℤ) : toInt x < 2 ^ 31 := by
  unfold toInt
  have h : x.bmod (2 ^ 32) < ((2 ^ 32 : ℕ) + 1) / 2 := Int.bmod_lt (by norm_num)
  norm_num at h ⊢
  omega

/-- `u_int` addition. -/
def addU32 (a b : ℕ) : ℕ := (a + b) % 2 ^ 32

/-- `u_int` subtraction. -/
def subU32 (a b : ℕ) : ℕ := (a + 2 ^ 32 - b % 2 ^ 32) % 2 ^ 32

/-- A difference that is not negative does not wrap. -/
theorem subU32_of_le {a b : ℕ} (ha : a < 2 ^ 32) (hb : b ≤ a) : subU32 a b = a - b := by
  unfold subU32
  omega

theorem addU32_of_lt {a b : ℕ} (h : a + b < 2 ^ 32) : addU32 a b = a + b := Nat.mod_eq_of_lt h

/-- Adding a signed delay to an `unsigned long long` clock value. -/
def addTime (now : ℕ) (delay : ℤ) : ℕ := ((now + delay) % 2 ^ 64).toNat

/-! ## Modes and trace items -/

/-- `stmode` (misc.c): `-1` is ssh, `0` csbuflo and `1` supertrace. -/
inductive StMode where
  | normal
  | csbuflo
  | supertrace
  deriving DecidableEq, Repr, Inhabited

/-- `STPAIR` (load_st.h): one entry of a recorded trace.  Server-to-client packets
have a positive size, client-to-server packets a negative one. -/
structure StPair where
  size : ℤ
  time : ℤ
  sprob : ℕ
  expected : ℕ
  deriving DecidableEq, Repr, Inhabited

/-! ## The statics of `misc.c` -/

/-- The file-level statics of `misc.c` that the shaping code reads.  `url` holds the
first `urllen` bytes of the array `url`; the cluster and trace tables, which are
loaded once and never change, are a separate argument of the functions that use
them. -/
structure Globals where
  stmode : StMode := .normal
  clusterId : ℤ := -1
  paddedJunk : ℤ := 0
  tsEnd : ℕ := 0
  tsStart : ℕ := 0
  tstartSet : Bool := false
  tendSet : Bool := false
  w2w : ℤ := 0
  onloadFlag : Bool := false
  unloadFlag : Bool := false
  paddingdoneFlag : Bool := false
  url : List UInt8 := []
  transcriptEnd : Bool := false
  sentTend : Bool := false
  firstClient : Bool := true
  secondClient : Bool := false
  firstSent : Bool := false
  stIndex : ℤ := -1
  curItem : Option StPair := none
  transPadded : Bool := false
  urlack : Bool := false
  firstExpected : ℕ := 0
  receivedSofar : ℕ := 0
  stIdleStart : ℕ := 0
  serverEnteringNormal : Bool := false
  transPaddedRemaining : ℤ := 0
  deriving DecidableEq

namespace Globals

/-- `get_urllen`. -/
def urllen (g : Globals) : ℕ := g.url.length

/-- `set_w2w`: a negative budget is stored as zero. -/
def setW2w (g : Globals) (val : ℤ) : Globals :=
  { g with w2w := if val < 0 then 0 else val }

theorem setW2w_nonneg (g : Globals) (val : ℤ) : 0 ≤ (g.setW2w val).w2w := by
  unfold setW2w
  dsimp only
  split <;> omega

/-- `decrease_trans_padded_remaining`: saturating subtraction. -/
def decreaseTransPaddedRemaining (g : Globals) (val : ℤ) : Globals :=
  { g with transPaddedRemaining :=
      if g.transPaddedRemaining ≥ val then g.transPaddedRemaining - val else 0 }

end Globals

end CSBuFLO
