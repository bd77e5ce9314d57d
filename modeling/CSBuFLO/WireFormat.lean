/-
# The fields of a message (`bufaux.c`, `bufbn.c`, `packet.c`)

Messages are made of bytes, integers, strings and large numbers, written one after the other by
the `buffer_put_*` functions and taken off the front by the `buffer_get_*` functions; the
`packet_put_*` and `packet_get_*` functions are these on the buffers of a packet.  A buffer is the
byte queue that `Buffer.lean` shows it to be.  `none` stands for the `fatal` of a reader.

Each kind of field is a `Serial.Format`, so that every layout can be read back:

* `getMessage_putFields`: what was written is what is read, and a message with bytes left over is
  refused by `packet_check_eom`;
* `getMessage_eq_some`: what is accepted can be written, in no more bytes, and without C strings
  and large numbers in no other bytes;
* `bignum2_shortest`: a large number is written in the shortest way that is accepted.
-/
import CSBuFLO.Channel
import CSBuFLO.Serial

namespace CSBuFLO

open Serial

/-! ## Integers -/

/-- `put_u16`, `put_u32` and `put_u64`: `w` bytes, most significant byte first. -/
def putUint : ℕ → ℕ → List UInt8
  | 0, _ => []
  | w + 1, n => UInt8.ofNat (n / 256 ^ w) :: putUint w n

/-- The number some bytes stand for, most significant byte first: `get_u16`, `get_u32`, `get_u64`
and `BN_bin2bn`. -/
def valueOf (bytes : List UInt8) : ℕ := bytes.foldl (fun v b => v * 256 + b.toNat) 0

@[simp] theorem length_putUint (w n : ℕ) : (putUint w n).length = w := by
  induction w with
  | zero => rfl
  | succ w ih => rw [putUint, List.length_cons, ih]

theorem foldl_putUint (w n v : ℕ) :
    (putUint w n).foldl (fun v b => v * 256 + b.toNat) v = v * 256 ^ w + n % 256 ^ w := by
  induction w generalizing v with
  | zero => simp [putUint, Nat.mod_one]
  | succ w ih =>
    have hmod : n % 256 ^ (w + 1) = n % 256 ^ w + 256 ^ w * (n / 256 ^ w % 256) := by
      rw [pow_succ, Nat.mod_mul]
    rw [putUint, List.foldl_cons, ih, UInt8.toNat_ofNat', hmod]
    ring

/-- Reading back what was written. -/
theorem valueOf_putUint (w n : ℕ) : valueOf (putUint w n) = n % 256 ^ w := by
  rw [valueOf, foldl_putUint, zero_mul, zero_add]

theorem foldl_valueOf (bytes : List UInt8) (v : ℕ) :
    bytes.foldl (fun v b => v * 256 + b.toNat) v = v * 256 ^ bytes.length + valueOf bytes := by
  induction bytes generalizing v with
  | nil => simp [valueOf]
  | cons b bytes ih =>
    rw [valueOf, List.foldl_cons, List.foldl_cons, ih, ih (0 * 256 + b.toNat), List.length_cons]
    ring

theorem valueOf_cons (b : UInt8) (bytes : List UInt8) :
    valueOf (b :: bytes) = b.toNat * 256 ^ bytes.length + valueOf bytes := by
  rw [valueOf, List.foldl_cons, foldl_valueOf, zero_mul, zero_add]

theorem valueOf_lt (bytes : List UInt8) : valueOf bytes < 256 ^ bytes.length := by
  induction bytes with
  | nil => decide
  | cons b bytes ih =>
    have hb : b.toNat < 256 := b.toNat_lt
    rw [valueOf_cons, List.length_cons, pow_succ]
    nlinarith

/-- Bytes are determined by their number and their value. -/
theorem putUint_valueOf (bytes : List UInt8) : putUint bytes.length (valueOf bytes) = bytes := by
  have hgen : ∀ (bytes : List UInt8) (v : ℕ),
      putUint bytes.length (v * 256 ^ bytes.length + valueOf bytes) = bytes := by
    intro bytes
    induction bytes with
    | nil => exact fun _ => rfl
    | cons b bytes ih =>
      intro v
      have hdiv : (v * 256 ^ (bytes.length + 1) + valueOf (b :: bytes)) / 256 ^ bytes.length =
          v * 256 + b.toNat := by
        rw [valueOf_cons, pow_succ, ← Nat.add_assoc,
          show v * (256 ^ bytes.length * 256) + b.toNat * 256 ^ bytes.length =
            (v * 256 + b.toNat) * 256 ^ bytes.length from by ring,
          Nat.add_comm, Nat.add_mul_div_right _ _ (by positivity),
          Nat.div_eq_of_lt (valueOf_lt bytes), Nat.zero_add]
      have hrest : v * 256 ^ (bytes.length + 1) + valueOf (b :: bytes) =
          (v * 256 + b.toNat) * 256 ^ bytes.length + valueOf bytes := by
        rw [valueOf_cons]
        ring
      rw [List.length_cons, putUint, hdiv, hrest, ih]
      congr 1
      refine UInt8.toNat_inj.mp ?_
      have hb : b.toNat < 256 := b.toNat_lt
      rw [UInt8.toNat_ofNat']
      omega
  have := hgen bytes 0
  rwa [zero_mul, zero_add] at this

/-- `put_u32` is one of them. -/
theorem putU32_eq (n : ℕ) : putU32 n = putUint 4 n := by
  simp only [putU32, putUint]
  norm_num

theorem getU32_eq (bytes rest : List UInt8) (h : bytes.length = 4) :
    getU32 (bytes ++ rest) = valueOf bytes := by
  obtain ⟨a, b, c, d, rfl⟩ : ∃ a b c d, bytes = [a, b, c, d] := by
    match bytes, h with
    | [a, b, c, d], _ => exact ⟨a, b, c, d, rfl⟩
  simp only [getU32, List.cons_append, List.nil_append, valueOf, List.foldl_cons, List.foldl_nil]
  ring

/-- `buffer_get_ret` for a fixed number of bytes. -/
def getRaw (n : ℕ) (bytes : List UInt8) : Option (List UInt8 × List UInt8) :=
  if bytes.length < n then none else some (bytes.take n, bytes.drop n)

variable {bytes rest : List UInt8}

theorem getRaw_append {n : ℕ} (h : bytes.length = n) (rest : List UInt8) :
    getRaw n (bytes ++ rest) = some (bytes, rest) := by
  rw [getRaw, if_neg (by rw [List.length_append]; omega), List.take_left' h, List.drop_left' h]

theorem getRaw_eq_some {n : ℕ} {x : List UInt8} (h : getRaw n bytes = some (x, rest)) :
    bytes = x ++ rest ∧ x.length = n := by
  unfold getRaw at h
  split at h
  · cases h
  · rename_i hlen
    obtain ⟨rfl, rfl⟩ := Prod.mk.inj (Option.some.inj h)
    exact ⟨(List.take_append_drop n bytes).symm, by rw [List.length_take]; omega⟩

/-- `buffer_get_int` and `buffer_get_int64`. -/
def getUint (w : ℕ) (bytes : List UInt8) : Option (ℕ × List UInt8) :=
  (getRaw w bytes).map fun r => (valueOf r.1, r.2)

/-- An integer of `w` bytes. -/
def uintFormat (w : ℕ) : Format UInt8 ℕ where
  put := putUint w
  get := getUint w
  Valid n := n < 256 ^ w
  get_put := by
    intro n hn rest
    rw [getUint, getRaw_append (length_putUint w n), Option.map_some, valueOf_putUint,
      Nat.mod_eq_of_lt hn]

theorem exact_uintFormat (w : ℕ) : (uintFormat w).Exact := by
  intro bs n rest h
  obtain ⟨⟨x, rest'⟩, hx, h⟩ := Option.map_eq_some_iff.mp h
  obtain ⟨rfl, rfl⟩ := Prod.mk.inj h
  obtain ⟨rfl, hlen⟩ := getRaw_eq_some hx
  refine ⟨?_, ?_⟩
  · show x ++ rest' = putUint w (valueOf x) ++ rest'
    rw [← hlen, putUint_valueOf]
  · show valueOf x < 256 ^ w
    rw [← hlen]
    exact valueOf_lt x

/-! ## Bytes and strings -/

/-- `buffer_get_char`. -/
def getChar : List UInt8 → Option (UInt8 × List UInt8)
  | [] => none
  | c :: rest => some (c, rest)

/-- A byte: `buffer_put_char`. -/
def charFormat : Format UInt8 UInt8 where
  put c := [c]
  get := getChar
  Valid _ := True
  get_put _ _ := rfl

theorem exact_charFormat : charFormat.Exact := by
  intro bs c rest h
  cases bs with
  | nil => cases h
  | cons b bs =>
    obtain ⟨rfl, rfl⟩ := Prod.mk.inj (Option.some.inj h)
    exact ⟨rfl, trivial⟩

theorem getString_putString (h : bytes.length ≤ 256 * 1024) (rest : List UInt8) :
    getString (putString bytes ++ rest) = some (bytes, rest) := by
  have hlen : getU32 (putString bytes ++ rest) = bytes.length := by
    rw [putString, List.append_assoc]
    exact getU32_putU32 _ (by omega) _
  have hdrop : (putString bytes ++ rest).drop 4 = bytes ++ rest := rfl
  unfold getString
  dsimp only
  rw [hlen, if_neg, ← List.drop_drop, hdrop, List.take_left' rfl, List.drop_left' rfl]
  rw [List.length_append, length_putString]
  omega

/-- A string behind its length: `buffer_put_string` and `buffer_get_string`. -/
def stringFormat : Format UInt8 (List UInt8) where
  put := putString
  get := getString
  Valid bytes := bytes.length ≤ 256 * 1024
  get_put h rest := getString_putString h rest

theorem exact_stringFormat : stringFormat.Exact := by
  intro bs x rest h
  have hlen := length_getString h
  unfold stringFormat getString at h
  dsimp only at h
  split at h
  · cases h
  rename_i hok
  obtain ⟨rfl, rfl⟩ := Prod.mk.inj (Option.some.inj h)
  have hfour : (bs.take 4).length = 4 := by
    rw [List.length_take]
    omega
  have hu32 : getU32 bs = valueOf (bs.take 4) := by
    have := getU32_eq (bs.take 4) (bs.drop 4) hfour
    rwa [List.take_append_drop] at this
  have hstr : ((bs.drop 4).take (getU32 bs)).length = getU32 bs := by
    rw [List.length_take, List.length_drop]
    omega
  refine ⟨?_, ?_⟩
  · have hput : putU32 (getU32 bs) = bs.take 4 := by
      have := putUint_valueOf (bs.take 4)
      rwa [hfour, ← putU32_eq, ← hu32] at this
    show bs = putString ((bs.drop 4).take (getU32 bs)) ++ bs.drop (4 + getU32 bs)
    rw [putString, hstr, hput, ← List.drop_drop, List.append_assoc, List.take_append_drop,
      List.take_append_drop]
  · show ((bs.drop 4).take (getU32 bs)).length ≤ 256 * 1024
    rw [hstr]
    omega

/-- `buffer_get_cstring`: a string that holds no NUL but one at its end, which is dropped. -/
def getCstring (bytes : List UInt8) : Option (List UInt8 × List UInt8) :=
  (getString bytes).bind fun r =>
    let s := r.1.takeWhile (· ≠ 0)
    if s.length = r.1.length ∨ s.length + 1 = r.1.length then some (s, r.2) else none

/-- A C string: `buffer_put_cstring`. -/
def cstringFormat : Format UInt8 (List UInt8) where
  put := putString
  get := getCstring
  Valid s := s.length ≤ 256 * 1024 ∧ 0 ∉ s
  get_put := by
    rintro s ⟨hlen, hnul⟩ rest
    have hall : s.takeWhile (· ≠ 0) = s := by
      refine List.takeWhile_eq_self_iff.mpr fun c hc => ?_
      exact decide_eq_true fun h0 => hnul (h0 ▸ hc)
    rw [getCstring, getString_putString hlen, Option.bind_some]
    dsimp only
    rw [hall, if_pos (Or.inl rfl)]

/-- A C string that was sent with its NUL is written without it. -/
theorem normal_cstringFormat : cstringFormat.Normal := by
  intro bs s rest h
  obtain ⟨⟨x, rest'⟩, hx, h⟩ := Option.bind_eq_some_iff.mp h
  dsimp only at h
  split at h
  · obtain ⟨rfl, rfl⟩ := Prod.mk.inj (Option.some.inj h)
    obtain ⟨rfl, hlen⟩ := exact_stringFormat hx
    have hle : (x.takeWhile (· ≠ 0)).length ≤ x.length :=
      (List.takeWhile_prefix _).length_le
    have hx : x.length ≤ 256 * 1024 := hlen
    refine ⟨⟨hle.trans hx, fun hnul => ?_⟩, ?_⟩
    · exact absurd (List.mem_takeWhile_imp hnul) (by decide)
    · show (putString _).length + rest'.length ≤ (putString x ++ rest').length
      rw [List.length_append, length_putString, length_putString]
      omega
  · cases h

/-! ## Large numbers -/

/-- `BN_num_bytes`. -/
def numBytes (n : ℕ) : ℕ := (n.size + 7) / 8

/-- `BN_bn2bin`. -/
def bn2bin (n : ℕ) : List UInt8 := putUint (numBytes n) n

theorem lt_numBytes (n : ℕ) : n < 256 ^ numBytes n := by
  have hsize : n < 2 ^ n.size := Nat.lt_size_self n
  refine lt_of_lt_of_le hsize ?_
  rw [show 256 = 2 ^ 8 from rfl, ← pow_mul]
  exact Nat.pow_le_pow_right (by decide) (by unfold numBytes; omega)

/-- The first byte of a number is not zero. -/
theorem le_of_numBytes {n w : ℕ} (h : n < 256 ^ w) : numBytes n ≤ w := by
  rw [show 256 = 2 ^ 8 from rfl, ← pow_mul] at h
  have := Nat.size_le.mpr h
  unfold numBytes
  omega

theorem valueOf_bn2bin (n : ℕ) : valueOf (bn2bin n) = n := by
  rw [bn2bin, valueOf_putUint, Nat.mod_eq_of_lt (lt_numBytes n)]

/-- `buffer_put_bignum2`: the bytes of the number behind a zero byte, which is left out when it is
not needed to keep the sign bit clear. -/
def putBignum2 (n : ℕ) : List UInt8 :=
  if n = 0 then putU32 0
  else
    let buf := 0 :: bn2bin n
    let hasnohigh := if buf.getD 1 0 &&& 0x80 ≠ 0 then 0 else 1
    putString (buf.drop hasnohigh)

/-- `buffer_get_bignum2`. -/
def getBignum2 (bytes : List UInt8) : Option (ℕ × List UInt8) :=
  (getString bytes).bind fun r =>
    if r.1.headD 0 &&& 0x80 ≠ 0 then none
    else if 8 * 1024 < r.1.length then none
    else some (valueOf r.1, r.2)

/-- The string `buffer_put_bignum2` stores. -/
def bignum2Bytes (n : ℕ) : List UInt8 :=
  if n = 0 then []
  else if (bn2bin n).headD 0 &&& 0x80 ≠ 0 then 0 :: bn2bin n else bn2bin n

theorem putBignum2_eq (n : ℕ) : putBignum2 n = putString (bignum2Bytes n) := by
  unfold putBignum2 bignum2Bytes
  split
  · rfl
  · dsimp only
    have hget : (0 :: bn2bin n).getD 1 0 = (bn2bin n).headD 0 := by
      cases bn2bin n <;> rfl
    rw [hget]
    split
    · rfl
    · rfl

theorem valueOf_bignum2Bytes (n : ℕ) : valueOf (bignum2Bytes n) = n := by
  unfold bignum2Bytes
  split
  · rename_i h
    exact h.symm
  split
  · rw [valueOf_cons, valueOf_bn2bin]
    simp
  · exact valueOf_bn2bin n

/-- The sign bit of what is stored is clear. -/
theorem headD_bignum2Bytes (n : ℕ) : ¬((bignum2Bytes n).headD 0 &&& 0x80 ≠ 0) := by
  unfold bignum2Bytes
  split
  · decide
  split
  · rw [List.headD_cons]
    decide
  · rename_i h
    exact h

/-- A large number. -/
def bignum2Format : Format UInt8 ℕ where
  put := putBignum2
  get := getBignum2
  Valid n := (bignum2Bytes n).length ≤ 8 * 1024
  get_put := by
    intro n hn rest
    rw [putBignum2_eq, getBignum2, getString_putString (by omega), Option.bind_some]
    dsimp only
    rw [if_neg (headD_bignum2Bytes n), if_neg (by omega), valueOf_bignum2Bytes]

/-- **Numbers are written in the shortest way.**  What `buffer_put_bignum2` stores for a number is
no longer than any string that `buffer_get_bignum2` reads as this number. -/
theorem bignum2_shortest {s : List UInt8} (hsign : s.headD 0 &&& 0x80 = 0) :
    (bignum2Bytes (valueOf s)).length ≤ s.length := by
  have hle : numBytes (valueOf s) ≤ s.length := le_of_numBytes (valueOf_lt s)
  unfold bignum2Bytes
  split
  · exact Nat.zero_le _
  split
  · rename_i hhigh
    rw [List.length_cons, bn2bin, length_putUint]
    -- with as many bytes as the number needs, the string would be the number itself
    refine Nat.lt_of_le_of_ne hle fun heq => hhigh ?_
    rw [bn2bin, heq, putUint_valueOf]
    exact hsign
  · rw [bn2bin, length_putUint]
    exact hle

/-- A number may be sent with zero bytes in front; it is written without them. -/
theorem normal_bignum2Format : bignum2Format.Normal := by
  intro bs n rest h
  obtain ⟨⟨x, rest'⟩, hx, h⟩ := Option.bind_eq_some_iff.mp h
  dsimp only at h
  split at h
  · cases h
  rename_i hsign
  split at h
  · cases h
  rename_i hsize
  obtain ⟨rfl, rfl⟩ := Prod.mk.inj (Option.some.inj h)
  obtain ⟨rfl, -⟩ := exact_stringFormat hx
  have hle := bignum2_shortest (not_not.mp hsign)
  refine ⟨hle.trans (Nat.le_of_not_lt hsize), ?_⟩
  show (putBignum2 _).length + rest'.length ≤ (putString x ++ rest').length
  rw [putBignum2_eq, List.length_append, length_putString, length_putString]
  omega

/-! ## Messages -/

/-- The kinds of fields. -/
inductive FieldKind where
  | char
  | int
  | int64
  | string
  | cstring
  | bignum2
  deriving DecidableEq, Repr

/-- A field of a message. -/
inductive Field where
  | char (c : UInt8)
  | int (n : ℕ)
  | int64 (n : ℕ)
  | string (bytes : List UInt8)
  | cstring (bytes : List UInt8)
  | bignum2 (n : ℕ)
  deriving DecidableEq, Repr

namespace Field

/-- The kind of a field. -/
def kind : Field → FieldKind
  | .char _ => .char
  | .int _ => .int
  | .int64 _ => .int64
  | .string _ => .string
  | .cstring _ => .cstring
  | .bignum2 _ => .bignum2

/-- `packet_put_char`, `packet_put_int`, `packet_put_int64`, `packet_put_string`,
`packet_put_cstring` and `packet_put_bignum2`. -/
def put : Field → List UInt8
  | .char c => charFormat.put c
  | .int n => (uintFormat 4).put n
  | .int64 n => (uintFormat 8).put n
  | .string bytes => stringFormat.put bytes
  | .cstring bytes => cstringFormat.put bytes
  | .bignum2 n => bignum2Format.put n

/-- A field that is read as it was written. -/
def Valid : Field → Prop
  | .char c => charFormat.Valid c
  | .int n => (uintFormat 4).Valid n
  | .int64 n => (uintFormat 8).Valid n
  | .string bytes => stringFormat.Valid bytes
  | .cstring bytes => cstringFormat.Valid bytes
  | .bignum2 n => bignum2Format.Valid n

end Field

namespace FieldKind

/-- `packet_get_char`, `packet_get_int`, `packet_get_int64`, `packet_get_string`,
`packet_get_cstring` and `packet_get_bignum2`. -/
def get : FieldKind → List UInt8 → Option (Field × List UInt8)
  | .char, bytes => (charFormat.get bytes).map fun r => (.char r.1, r.2)
  | .int, bytes => ((uintFormat 4).get bytes).map fun r => (.int r.1, r.2)
  | .int64, bytes => ((uintFormat 8).get bytes).map fun r => (.int64 r.1, r.2)
  | .string, bytes => (stringFormat.get bytes).map fun r => (.string r.1, r.2)
  | .cstring, bytes => (cstringFormat.get bytes).map fun r => (.cstring r.1, r.2)
  | .bignum2, bytes => (bignum2Format.get bytes).map fun r => (.bignum2 r.1, r.2)

/-- The kinds whose readers accept what is written and nothing else. -/
def strict : FieldKind → Bool
  | .cstring => false
  | .bignum2 => false
  | _ => true

end FieldKind

/-- A value written in a format and read under a constructor. -/
theorem Format.get_field {γ : Type} (F : Format UInt8 γ) (mk : γ → Field) {x : γ} (h : F.Valid x)
    (rest : List UInt8) :
    (F.get (F.put x ++ rest)).map (fun r => (mk r.1, r.2)) = some (mk x, rest) := by
  rw [F.get_put h rest, Option.map_some]

/-- A field is read as it was written. -/
theorem Field.get_put {f : Field} (h : f.Valid) (rest : List UInt8) :
    f.kind.get (f.put ++ rest) = some (f, rest) := by
  cases f with
  | char c => exact Format.get_field charFormat .char h rest
  | int n => exact Format.get_field (uintFormat 4) .int h rest
  | int64 n => exact Format.get_field (uintFormat 8) .int64 h rest
  | string bytes => exact Format.get_field stringFormat .string h rest
  | cstring bytes => exact Format.get_field cstringFormat .cstring h rest
  | bignum2 n => exact Format.get_field bignum2Format .bignum2 h rest

/-- What a format yields under a constructor. -/
theorem Format.Normal.field {γ : Type} {F : Format UInt8 γ} (hF : F.Normal) (mk : γ → Field)
    {f : Field} (h : (F.get bytes).map (fun r => (mk r.1, r.2)) = some (f, rest)) :
    ∃ x, f = mk x ∧ F.Valid x ∧ (F.put x).length + rest.length ≤ bytes.length ∧
      (F.Exact → bytes = F.put x ++ rest) := by
  obtain ⟨⟨x, rest'⟩, hx, h⟩ := Option.map_eq_some_iff.mp h
  obtain ⟨rfl, rfl⟩ := Prod.mk.inj h
  exact ⟨x, rfl, (hF hx).1, (hF hx).2, fun hexact => (hexact hx).1⟩

/-- **A field that was read** is of the kind that was asked for and can be written; a field of a
strict kind is only read from what is written for it. -/
theorem FieldKind.get_eq_some {k : FieldKind} {f : Field} (h : k.get bytes = some (f, rest)) :
    f.kind = k ∧ f.Valid ∧ f.put.length + rest.length ≤ bytes.length ∧
      (k.strict = true → bytes = f.put ++ rest) := by
  cases k with
  | char =>
    obtain ⟨x, rfl, hv, hle, hexact⟩ := Format.Normal.field exact_charFormat.normal .char h
    exact ⟨rfl, hv, hle, fun _ => hexact exact_charFormat⟩
  | int =>
    obtain ⟨x, rfl, hv, hle, hexact⟩ :=
      Format.Normal.field (Format.Exact.normal (exact_uintFormat 4)) .int h
    exact ⟨rfl, hv, hle, fun _ => hexact (exact_uintFormat 4)⟩
  | int64 =>
    obtain ⟨x, rfl, hv, hle, hexact⟩ :=
      Format.Normal.field (Format.Exact.normal (exact_uintFormat 8)) .int64 h
    exact ⟨rfl, hv, hle, fun _ => hexact (exact_uintFormat 8)⟩
  | string =>
    obtain ⟨x, rfl, hv, hle, hexact⟩ := Format.Normal.field exact_stringFormat.normal .string h
    exact ⟨rfl, hv, hle, fun _ => hexact exact_stringFormat⟩
  | cstring =>
    obtain ⟨x, rfl, hv, hle, -⟩ := Format.Normal.field normal_cstringFormat .cstring h
    exact ⟨rfl, hv, hle, fun hk => by cases hk⟩
  | bignum2 =>
    obtain ⟨x, rfl, hv, hle, -⟩ := Format.Normal.field normal_bignum2Format .bignum2 h
    exact ⟨rfl, hv, hle, fun hk => by cases hk⟩

/-- Write the fields of a message. -/
def putFields (fields : List Field) : List UInt8 := fields.flatMap Field.put

@[simp] theorem putFields_nil : putFields [] = [] := rfl

@[simp] theorem putFields_cons (f : Field) (fields : List Field) :
    putFields (f :: fields) = f.put ++ putFields fields := rfl

@[simp] theorem putFields_append (fields fields' : List Field) :
    putFields (fields ++ fields') = putFields fields ++ putFields fields' :=
  List.flatMap_append

/-- Read fields of the given kinds. -/
def getFields : List FieldKind → List UInt8 → Option (List Field × List UInt8)
  | [], bytes => some ([], bytes)
  | k :: ks, bytes =>
    (k.get bytes).bind fun r => (getFields ks r.2).map fun t => (r.1 :: t.1, t.2)

/-- Read a message: its fields, and then `packet_check_eom`, which closes the connection when
there are bytes left. -/
def getMessage (kinds : List FieldKind) (bytes : List UInt8) : Option (List Field) :=
  (getFields kinds bytes).bind fun r => if r.2 = [] then some r.1 else none

variable {fields : List Field}

theorem getFields_putFields (h : ∀ f ∈ fields, f.Valid) (rest : List UInt8) :
    getFields (fields.map Field.kind) (putFields fields ++ rest) = some (fields, rest) := by
  induction fields with
  | nil => rfl
  | cons f fields ih =>
    have hf := Field.get_put (h f List.mem_cons_self) (putFields fields ++ rest)
    rw [putFields_cons, List.append_assoc, List.map_cons, getFields, hf, Option.bind_some,
      ih fun x hx => h x (List.mem_cons_of_mem f hx), Option.map_some]

/-- A message is read as it was written, and refused when something follows it. -/
theorem getMessage_putFields (h : ∀ f ∈ fields, f.Valid) (rest : List UInt8) :
    getMessage (fields.map Field.kind) (putFields fields ++ rest) =
      if rest = [] then some fields else none := by
  rw [getMessage, getFields_putFields h, Option.bind_some]

theorem getFields_eq_some {kinds : List FieldKind}
    (h : getFields kinds bytes = some (fields, rest)) :
    fields.map Field.kind = kinds ∧ (∀ f ∈ fields, f.Valid) ∧
      (putFields fields).length + rest.length ≤ bytes.length ∧
      ((∀ k ∈ kinds, k.strict = true) → bytes = putFields fields ++ rest) := by
  induction kinds generalizing bytes fields with
  | nil =>
    obtain ⟨rfl, rfl⟩ := Prod.mk.inj (Option.some.inj h)
    exact ⟨rfl, fun f hf => absurd hf List.not_mem_nil, (Nat.zero_add _).le, fun _ => rfl⟩
  | cons k kinds ih =>
    obtain ⟨⟨f, mid⟩, hf, h⟩ := Option.bind_eq_some_iff.mp h
    obtain ⟨⟨fs, rest'⟩, hfs, h⟩ := Option.map_eq_some_iff.mp h
    obtain ⟨rfl, rfl⟩ := Prod.mk.inj h
    obtain ⟨rfl, hvalid, hle, hexact⟩ := FieldKind.get_eq_some hf
    obtain ⟨rfl, hall, hles, hexacts⟩ := ih hfs
    refine ⟨rfl, ?_, ?_, fun hstrict => ?_⟩
    · intro x hx
      rcases List.mem_cons.mp hx with rfl | hx
      · exact hvalid
      · exact hall x hx
    · rw [putFields_cons, List.length_append]
      dsimp only at hle hles ⊢
      omega
    · rw [putFields_cons, List.append_assoc,
        ← hexacts fun k' hk' => hstrict k' (List.mem_cons_of_mem _ hk')]
      exact hexact (hstrict _ List.mem_cons_self)

/-- A message that was accepted. -/
theorem getMessage_eq_some {kinds : List FieldKind} (h : getMessage kinds bytes = some fields) :
    fields.map Field.kind = kinds ∧ (∀ f ∈ fields, f.Valid) ∧
      (putFields fields).length ≤ bytes.length ∧
      ((∀ k ∈ kinds, k.strict = true) → bytes = putFields fields) := by
  obtain ⟨⟨fs, rest⟩, hfs, h⟩ := Option.bind_eq_some_iff.mp h
  dsimp only at h
  split at h
  · rename_i hrest
    subst hrest
    obtain rfl := Option.some.inj h
    obtain ⟨hkinds, hvalid, hle, hexact⟩ := getFields_eq_some hfs
    exact ⟨hkinds, hvalid, hle, fun hstrict => (hexact hstrict).trans (List.append_nil _)⟩
  · cases h

/-- **Messages.**  A message is read as it was written, and not with bytes left over.  What is
accepted is in no more bytes a message that is read in the same way; without C strings and large
numbers it is that message. -/
theorem message_format (kinds : List FieldKind) (fields : List Field) :
    (fields.map Field.kind = kinds → (∀ f ∈ fields, f.Valid) →
      ∀ rest, getMessage kinds (putFields fields ++ rest) =
        if rest = [] then some fields else none) ∧
    ∀ bytes, getMessage kinds bytes = some fields →
      getMessage kinds (putFields fields) = some fields ∧
        (putFields fields).length ≤ bytes.length ∧
        ((∀ k ∈ kinds, k.strict = true) → bytes = putFields fields) := by
  refine ⟨?_, fun bytes h => ?_⟩
  · rintro rfl hvalid rest
    exact getMessage_putFields hvalid rest
  · obtain ⟨rfl, hvalid, hle, hexact⟩ := getMessage_eq_some h
    have hback := getMessage_putFields hvalid []
    rw [List.append_nil, if_pos rfl] at hback
    exact ⟨hback, hle, hexact⟩

/-- A C string with its NUL and a number behind two zero bytes. -/
theorem message_format_padded :
    getMessage [.cstring, .bignum2] [0, 0, 0, 2, 65, 0, 0, 0, 0, 3, 0, 0, 7] =
        some [.cstring [65], .bignum2 7] ∧
      getMessage [.cstring, .bignum2] (putFields [.cstring [65], .bignum2 7]) =
        some [.cstring [65], .bignum2 7] ∧
      (putFields [.cstring [65], .bignum2 7]).length ≤ 13 := by
  have hread : getMessage [.cstring, .bignum2] [0, 0, 0, 2, 65, 0, 0, 0, 0, 3, 0, 0, 7] =
      some [.cstring [65], .bignum2 7] := by decide
  obtain ⟨hback, hle, -⟩ := (message_format _ _).2 _ hread
  exact ⟨hread, hback, hle⟩

end CSBuFLO
