/-
# The SSH2 packet format (`packet.c`, `ssh2.h`)

How long a packet is on the wire, what the padding and notification packets
contain, and the interface `Codec` through which the rest of the development
sees `packet_send2_wrapped`.

The write routine of `packet.c` only depends on how many bytes a packet adds to the
output buffer, so it is written over an arbitrary `Codec`, of which
`Codec.length_send2` is the one law it needs.  `PacketRead.lean` builds the byte-exact
instance (padding, MAC and cipher).
-/
import CSBuFLO.Misc

namespace CSBuFLO

/-! ## Message numbers (`ssh2.h`) -/

/-- `SSH2_MSG_DISCONNECT`. -/
def msgDisconnect : UInt8 := 1

/-- `SSH2_MSG_IGNORE`. -/
def msgIgnore : UInt8 := 2

/-- `SSH2_MSG_NEWKEYS`. -/
def msgNewkeys : UInt8 := 21

/-- `SSH2_MSG_LOCAL_MIN`. -/
def msgLocalMin : UInt8 := 192

/-- The flags of `packet_send_notify`, named after the message each one starts. -/
inductive Notify where
  | onload
  | unload
  | paddingdone
  | url
  | sync
  | tend
  | normal
  | urlack
  deriving DecidableEq, Repr, Inhabited

/-- `SSH2_MSG_NOTIFY_*`. -/
def Notify.msg : Notify → UInt8
  | .onload => 200
  | .unload => 201
  | .paddingdone => 202
  | .url => 203
  | .sync => 204
  | .tend => 205
  | .normal => 206
  | .urlack => 207

/-- The notification a message number stands for. -/
def Notify.ofMsg (t : UInt8) : Option Notify :=
  if t = 200 then some .onload
  else if t = 201 then some .unload
  else if t = 202 then some .paddingdone
  else if t = 203 then some .url
  else if t = 204 then some .sync
  else if t = 205 then some .tend
  else if t = 206 then some .normal
  else if t = 207 then some .urlack
  else none

@[simp] theorem Notify.ofMsg_msg (n : Notify) : Notify.ofMsg n.msg = some n := by
  cases n <;> rfl

/-- Every notification has its own type byte. -/
theorem Notify.msg_of_ofMsg {t : UInt8} {n : Notify} (h : Notify.ofMsg t = some n) :
    t = n.msg := by
  unfold Notify.ofMsg at h
  split_ifs at h with h0 h1 h2 h3 h4 h5 h6 h7 <;> cases Option.some.inj h <;> assumption

/-! ## Integers in packets -/

/-- `put_u32`: most significant byte first. -/
def putU32 (n : ℕ) : List UInt8 :=
  [UInt8.ofNat (n / 2 ^ 24), UInt8.ofNat (n / 2 ^ 16), UInt8.ofNat (n / 2 ^ 8), UInt8.ofNat n]

/-- `get_u32` on the first four bytes. -/
def getU32 : List UInt8 → ℕ
  | a :: b :: c :: d :: _ => a.toNat * 2 ^ 24 + b.toNat * 2 ^ 16 + c.toNat * 2 ^ 8 + d.toNat
  | _ => 0

@[simp] theorem length_putU32 (n : ℕ) : (putU32 n).length = 4 := rfl

/-- Reading back what `put_u32` wrote. -/
theorem getU32_putU32 (n : ℕ) (h : n < 2 ^ 32) (rest : List UInt8) :
    getU32 (putU32 n ++ rest) = n := by
  simp only [putU32, List.cons_append, List.nil_append, getU32, UInt8.toNat_ofNat']
  omega

/-! ## Padding -/

/-- The padding length `packet_send2_wrapped` computes for a packet whose length field,
padding length field and payload take `len` bytes.  `padlen` and `extra_pad` are
`u_char`s, so a large extra padding wraps. -/
def padLength (blockSize extraPad len : ℕ) : ℕ :=
  let padlen := blockSize - len % blockSize
  let padlen := if padlen < 4 then padlen + blockSize else padlen
  if extraPad = 0 then padlen
  else
    let extra := ((extraPad + blockSize - 1) / blockSize * blockSize) % 256
    let pad := (extra - (len + padlen) % extra) % 256
    (padlen + pad) % 256

/-- The number of bytes a payload of `n` bytes (type byte included) takes in the output
buffer: length field, padding length field, payload, padding and MAC. -/
def wireLength (blockSize macLen extraPad n : ℕ) : ℕ :=
  5 + n + padLength blockSize extraPad (5 + n) + macLen

/-- Without extra padding, at least 4 and at most `blockSize + 3` bytes are added. -/
theorem padLength_bounds {b : ℕ} (hb : b = 8 ∨ b = 16) (len : ℕ) :
    4 ≤ padLength b 0 len ∧ padLength b 0 len ≤ b + 3 := by
  have hlt : len % b < b := Nat.mod_lt _ (by omega)
  simp only [padLength, if_true]
  split <;> omega

/-- Without extra padding, the padded length is a multiple of the block size. -/
theorem padLength_dvd {b : ℕ} (hb : b = 8 ∨ b = 16) (len : ℕ) :
    b ∣ len + padLength b 0 len := by
  simp only [padLength, if_true]
  rcases hb with rfl | rfl <;> split <;> omega

/-- Extra padding keeps the alignment, whatever amount is asked for. -/
theorem padLength_dvd_all {b : ℕ} (hb : b = 8 ∨ b = 16) (e len : ℕ) :
    b ∣ len + padLength b e len := by
  have hbase := padLength_dvd hb len
  by_cases he : e = 0
  · subst he; exact hbase
  have hb256 : b ∣ 256 := by rcases hb with rfl | rfl <;> decide
  have heq : padLength b e len =
      (padLength b 0 len + (((e + b - 1) / b * b) % 256 -
        (len + padLength b 0 len) % (((e + b - 1) / b * b) % 256)) % 256) % 256 := by
    simp [padLength, he]
  have hextra : b ∣ ((e + b - 1) / b * b) % 256 := (Nat.dvd_mod_iff hb256).mpr ⟨_, Nat.mul_comm _ _⟩
  have hmod := (Nat.dvd_mod_iff hextra).mpr hbase
  have hpad := (Nat.dvd_mod_iff hb256).mpr (Nat.dvd_sub hextra hmod)
  obtain ⟨q, hq⟩ := hpad
  obtain ⟨r, hr⟩ := hbase
  rw [heq, hq]
  rcases hb with rfl | rfl <;> omega

/-- The password replies ask for `packet_add_padding(64)`, the one extra padding the
source uses: it adds between 1 and 64 bytes and keeps the alignment. -/
theorem padLength_extra {b : ℕ} (hb : b = 8 ∨ b = 16) (len : ℕ) :
    4 ≤ padLength b 64 len ∧ padLength b 64 len ≤ 83 ∧ b ∣ len + padLength b 64 len := by
  obtain ⟨hlo, hhi⟩ := padLength_bounds hb len
  obtain ⟨k, hk⟩ := padLength_dvd hb len
  have heq : padLength b 64 len
      = (padLength b 0 len + (64 - (len + padLength b 0 len) % 64) % 256) % 256 := by
    rcases hb with rfl | rfl <;> simp [padLength]
  rw [heq]
  rcases hb with rfl | rfl <;> omega

/-! ## Payloads built by the shaper -/

/-- The payload of `packet_send_ignore`: type, length and that many random bytes. -/
def ignorePayload (random : List UInt8) : List UInt8 :=
  msgIgnore :: (putU32 random.length ++ random)

/-- The payload of `packet_send_notify` for the flags other than `'l'`. -/
def notifyPayload (n : Notify) (random : List UInt8) : List UInt8 :=
  n.msg :: (putU32 random.length ++ random)

/-- The payload of `packet_send_notify(urllen, 'l')`: the URL's length, the URL and
random bytes up to 300. -/
def urlPayload (url random : List UInt8) : List UInt8 :=
  Notify.url.msg :: (putU32 url.length ++ (url ++ random))

/-- How many random bytes `packet_send_notify(urllen, 'l')` appends. -/
def urlFill (url : List UInt8) : ℕ := 300 - url.length

@[simp] theorem length_ignorePayload (r : List UInt8) :
    (ignorePayload r).length = 5 + r.length := by
  simp [ignorePayload]; omega

@[simp] theorem length_notifyPayload (n : Notify) (r : List UInt8) :
    (notifyPayload n r).length = 5 + r.length := by
  simp [notifyPayload]; omega

/-! ## Packet encoders -/

/-- What the write path needs of `packet_send2_wrapped` and `arc4random`: a state that
yields random bytes, and an encoder that turns a payload into the bytes appended to
the output buffer (`none` when the code calls `fatal`).  The second argument of
`send2` is `extra_pad`, which `packet_send2_wrapped` clears after use; its callers
set it directly before sending. -/
structure Codec (σ β : Type) where
  blockSize : ℕ
  macLen : ℕ
  arc4random : σ → ℕ → List UInt8 × σ
  send2 : σ → ℕ → List UInt8 → Option (List β × σ)
  /-- The cipher table of `cipher.c` has block sizes 8 and 16 only. -/
  blockSize_eq : blockSize = 8 ∨ blockSize = 16
  length_arc4random : ∀ s n, (arc4random s n).1.length = n
  length_send2 : ∀ {s e p bs s'}, send2 s e p = some (bs, s') →
    bs.length = wireLength blockSize macLen e p.length

/-- `n` more packets can be sent from the state `s` without a call of `fatal`, whatever their
payloads are and however many random bytes are drawn before each of them. -/
def Codec.Room {σ β : Type} (c : Codec σ β) : ℕ → σ → Prop
  | 0, _ => True
  | n + 1, s => ∀ k extraPad payload,
      ∃ r, c.send2 (c.arc4random s k).2 extraPad payload = some r ∧ c.Room n r.2

/-- Room for `n` packets is room for fewer. -/
theorem Codec.Room.mono {σ β : Type} {c : Codec σ β} {n m : ℕ} {s : σ} (h : c.Room n s)
    (hle : m ≤ n) : c.Room m s := by
  induction m generalizing n s with
  | zero => trivial
  | succ m ih =>
    obtain ⟨n, rfl⟩ : ∃ j, n = j + 1 := ⟨n - 1, by omega⟩
    intro k extraPad payload
    obtain ⟨r, hr, hroom⟩ := h k extraPad payload
    exact ⟨r, hr, ih hroom (by omega)⟩

theorem blockSize_eight : 8 = 8 ∨ 8 = 16 := Or.inl rfl

theorem blockSize_sixteen : 16 = 8 ∨ 16 = 16 := Or.inr rfl

end CSBuFLO
