/-
# Counter mode (`cipher-ctr.c`, `cipher.c`)

`ssh_aes_ctr` encrypts a counter block for every 16 bytes and XORs the result into the text.  A
call starts with a fresh block, and nothing of a block is kept for the next call; `cipher_crypt`
therefore takes whole blocks only.  The key state can be moved to another process in between: the
counter is read by `cipher_get_keyiv` and put into a new context by `cipher_set_keyiv`.

`ctr_keystream` says what a context does over a whole connection: all calls together XOR one
keystream into all texts together, wherever the texts are cut and the state is moved, so that
the other end, with other cuts, gets the text back; and no counter block is used twice.

`AES_encrypt` is a parameter.
-/
import CSBuFLO.BlockCipher
import CSBuFLO.Transition

namespace CSBuFLO

/-! ## The counter -/

/-- `AES_BLOCK_SIZE`. -/
def aesBlockSize : ℕ := 16

/-- The loop of `ssh_ctr_inc`, from byte `i - 1` down. -/
def sshCtrIncFrom (ctr : List UInt8) : ℕ → List UInt8
  | 0 => ctr
  | i + 1 =>
    let ctr := ctr.set i (ctr.getD i 0 + 1)
    -- continue on overflow
    if ctr.getD i 0 ≠ 0 then ctr else sshCtrIncFrom ctr i

/-- `ssh_ctr_inc`. -/
def sshCtrInc (ctr : List UInt8) : List UInt8 := sshCtrIncFrom ctr ctr.length

/-- The number that a counter stands for, in network byte order. -/
def counterValue (ctr : List UInt8) : ℕ := Nat.ofDigits 256 (ctr.reverse.map UInt8.toNat)

theorem counterValue_append (a b : List UInt8) :
    counterValue (a ++ b) = counterValue b + 256 ^ b.length * counterValue a := by
  unfold counterValue
  rw [List.reverse_append, List.map_append, Nat.ofDigits_append, List.length_map,
    List.length_reverse]

theorem counterValue_singleton (b : UInt8) : counterValue [b] = b.toNat := by
  simp [counterValue]

/-- The bytes of a counter are digits. -/
theorem counter_digit_lt {ctr : List UInt8} {d : ℕ} (hd : d ∈ ctr.reverse.map UInt8.toNat) :
    d < 256 := by
  obtain ⟨b, -, rfl⟩ := List.mem_map.mp hd
  exact b.toNat_lt

theorem counterValue_lt (ctr : List UInt8) : counterValue ctr < 256 ^ ctr.length := by
  unfold counterValue
  have hlt := Nat.ofDigits_lt_base_pow_length (b := 256) (by norm_num)
    fun d (hd : d ∈ ctr.reverse.map UInt8.toNat) => counter_digit_lt hd
  rwa [List.length_map, List.length_reverse] at hlt

theorem counterValue_zeros (n : ℕ) : counterValue (List.replicate n 0) = 0 := by
  induction n with
  | zero => rfl
  | succ n ih =>
    rw [List.replicate_succ', counterValue_append, ih, counterValue_singleton]
    rfl

theorem length_sshCtrIncFrom (ctr : List UInt8) (i : ℕ) :
    (sshCtrIncFrom ctr i).length = ctr.length := by
  induction i generalizing ctr with
  | zero => rfl
  | succ i ih =>
    unfold sshCtrIncFrom
    dsimp only
    split
    · rw [List.length_set]
    · rw [ih, List.length_set]

theorem length_sshCtrInc (ctr : List UInt8) : (sshCtrInc ctr).length = ctr.length :=
  length_sshCtrIncFrom ctr _

/-- One byte of the loop. -/
theorem sshCtrIncFrom_concat (pre : List UInt8) (b : UInt8) (post : List UInt8) :
    sshCtrIncFrom (pre ++ [b] ++ post) (pre.length + 1) =
      if b + 1 ≠ 0 then pre ++ [b + 1] ++ post
      else sshCtrIncFrom (pre ++ [0] ++ post) pre.length := by
  have hget : (pre ++ [b] ++ post).getD pre.length 0 = b := by simp
  have hset : (pre ++ [b] ++ post).set pre.length (b + 1) = pre ++ [b + 1] ++ post := by simp
  have hget' : (pre ++ [b + 1] ++ post).getD pre.length 0 = b + 1 := by simp
  rw [sshCtrIncFrom, hget, hset, hget']
  by_cases hb : b + 1 ≠ 0
  · rw [if_pos hb, if_pos hb]
  · rw [if_neg hb, if_neg hb, not_not.mp hb]

/-- Once the last bytes have overflowed to zero, the bytes before them are incremented. -/
theorem counterValue_sshCtrIncFrom (pre : List UInt8) (n : ℕ) :
    counterValue (sshCtrIncFrom (pre ++ List.replicate n 0) pre.length) =
      (counterValue pre + 1) * 256 ^ n % 256 ^ (pre.length + n) := by
  induction pre using List.reverseRecOn generalizing n with
  | nil =>
    rw [List.nil_append, List.length_nil, sshCtrIncFrom, counterValue_zeros, Nat.zero_add]
    exact (Nat.mod_eq_zero_of_dvd (Dvd.intro_left _ rfl)).symm
  | append_singleton pre b ih =>
    have hvalue : counterValue (pre ++ [b]) = b.toNat + 256 * counterValue pre := by
      rw [counterValue_append, counterValue_singleton]
      rfl
    have hlen : (pre ++ [b]).length = pre.length + 1 := by simp
    rw [hlen, sshCtrIncFrom_concat]
    by_cases hb : b + 1 ≠ 0
    · -- no carry
      have htoNat : (b + 1).toNat = b.toNat + 1 := by
        have hb' : (b + 1).toNat ≠ 0 := fun h => hb (UInt8.toNat_inj.mp h)
        have hlt := b.toNat_lt
        rw [UInt8.toNat_add] at hb' ⊢
        change (b.toNat + 1) % 2 ^ 8 ≠ 0 at hb'
        change (b.toNat + 1) % 2 ^ 8 = b.toNat + 1
        omega
      have hnext : counterValue (pre ++ [b + 1]) = b.toNat + 1 + 256 * counterValue pre := by
        rw [counterValue_append, counterValue_singleton, htoNat]
        rfl
      have hlt := counterValue_lt (pre ++ [b + 1])
      rw [hnext, List.length_append, List.length_singleton] at hlt
      rw [if_pos hb, counterValue_append, counterValue_zeros, List.length_replicate, hnext,
        hvalue, Nat.mod_eq_of_lt]
      · ring
      · rw [pow_add _ (pre.length + 1) n]
        exact Nat.mul_lt_mul_of_pos_right (by omega) (by positivity)
    · have hmax : b.toNat = 255 := by
        have hb' := congrArg UInt8.toNat (not_not.mp hb)
        have hlt := b.toNat_lt
        rw [UInt8.toNat_add] at hb'
        change (b.toNat + 1) % 2 ^ 8 = 0 at hb'
        omega
      have hzeros : pre ++ [0] ++ List.replicate n 0 =
          pre ++ List.replicate (n + 1) (0 : UInt8) := by
        rw [List.append_assoc, List.replicate_succ]
        rfl
      rw [if_neg hb, hzeros, ih (n + 1), hvalue, hmax]
      congr 1
      · ring
      · ring

/-- **`ssh_ctr_inc` adds one**, modulo the numbers that fit the counter. -/
theorem counterValue_sshCtrInc (ctr : List UInt8) :
    counterValue (sshCtrInc ctr) = (counterValue ctr + 1) % 256 ^ ctr.length := by
  have hinc := counterValue_sshCtrIncFrom ctr 0
  rwa [List.replicate_zero, List.append_nil, pow_zero, Nat.mul_one, Nat.add_zero] at hinc

theorem length_iterate_sshCtrInc (ctr : List UInt8) (n : ℕ) :
    (sshCtrInc^[n] ctr).length = ctr.length := by
  induction n with
  | zero => rfl
  | succ n ih => rw [Function.iterate_succ_apply', length_sshCtrInc, ih]

theorem counterValue_iterate (ctr : List UInt8) (n : ℕ) :
    counterValue (sshCtrInc^[n] ctr) = (counterValue ctr + n) % 256 ^ ctr.length := by
  induction n with
  | zero => exact (Nat.mod_eq_of_lt (counterValue_lt ctr)).symm
  | succ n ih =>
    rw [Function.iterate_succ_apply', counterValue_sshCtrInc, ih, length_iterate_sshCtrInc,
      Nat.mod_add_mod, Nat.add_assoc]

/-- **No counter comes back** before all of them have been used. -/
theorem nodup_counters {ctr : List UInt8} {n : ℕ} (hn : n ≤ 256 ^ ctr.length) :
    ((List.range n).map fun i => sshCtrInc^[i] ctr).Nodup := by
  refine List.Nodup.map_on (fun i hi j hj heq => ?_) List.nodup_range
  rw [List.mem_range] at hi hj
  have hvalue := congrArg counterValue heq
  rw [counterValue_iterate, counterValue_iterate] at hvalue
  have hmod : i ≡ j [MOD 256 ^ ctr.length] := Nat.ModEq.add_left_cancel' _ hvalue
  exact hmod.eq_of_lt_of_lt (hi.trans_le hn) (hj.trans_le hn)

/-! ## Encryption -/

/-- The loop of `ssh_aes_ctr`, with its `n` and `buf`. -/
def sshAesCtrLoop (encrypt : List UInt8 → List UInt8) :
    ℕ → List UInt8 → List UInt8 → List UInt8 → List UInt8 × List UInt8
  | _, _, counter, [] => ([], counter)
  | n, buf, counter, b :: src =>
    let buf' := if n = 0 then encrypt counter else buf
    let counter' := if n = 0 then sshCtrInc counter else counter
    let r := sshAesCtrLoop encrypt ((n + 1) % aesBlockSize) buf' counter' src
    ((b ^^^ buf'.getD n 0) :: r.1, r.2)

/-- `struct ssh_aes_ctr_ctx`. -/
structure AesCtrCtx where
  key : List UInt8 := []
  counter : List UInt8 := []
  deriving DecidableEq

/-- `ssh_aes_ctr_init`; either argument can be `NULL`. -/
def sshAesCtrInit (key iv : Option (List UInt8)) (c : AesCtrCtx) : AesCtrCtx :=
  { key := key.getD c.key
    counter := (iv.map (List.take aesBlockSize)).getD c.counter }

section

variable (aes : List UInt8 → List UInt8 → List UInt8)

/-- `ssh_aes_ctr`. -/
def sshAesCtr (c : AesCtrCtx) (src : List UInt8) : List UInt8 × AesCtrCtx :=
  let r := sshAesCtrLoop (aes c.key) 0 [] c.counter src
  (r.1, { c with counter := r.2 })

/-- `cipher_crypt`; `none` is `fatal`. -/
def cipherCrypt (c : AesCtrCtx) (src : List UInt8) : Option (List UInt8 × AesCtrCtx) :=
  if src.length % aesBlockSize ≠ 0 then none else some (sshAesCtr aes c src)

end

/-- `cipher_init` for a cipher with keys of `keyLen` bytes; `none` is `fatal`.  The first
`EVP_CipherInit` has the IV only, the second one the key only. -/
def cipherInit (keyLen : ℕ) (key iv : List UInt8) : Option AesCtrCtx :=
  if key.length < keyLen then none
  else if iv.length < aesBlockSize then none
  else some (sshAesCtrInit (some key) none (sshAesCtrInit none (some iv) {}))

/-- `cipher_get_keyiv`, which reads the counter. -/
def cipherGetKeyiv (c : AesCtrCtx) : List UInt8 := c.counter

/-- `cipher_set_keyiv`, which writes it. -/
def cipherSetKeyiv (iv : List UInt8) (c : AesCtrCtx) : AesCtrCtx := { c with counter := iv }

/-! ## The keystream -/

/-- Byte `i` of the keystream. -/
def keystreamByte (encrypt : List UInt8 → List UInt8) (iv : List UInt8) (i : ℕ) : UInt8 :=
  (encrypt (sshCtrInc^[i / aesBlockSize] iv)).getD (i % aesBlockSize) 0

/-- A text with the keystream XORed into it from byte `p` on. -/
def xorKeystream (encrypt : List UInt8 → List UInt8) (iv : List UInt8) (p : ℕ)
    (src : List UInt8) : List UInt8 :=
  src.mapIdx fun i b => b ^^^ keystreamByte encrypt iv (p + i)

section Keystream

variable (encrypt : List UInt8 → List UInt8) (iv : List UInt8)

theorem length_xorKeystream (p : ℕ) (src : List UInt8) :
    (xorKeystream encrypt iv p src).length = src.length := by
  unfold xorKeystream
  rw [List.length_mapIdx]

theorem xorKeystream_cons (p : ℕ) (b : UInt8) (src : List UInt8) :
    xorKeystream encrypt iv p (b :: src) =
      (b ^^^ keystreamByte encrypt iv p) :: xorKeystream encrypt iv (p + 1) src := by
  unfold xorKeystream
  rw [List.mapIdx_cons, Nat.add_zero]
  congr 1
  refine congrArg (fun f => List.mapIdx f src) (funext fun i => ?_)
  rw [Nat.add_comm i 1, ← Nat.add_assoc]

/-- The keystream of a text goes on with the text behind it. -/
theorem xorKeystream_append (p : ℕ) (x y : List UInt8) :
    xorKeystream encrypt iv p (x ++ y) =
      xorKeystream encrypt iv p x ++ xorKeystream encrypt iv (p + x.length) y := by
  induction x generalizing p with
  | nil => rfl
  | cons b x ih =>
    rw [List.cons_append, xorKeystream_cons, xorKeystream_cons, ih, List.length_cons,
      List.cons_append, Nat.add_right_comm p 1, Nat.add_assoc p]

/-- The keystream cancels itself. -/
theorem xorKeystream_xorKeystream (p : ℕ) (src : List UInt8) :
    xorKeystream encrypt iv p (xorKeystream encrypt iv p src) = src := by
  induction src generalizing p with
  | nil => rfl
  | cons b src ih =>
    rw [xorKeystream_cons, xorKeystream_cons, ih, UInt8.xor_assoc, UInt8.xor_self,
      UInt8.xor_zero]

/-- **The loop XORs the keystream into the text.**  At byte `p`, `n` is the place in the block and
`buf` the block, unless a new one is due. -/
theorem sshAesCtrLoop_eq (src : List UInt8) (p : ℕ) (buf : List UInt8)
    (hbuf : p % aesBlockSize ≠ 0 → buf = encrypt (sshCtrInc^[p / aesBlockSize] iv)) :
    sshAesCtrLoop encrypt (p % aesBlockSize) buf (sshCtrInc^[(p + 15) / aesBlockSize] iv) src =
      (xorKeystream encrypt iv p src,
        sshCtrInc^[(p + src.length + 15) / aesBlockSize] iv) := by
  unfold aesBlockSize at hbuf ⊢
  induction src generalizing p buf with
  | nil => rfl
  | cons b src ih =>
    have hn : (p % 16 + 1) % 16 = (p + 1) % 16 := Nat.mod_add_mod p 16 1
    have hlength : p + (src.length + 1) + 15 = p + 1 + src.length + 15 := by omega
    rw [sshAesCtrLoop, xorKeystream_cons, List.length_cons, hlength]
    unfold aesBlockSize
    by_cases hzero : p % 16 = 0
    · -- a block begins here
      have hblock : (p + 15) / 16 = p / 16 := by omega
      have hnext : (p + 1) / 16 = p / 16 := by omega
      have hcounter : sshCtrInc (sshCtrInc^[p / 16] iv) = sshCtrInc^[(p + 1 + 15) / 16] iv := by
        rw [← Function.iterate_succ_apply' sshCtrInc]
        congr 1
        omega
      rw [if_pos hzero, if_pos hzero, hn, hblock, hcounter,
        ih (p + 1) _ fun _ => by rw [hnext]]
      rfl
    · have hblock : (p + 15) / 16 = (p + 1 + 15) / 16 := by omega
      rw [if_neg hzero, if_neg hzero, hn, hblock, ih (p + 1) buf fun hnext => ?_]
      · rw [hbuf hzero]
        rfl
      · rw [hbuf hzero]
        congr 2
        omega

end Keystream

section Run

variable {aes : List UInt8 → List UInt8 → List UInt8}

/-- A call XORs the keystream from its counter on into the text. -/
theorem sshAesCtr_eq (c : AesCtrCtx) (src : List UInt8) :
    sshAesCtr aes c src = (xorKeystream (aes c.key) c.counter 0 src,
      { c with counter := sshCtrInc^[(src.length + 15) / aesBlockSize] c.counter }) := by
  have hloop := sshAesCtrLoop_eq (aes c.key) c.counter src 0 [] fun h => absurd rfl h
  rw [Nat.zero_add, Nat.zero_mod, Nat.zero_add, Nat.div_eq_of_lt (by decide)] at hloop
  unfold sshAesCtr
  dsimp only
  rw [← Function.iterate_zero_apply sshCtrInc c.counter, hloop]
  rfl

/-- From a whole number of blocks on, the keystream is that of the counter there. -/
theorem xorKeystream_blocks (encrypt : List UInt8 → List UInt8) (iv : List UInt8) {p : ℕ}
    (hp : aesBlockSize ∣ p) (src : List UInt8) :
    xorKeystream encrypt (sshCtrInc^[p / aesBlockSize] iv) 0 src =
      xorKeystream encrypt iv p src := by
  unfold xorKeystream keystreamByte
  refine congrArg (fun f => List.mapIdx f src) (funext fun i => funext fun b => ?_)
  obtain ⟨n, rfl⟩ := hp
  have hpos : 0 < aesBlockSize := by decide
  rw [Nat.mul_div_cancel_left n hpos, Nat.zero_add, ← Function.iterate_add_apply,
    Nat.mul_add_div hpos, Nat.mul_add_mod, Nat.add_comm n]

/-! ## A cipher for the transport layer -/

/-- **Counter mode is a block cipher** that the packet protocol can be run with: the same
function encrypts and decrypts, with equal contexts at both ends. -/
def ctrCipher (aes : List UInt8 → List UInt8 → List UInt8) :
    BlockCipher.Cipher UInt8 AesCtrCtx where
  blockSize := aesBlockSize
  blockSize_pos := by decide
  encBlock := sshAesCtr aes
  decBlock := sshAesCtr aes
  Synced := fun k k' => k = k'
  length_encBlock := by
    intro k x hx
    rw [sshAesCtr_eq, length_xorKeystream, hx]
  decBlock_encBlock := by
    rintro k k' x rfl hx
    rw [sshAesCtr_eq, sshAesCtr_eq, xorKeystream_xorKeystream]
  synced_encBlock := by
    rintro k k' x rfl hx
    rw [sshAesCtr_eq, sshAesCtr_eq, length_xorKeystream]

/-- One call for some blocks is one call for each of them. -/
theorem enc_ctrCipher (x : List UInt8) (hx : aesBlockSize ∣ x.length) (c : AesCtrCtx) :
    (ctrCipher aes).enc c x = sshAesCtr aes c x := by
  refine BlockCipher.blockInduction x hx (fun c => ?_) (fun u v hu hv ih c => ?_) c
  · exact BlockCipher.crypt_nil _ _ _
  · have hcut := (ctrCipher aes).enc_append c (x := u) ⟨1, by rw [hu]; rfl⟩ v
    have hfirst : (ctrCipher aes).enc c u = sshAesCtr aes c u := by
      have hblock := BlockCipher.crypt_block (f := sshAesCtr aes) (y := [])
        (by decide : 0 < aesBlockSize) c hu
      rw [List.append_nil, BlockCipher.crypt_nil, List.append_nil] at hblock
      exact hblock
    have hblocks : (u.length + 15) / aesBlockSize = u.length / aesBlockSize := by
      rw [hu]
      rfl
    have htotal : ((u ++ v).length + 15) / aesBlockSize =
        (v.length + 15) / aesBlockSize + u.length / aesBlockSize := by
      rw [List.length_append, hu]
      unfold aesBlockSize
      omega
    rw [hcut, hfirst, ih, sshAesCtr_eq c u, sshAesCtr_eq c (u ++ v), sshAesCtr_eq, hblocks,
      xorKeystream_blocks _ _ ⟨1, by rw [hu]; rfl⟩, xorKeystream_append, Nat.zero_add, htotal,
      Function.iterate_add_apply]

/-! ## Whole connections -/

/-- A context with the texts it was given and what it made of them. -/
structure CtrState where
  ctx : AesCtrCtx
  input : List UInt8 := []
  output : List UInt8 := []

/-- What is done with a context. -/
inductive CtrEvent where
  | crypt (src : List UInt8)
  /-- The state is moved to a context that was initialised with the same key and some IV. -/
  | move (iv : List UInt8)

/-- One event; `none` is `fatal`. -/
def ctrStep (aes : List UInt8 → List UInt8 → List UInt8) (keyLen : ℕ) (s : CtrState) :
    CtrEvent → Option CtrState
  | .crypt src =>
    (cipherCrypt aes s.ctx src).map fun r =>
      { ctx := r.2, input := s.input ++ src, output := s.output ++ r.1 }
  | .move iv =>
    (cipherInit keyLen s.ctx.key iv).map fun c =>
      { s with ctx := cipherSetKeyiv (cipherGetKeyiv s.ctx) c }

/-- The texts so far were whole blocks, encrypted with the cipher's contexts. -/
structure CtrInv (aes : List UInt8 → List UInt8 → List UInt8) (c : AesCtrCtx) (s : CtrState) :
    Prop where
  blocks : aesBlockSize ∣ s.input.length
  encrypted : (ctrCipher aes).enc c s.input = (s.output, s.ctx)

theorem CtrInv.step {keyLen : ℕ} {c : AesCtrCtx} {s s' : CtrState} {ev : CtrEvent}
    (h : CtrInv aes c s) (hs : ctrStep aes keyLen s ev = some s') : CtrInv aes c s' := by
  cases ev with
  | crypt src =>
    obtain ⟨r, hr, rfl⟩ := Option.map_eq_some_iff.mp hs
    unfold cipherCrypt at hr
    split_ifs at hr with hlen
    have hsrc : aesBlockSize ∣ src.length := Nat.dvd_of_mod_eq_zero (not_not.mp hlen)
    constructor
    · rw [List.length_append]
      exact Dvd.dvd.add h.blocks hsrc
    · rw [(ctrCipher aes).enc_append c h.blocks, h.encrypted, enc_ctrCipher src hsrc,
        Option.some.inj hr]
  | move iv =>
    obtain ⟨c', hc', rfl⟩ := Option.map_eq_some_iff.mp hs
    unfold cipherInit at hc'
    split_ifs at hc'
    obtain rfl := Option.some.inj hc'
    exact ⟨h.blocks, h.encrypted⟩

/-- **Counter mode over a connection.**  However the texts are cut into calls and however often
the state is moved: the output is the input with one keystream XORed into it, what the abstract
cipher of the packet protocol makes of it; the other end, with any other cuts and moves, gets the
input back and ends with the same context; and no counter block is encrypted twice before the
counter has gone round. -/
theorem ctr_keystream {keyLen : ℕ} {key iv : List UInt8} {c : AesCtrCtx} {es : List CtrEvent}
    {s : CtrState} (hinit : cipherInit keyLen key iv = some c)
    (hrun : Transition.run (ctrStep aes keyLen) { ctx := c } es = some s) :
    s.output = xorKeystream (aes key) (iv.take aesBlockSize) 0 s.input ∧
      (ctrCipher aes).enc c s.input = (s.output, s.ctx) ∧
      (∀ es' s', Transition.run (ctrStep aes keyLen) { ctx := c } es' = some s' →
        s'.input = s.output → s'.output = s.input ∧ s'.ctx = s.ctx) ∧
      (s.input.length / aesBlockSize ≤ 2 ^ 128 →
        ((List.range (s.input.length / aesBlockSize)).map fun i =>
          sshCtrInc^[i] (iv.take aesBlockSize)).Nodup) := by
  have hinv : ∀ {es : List CtrEvent} {s : CtrState},
      Transition.run (ctrStep aes keyLen) { ctx := c } es = some s → CtrInv aes c s := by
    intro es s hs
    refine Transition.inv_run (fun _ _ _ h hstep => h.step hstep) hs ⟨Dvd.intro 0 rfl, ?_⟩
    exact BlockCipher.crypt_nil _ _ _
  unfold cipherInit at hinit
  split_ifs at hinit with hkey hiv
  obtain rfl := Option.some.inj hinit
  have hs := hinv hrun
  have henc := hs.encrypted
  rw [enc_ctrCipher _ hs.blocks, sshAesCtr_eq] at henc
  obtain ⟨hout, hctx⟩ := Prod.mk.inj henc
  refine ⟨hout.symm, hs.encrypted, fun es' s' hrun' hin => ?_, fun hle => nodup_counters ?_⟩
  · -- decryption is encryption once more
    have hs' := hinv hrun'
    have hdec := hs'.encrypted
    rw [enc_ctrCipher _ hs'.blocks, sshAesCtr_eq, hin, ← hout, xorKeystream_xorKeystream,
      length_xorKeystream] at hdec
    obtain ⟨hplain, hctx'⟩ := Prod.mk.inj hdec
    exact ⟨hplain.symm, hctx'.symm.trans hctx⟩
  · have hlen : (iv.take aesBlockSize).length = 16 := by
      rw [List.length_take]
      exact Nat.min_eq_left (not_lt.mp hiv)
    rw [hlen]
    exact hle.trans (by norm_num)

/-- A cipher to compute with. -/
def addKey (key block : List UInt8) : List UInt8 := block.map (· + key.headD 0)

/-- A context whose counter is about to carry. -/
def carryCtx : AesCtrCtx := { key := [7], counter := List.replicate 14 0 ++ [1, 255] }

/-- Two blocks in one call, and the other end in two calls and with the state moved in between. -/
theorem ctr_keystream_carry :
    ∃ s s', Transition.run (ctrStep addKey 1) { ctx := carryCtx } [.crypt (List.replicate 32 5)] =
        some s ∧
      Transition.run (ctrStep addKey 1) { ctx := carryCtx }
        [.crypt (List.replicate 14 2 ++ [13, 3]), .move (List.replicate 16 9),
          .crypt (List.replicate 14 2 ++ [12, 2])] = some s' ∧
      s'.output = List.replicate 32 5 ∧ s'.ctx.counter = List.replicate 14 0 ++ [2, 1] := by
  have hinit : cipherInit 1 [7] (List.replicate 14 0 ++ [1, 255]) = some carryCtx := rfl
  obtain ⟨s, hs⟩ : ∃ s, Transition.run (ctrStep addKey 1) { ctx := carryCtx }
      [.crypt (List.replicate 32 5)] = some s := ⟨_, rfl⟩
  obtain ⟨s', hs'⟩ : ∃ s', Transition.run (ctrStep addKey 1) { ctx := carryCtx }
      [.crypt (List.replicate 14 2 ++ [13, 3]), .move (List.replicate 16 9),
        .crypt (List.replicate 14 2 ++ [12, 2])] = some s' := ⟨_, rfl⟩
  have hin : s'.input = s.output := by
    rw [← Option.some.inj hs, ← Option.some.inj hs']
    decide +kernel
  have hinput : s.input = List.replicate 32 5 := by
    rw [← Option.some.inj hs]
    rfl
  have hcounter : s'.ctx.counter = List.replicate 14 0 ++ [2, 1] := by
    rw [← Option.some.inj hs']
    decide +kernel
  have hback := ((ctr_keystream hinit hs).2.2.1 _ s' hs' hin).1
  exact ⟨s, s', hs, hs', hback.trans hinput, hcounter⟩

end Run

end CSBuFLO
