/-
# Ciphers that work block by block

A cipher is given by what it does to one block: from a context and a block it makes
another block and the context for the next one.  Chained and counter modes are both of
this form, with the chaining block or the counter in the context.

Two contexts are *synced* when one decrypts what the other encrypts.  The two facts a
packet protocol needs are that encryption of a concatenation of whole blocks can be cut
anywhere between two blocks (`Cipher.enc_append`), and that decrypting with a synced
context gives the plain text back and leaves the contexts synced (`Cipher.dec_enc`).
-/
import Mathlib

namespace BlockCipher

variable {α κ : Type}

/-! ## Running a block function -/

/-- Apply a block function to the first `n` blocks of length `b`. -/
def cryptBlocks (f : κ → List α → List α × κ) (b : ℕ) : ℕ → κ → List α → List α × κ
  | 0, k, _ => ([], k)
  | n + 1, k, x =>
    let r := f k (x.take b)
    let t := cryptBlocks f b n r.2 (x.drop b)
    (r.1 ++ t.1, t.2)

/-- Apply a block function to all whole blocks of a text. -/
def crypt (f : κ → List α → List α × κ) (b : ℕ) (k : κ) (x : List α) : List α × κ :=
  cryptBlocks f b (x.length / b) k x

theorem crypt_nil (f : κ → List α → List α × κ) (b : ℕ) (k : κ) : crypt f b k [] = ([], k) := by
  simp [crypt, cryptBlocks]

/-- The first block and the rest. -/
theorem crypt_block {f : κ → List α → List α × κ} {b : ℕ} (hb : 0 < b) (k : κ)
    {x y : List α} (hx : x.length = b) :
    crypt f b k (x ++ y) =
      ((f k x).1 ++ (crypt f b (f k x).2 y).1, (crypt f b (f k x).2 y).2) := by
  unfold crypt
  have hdiv : (x ++ y).length / b = y.length / b + 1 := by
    rw [List.length_append, hx, Nat.add_comm, Nat.add_div_right _ hb]
  rw [hdiv, cryptBlocks, List.take_left' hx, List.drop_left' hx]

/-- Induction over a text of whole blocks. -/
@[elab_as_elim]
theorem blockInduction {b : ℕ} {P : List α → Prop} (x : List α) (hx : b ∣ x.length)
    (nil : P []) (block : ∀ x y, x.length = b → b ∣ y.length → P y → P (x ++ y)) : P x := by
  obtain ⟨n, hn⟩ := hx
  induction n generalizing x with
  | zero =>
    rw [Nat.mul_zero] at hn
    rw [List.length_eq_zero_iff.mp hn]
    exact nil
  | succ n ih =>
    rw [Nat.mul_succ] at hn
    have htake : (x.take b).length = b := by rw [List.length_take]; omega
    have hdrop : (x.drop b).length = b * n := by rw [List.length_drop]; omega
    rw [← List.take_append_drop b x]
    exact block _ _ htake ⟨n, hdrop⟩ (ih _ hdrop)

/-- **Cutting between blocks.**  What follows a text of whole blocks is processed with
the context that text leaves. -/
theorem crypt_append {f : κ → List α → List α × κ} {b : ℕ} (hb : 0 < b) (y : List α)
    (x : List α) (hx : b ∣ x.length) (k : κ) :
    crypt f b k (x ++ y) =
      ((crypt f b k x).1 ++ (crypt f b (crypt f b k x).2 y).1,
        (crypt f b (crypt f b k x).2 y).2) := by
  refine blockInduction x hx (fun k => ?_) (fun u v hu _ ih k => ?_) k
  · simp [crypt_nil]
  · rw [List.append_assoc, crypt_block hb k hu, crypt_block hb k hu, ih]
    simp

/-! ## Ciphers -/

/-- A block cipher with its two directions.  `Synced k k'` says that the context `k'`
decrypts what the context `k` encrypts. -/
structure Cipher (α κ : Type) where
  blockSize : ℕ
  blockSize_pos : 0 < blockSize
  encBlock : κ → List α → List α × κ
  decBlock : κ → List α → List α × κ
  Synced : κ → κ → Prop
  length_encBlock : ∀ k x, x.length = blockSize → (encBlock k x).1.length = blockSize
  decBlock_encBlock : ∀ {k k'} x, Synced k k' → x.length = blockSize →
    (decBlock k' (encBlock k x).1).1 = x
  synced_encBlock : ∀ {k k'} x, Synced k k' → x.length = blockSize →
    Synced (encBlock k x).2 (decBlock k' (encBlock k x).1).2

namespace Cipher

variable (C : Cipher α κ)

/-- Encrypt the whole blocks of a text. -/
def enc (k : κ) (x : List α) : List α × κ := crypt C.encBlock C.blockSize k x

/-- Decrypt the whole blocks of a text. -/
def dec (k : κ) (x : List α) : List α × κ := crypt C.decBlock C.blockSize k x

theorem enc_append (k : κ) {x : List α} (hx : C.blockSize ∣ x.length) (y : List α) :
    C.enc k (x ++ y) =
      ((C.enc k x).1 ++ (C.enc (C.enc k x).2 y).1, (C.enc (C.enc k x).2 y).2) :=
  crypt_append C.blockSize_pos y x hx k

/-- Encryption keeps the length of a text of whole blocks. -/
theorem length_enc (x : List α) (hx : C.blockSize ∣ x.length) (k : κ) :
    (C.enc k x).1.length = x.length := by
  refine blockInduction x hx (fun k => ?_) (fun u v hu _ ih k => ?_) k
  · simp [enc, crypt_nil]
  · unfold enc at ih ⊢
    rw [crypt_block C.blockSize_pos k hu]
    simp [C.length_encBlock k u hu, hu, ih]

/-- **Decryption undoes encryption** and keeps the contexts synced. -/
theorem dec_enc (x : List α) (hx : C.blockSize ∣ x.length) {k k' : κ} (h : C.Synced k k') :
    (C.dec k' (C.enc k x).1).1 = x ∧ C.Synced (C.enc k x).2 (C.dec k' (C.enc k x).1).2 := by
  refine blockInduction x hx (fun k k' h => ?_) (fun u v hu _ ih k k' h => ?_) k k' h
  · simpa [enc, dec, crypt_nil] using h
  · obtain ⟨htext, hsync⟩ := ih _ _ (C.synced_encBlock u h hu)
    unfold enc dec at *
    rw [crypt_block C.blockSize_pos k hu]
    rw [crypt_block C.blockSize_pos k' (C.length_encBlock k u hu)]
    exact ⟨by rw [C.decBlock_encBlock u h hu, htext], hsync⟩

end Cipher

end BlockCipher
