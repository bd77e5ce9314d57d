/-
# The attack detector of protocol 1 (`deattack.c`)

`detect_attack` looks for blocks of a packet that occur more than once and, for such a block,
whether its occurrences cancel out in the CRC.  Short packets are compared block by block; for
longer ones the blocks go into a hash table with linear probing, whose size is kept between the
calls, and the search gives up after `MAX_IDENTICAL` repeated blocks.

`detect_attack_plain` says that the table makes no difference: over any sequence of calls, the
detector always returns, and with at most `MAX_IDENTICAL` repetitions it says what the comparison
block by block says.  This does not depend on the checksum, which is a parameter; the one of the
source is `sshCrc32`.
-/
import CSBuFLO.PacketFormat
import CSBuFLO.Probing
import CSBuFLO.Transition

namespace CSBuFLO

/-! ## The checksum (`crc32.c`) -/

/-- `crc32tab`. -/
def crc32tab : List UInt32 :=
  [0x00000000, 0x77073096, 0xee0e612c, 0x990951ba, 0x076dc419, 0x706af48f, 0xe963a535,
    0x9e6495a3, 0x0edb8832, 0x79dcb8a4, 0xe0d5e91e, 0x97d2d988, 0x09b64c2b, 0x7eb17cbd,
    0xe7b82d07, 0x90bf1d91, 0x1db71064, 0x6ab020f2, 0xf3b97148, 0x84be41de, 0x1adad47d,
    0x6ddde4eb, 0xf4d4b551, 0x83d385c7, 0x136c9856, 0x646ba8c0, 0xfd62f97a, 0x8a65c9ec,
    0x14015c4f, 0x63066cd9, 0xfa0f3d63, 0x8d080df5, 0x3b6e20c8, 0x4c69105e, 0xd56041e4,
    0xa2677172, 0x3c03e4d1, 0x4b04d447, 0xd20d85fd, 0xa50ab56b, 0x35b5a8fa, 0x42b2986c,
    0xdbbbc9d6, 0xacbcf940, 0x32d86ce3, 0x45df5c75, 0xdcd60dcf, 0xabd13d59, 0x26d930ac,
    0x51de003a, 0xc8d75180, 0xbfd06116, 0x21b4f4b5, 0x56b3c423, 0xcfba9599, 0xb8bda50f,
    0x2802b89e, 0x5f058808, 0xc60cd9b2, 0xb10be924, 0x2f6f7c87, 0x58684c11, 0xc1611dab,
    0xb6662d3d, 0x76dc4190, 0x01db7106, 0x98d220bc, 0xefd5102a, 0x71b18589, 0x06b6b51f,
    0x9fbfe4a5, 0xe8b8d433, 0x7807c9a2, 0x0f00f934, 0x9609a88e, 0xe10e9818, 0x7f6a0dbb,
    0x086d3d2d, 0x91646c97, 0xe6635c01, 0x6b6b51f4, 0x1c6c6162, 0x856530d8, 0xf262004e,
    0x6c0695ed, 0x1b01a57b, 0x8208f4c1, 0xf50fc457, 0x65b0d9c6, 0x12b7e950, 0x8bbeb8ea,
    0xfcb9887c, 0x62dd1ddf, 0x15da2d49, 0x8cd37cf3, 0xfbd44c65, 0x4db26158, 0x3ab551ce,
    0xa3bc0074, 0xd4bb30e2, 0x4adfa541, 0x3dd895d7, 0xa4d1c46d, 0xd3d6f4fb, 0x4369e96a,
    0x346ed9fc, 0xad678846, 0xda60b8d0, 0x44042d73, 0x33031de5, 0xaa0a4c5f, 0xdd0d7cc9,
    0x5005713c, 0x270241aa, 0xbe0b1010, 0xc90c2086, 0x5768b525, 0x206f85b3, 0xb966d409,
    0xce61e49f, 0x5edef90e, 0x29d9c998, 0xb0d09822, 0xc7d7a8b4, 0x59b33d17, 0x2eb40d81,
    0xb7bd5c3b, 0xc0ba6cad, 0xedb88320, 0x9abfb3b6, 0x03b6e20c, 0x74b1d29a, 0xead54739,
    0x9dd277af, 0x04db2615, 0x73dc1683, 0xe3630b12, 0x94643b84, 0x0d6d6a3e, 0x7a6a5aa8,
    0xe40ecf0b, 0x9309ff9d, 0x0a00ae27, 0x7d079eb1, 0xf00f9344, 0x8708a3d2, 0x1e01f268,
    0x6906c2fe, 0xf762575d, 0x806567cb, 0x196c3671, 0x6e6b06e7, 0xfed41b76, 0x89d32be0,
    0x10da7a5a, 0x67dd4acc, 0xf9b9df6f, 0x8ebeeff9, 0x17b7be43, 0x60b08ed5, 0xd6d6a3e8,
    0xa1d1937e, 0x38d8c2c4, 0x4fdff252, 0xd1bb67f1, 0xa6bc5767, 0x3fb506dd, 0x48b2364b,
    0xd80d2bda, 0xaf0a1b4c, 0x36034af6, 0x41047a60, 0xdf60efc3, 0xa867df55, 0x316e8eef,
    0x4669be79, 0xcb61b38c, 0xbc66831a, 0x256fd2a0, 0x5268e236, 0xcc0c7795, 0xbb0b4703,
    0x220216b9, 0x5505262f, 0xc5ba3bbe, 0xb2bd0b28, 0x2bb45a92, 0x5cb36a04, 0xc2d7ffa7,
    0xb5d0cf31, 0x2cd99e8b, 0x5bdeae1d, 0x9b64c2b0, 0xec63f226, 0x756aa39c, 0x026d930a,
    0x9c0906a9, 0xeb0e363f, 0x72076785, 0x05005713, 0x95bf4a82, 0xe2b87a14, 0x7bb12bae,
    0x0cb61b38, 0x92d28e9b, 0xe5d5be0d, 0x7cdcefb7, 0x0bdbdf21, 0x86d3d2d4, 0xf1d4e242,
    0x68ddb3f8, 0x1fda836e, 0x81be16cd, 0xf6b9265b, 0x6fb077e1, 0x18b74777, 0x88085ae6,
    0xff0f6a70, 0x66063bca, 0x11010b5c, 0x8f659eff, 0xf862ae69, 0x616bffd3, 0x166ccf45,
    0xa00ae278, 0xd70dd2ee, 0x4e048354, 0x3903b3c2, 0xa7672661, 0xd06016f7, 0x4969474d,
    0x3e6e77db, 0xaed16a4a, 0xd9d65adc, 0x40df0b66, 0x37d83bf0, 0xa9bcae53, 0xdebb9ec5,
    0x47b2cf7f, 0x30b5ffe9, 0xbdbdf21c, 0xcabac28a, 0x53b39330, 0x24b4a3a6, 0xbad03605,
    0xcdd70693, 0x54de5729, 0x23d967bf, 0xb3667a2e, 0xc4614ab8, 0x5d681b02, 0x2a6f2b94,
    0xb40bbe37, 0xc30c8ea1, 0x5a05df1b, 0x2d02ef8d]

/-- `ssh_crc32`. -/
def sshCrc32 (buf : List UInt8) : UInt32 :=
  buf.foldl (fun crc b =>
    crc32tab.getD ((crc ^^^ b.toUInt32) &&& 0xff).toNat 0 ^^^ (crc >>> 8)) 0

/-! ## The detector -/

/-- `MAX_IDENTICAL`. -/
def maxIdentical : ℕ := 32

/-- `SSH_MAXBLOCKS`. -/
def sshMaxblocks : ℕ := 32 * 1024

/-- `SSH_BLOCKSIZE`. -/
def sshBlocksize : ℕ := 8

/-- `HASH_MINSIZE / HASH_ENTRYSIZE`. -/
def hashMinEntries : ℕ := 8 * 1024 / 2

/-- `HASH_FACTOR`. -/
def hashFactor (x : ℕ) : ℕ := x * 3 / 2

/-- `HASH_UNUSED`. -/
def hashUnused : ℕ := 0xffff

/-- `HASH_MINBLOCKS`, which is compared with a number of bytes. -/
def hashMinblocks : ℕ := 7 * sshBlocksize

inductive AttackVerdict where
  | ok
  | detected
  | dosDetected
  deriving DecidableEq, Repr

/-- The statics of `detect_attack`.  What the table holds is overwritten before it is read. -/
structure Detector where
  installed : Bool := false
  n : ℕ := hashMinEntries
  deriving DecidableEq, Repr

/-- Block `j` of a packet. -/
def blockAt (buf : List UInt8) (j : ℕ) : List UInt8 :=
  (buf.drop (j * sshBlocksize)).take sshBlocksize

/-- The blocks of a packet. -/
def blocksOf (buf : List UInt8) : List (List UInt8) :=
  (List.range (buf.length / sshBlocksize)).map (blockAt buf)

section

variable (crc32 : List UInt8 → UInt32)

/-- The bytes of a 32-bit number in memory. -/
def bytesOfU32 (b : UInt32) : List UInt8 :=
  [b.toUInt8, (b >>> 8).toUInt8, (b >>> 16).toUInt8, (b >>> 24).toUInt8]

/-- `crc_update`. -/
def crcUpdate (a b : UInt32) : UInt32 := crc32 (bytesOfU32 (b ^^^ a))

/-- `check_crc`. -/
def checkCrc (block : List UInt8) (buf : List UInt8) : Bool :=
  (blocksOf buf).foldl (fun crc c =>
    if block = c then crcUpdate crc32 (crcUpdate crc32 crc 1) 0
    else crcUpdate crc32 (crcUpdate crc32 crc 0) 0) 0 == 0

/-- The comparison block by block, for the blocks behind some that were looked at.  The inner loop
ends at the first block that is equal. -/
def plainLoop (buf : List UInt8) : List (List UInt8) → List (List UInt8) → AttackVerdict
  | _, [] => .ok
  | before, c :: cs =>
    if before.contains c && checkCrc crc32 c buf then .detected
    else plainLoop buf (before ++ [c]) cs

/-- The inner loop over the table: the cell at which it ends, and whether the block is there.
`none` means that it does not end. -/
def searchTable (buf c : List UInt8) (n : ℕ) (h : ℕ → ℕ) : ℕ → ℕ → Option (ℕ × Bool)
  | 0, _ => none
  | fuel + 1, i =>
    if h i = hashUnused then some (i, false)
    else if c = blockAt buf (h i) then some (i, true)
    else searchTable buf c n h fuel ((i + 1) &&& (n - 1))

/-- The outer loop over the blocks.  The entries of the table are 16-bit numbers. -/
def hashLoop (buf : List UInt8) (n : ℕ) :
    List (List UInt8) → ℕ → ℕ → (ℕ → ℕ) → Option AttackVerdict
  | [], _, _, _ => some .ok
  | c :: cs, j, same, h =>
    match searchTable buf c n h n (getU32 c &&& (n - 1)) with
    | none => none
    | some (i, false) => hashLoop buf n cs (j + 1) same (Function.update h i (j % 2 ^ 16))
    | some (i, true) =>
      if same + 1 > maxIdentical then some .dosDetected
      else if checkCrc crc32 c buf then some .detected
      else hashLoop buf n cs (j + 1) (same + 1) (Function.update h i (j % 2 ^ 16))

/-- The size that a table for some blocks gets. -/
def growTable (entries : ℕ) : ℕ → ℕ → ℕ
  | 0, l => l
  | fuel + 1, l => if l < entries then growTable entries fuel (l <<< 2) else l

/-- `detect_attack`; `none` is `fatal`, or a loop that does not end. -/
def detectAttack (s : Detector) (buf : List UInt8) : Option (AttackVerdict × Detector) :=
  if sshMaxblocks * sshBlocksize < buf.length ∨ buf.length % sshBlocksize ≠ 0 then none
  else
    let entries := hashFactor (buf.length / sshBlocksize)
    let l := growTable entries entries s.n
    let s : Detector :=
      if s.installed then if l > s.n then { s with n := l } else s
      else { installed := true, n := l }
    if buf.length ≤ hashMinblocks then some (plainLoop crc32 buf [] (blocksOf buf), s)
    else
      (hashLoop crc32 buf s.n (blocksOf buf) 0 0 fun _ => hashUnused).map fun v => (v, s)

end

/-! ## The size of the table -/

/-- The size is a power of two that is large enough, and does not shrink. -/
theorem growTable_spec {entries : ℕ} (fuel l : ℕ) (hl : 0 < l) (hfuel : entries ≤ l + fuel)
    (hpow : ∃ k, l = 2 ^ k) :
    entries ≤ growTable entries fuel l ∧ l ≤ growTable entries fuel l ∧
      ∃ k, growTable entries fuel l = 2 ^ k := by
  induction fuel generalizing l with
  | zero => exact ⟨by rw [growTable]; omega, le_rfl, hpow⟩
  | succ fuel ih =>
    rw [growTable]
    by_cases hlt : l < entries
    · have hshift : l <<< 2 = l * 4 := Nat.shiftLeft_eq l 2
      rw [if_pos hlt, hshift]
      obtain ⟨k, rfl⟩ := hpow
      obtain ⟨henough, hle, hk⟩ := ih (2 ^ k * 4) (by omega) (by omega)
        ⟨k + 2, by rw [Nat.pow_add]⟩
      exact ⟨henough, by omega, hk⟩
    · rw [if_neg hlt]
      exact ⟨not_lt.mp hlt, le_rfl, hpow⟩

/-! ## The table finds the blocks -/

/-- The table as one of optional block numbers. -/
def cellsOf (h : ℕ → ℕ) (i : ℕ) : Option ℕ := if h i = hashUnused then none else some (h i)

theorem cellsOf_update {h : ℕ → ℕ} {i j : ℕ} (hj : j ≠ hashUnused) :
    cellsOf (Function.update h i j) = Function.update (cellsOf h) i (some j) := by
  funext i'
  unfold cellsOf
  by_cases heq : i' = i
  · subst heq
    rw [Function.update_self, Function.update_self, if_neg hj]
  · rw [Function.update_of_ne heq, Function.update_of_ne heq]

/-- **The inner loop is a search with linear probing.** -/
theorem searchTable_eq (buf c : List UInt8) (k : ℕ) (h : ℕ → ℕ) (fuel i : ℕ) :
    searchTable buf c (2 ^ k) h fuel i =
      (Probing.probe (2 ^ k) (blockAt buf) (cellsOf h) c fuel i).map
        fun i => (i, (cellsOf h i).isSome) := by
  induction fuel generalizing i with
  | zero => rfl
  | succ fuel ih =>
    rw [searchTable, Probing.probe]
    by_cases hunused : h i = hashUnused
    · have hcell : cellsOf h i = none := if_pos hunused
      rw [if_pos hunused, hcell]
      simp [hcell]
    · have hcell : cellsOf h i = some (h i) := if_neg hunused
      rw [if_neg hunused, hcell]
      dsimp only
      by_cases heq : blockAt buf (h i) = c
      · rw [if_pos heq.symm, if_pos heq]
        simp [hcell]
      · rw [if_neg fun hno => heq hno.symm, if_neg heq, Nat.and_two_pow_sub_one_eq_mod, ih]

/-- What the table holds after some blocks. -/
structure TableInv (buf : List UInt8) (k : ℕ) (before : List (List UInt8)) (h : ℕ → ℕ) :
    Prop where
  placed : Probing.Placed (2 ^ k) (fun c => getU32 c % 2 ^ k) (blockAt buf) (cellsOf h)
  holds : ∀ c, c ∈ before ↔ ∃ i < 2 ^ k, ∃ j, cellsOf h i = some j ∧ blockAt buf j = c
  used : Probing.used (2 ^ k) (cellsOf h) ≤ before.length

theorem tableInv_init (buf : List UInt8) (k : ℕ) :
    TableInv buf k [] (fun _ => hashUnused) where
  placed := Probing.placed_empty
  holds := by
    intro c
    constructor
    · exact fun h => absurd h List.not_mem_nil
    · rintro ⟨i, -, j, hcell, -⟩
      cases hcell
  used := Probing.used_empty.le

/-- **One block**: the search ends, it says whether the block was there before, and the block goes
into the table. -/
theorem TableInv.search {buf : List UInt8} {k j : ℕ} {before : List (List UInt8)} {h : ℕ → ℕ}
    (hinv : TableInv buf k before h) (hfree : before.length < 2 ^ k) (hj : j < hashUnused) :
    ∃ i, searchTable buf (blockAt buf j) (2 ^ k) h (2 ^ k)
        (getU32 (blockAt buf j) &&& (2 ^ k - 1)) =
          some (i, before.contains (blockAt buf j)) ∧
      TableInv buf k (before ++ [blockAt buf j]) (Function.update h i (j % 2 ^ 16)) := by
  have hempty := Probing.exists_empty (hinv.used.trans_lt hfree)
  have hhash : getU32 (blockAt buf j) % 2 ^ k < 2 ^ k := Nat.mod_lt _ (Nat.two_pow_pos k)
  obtain ⟨d, hd, hprobe, hfilled, hfound, hmissing⟩ :=
    Probing.probe_spec hinv.placed hhash hempty
  have hi : (getU32 (blockAt buf j) % 2 ^ k + d) % 2 ^ k < 2 ^ k :=
    Nat.mod_lt _ (Nat.two_pow_pos k)
  have hput := hinv.placed.put (e := j) hd hfilled
  generalize (getU32 (blockAt buf j) % 2 ^ k + d) % 2 ^ k = i at *
  have hmod : j % 2 ^ 16 = j := Nat.mod_eq_of_lt (hj.trans (by decide))
  have hcells : cellsOf (Function.update h i (j % 2 ^ 16)) =
      Function.update (cellsOf h) i (some j) := by
    rw [hmod]
    exact cellsOf_update hj.ne
  have hthere : (cellsOf h i).isSome = before.contains (blockAt buf j) := by
    rw [Bool.eq_iff_iff, List.contains_iff_mem, hinv.holds]
    constructor
    · intro hsome
      obtain ⟨j', hj'⟩ := Option.isSome_iff_exists.mp hsome
      exact ⟨i, hi, j', hj', hfound j' hj'⟩
    · rintro ⟨i', hi', j', hj', hblock⟩
      by_contra hnone
      exact hmissing (Option.not_isSome_iff_eq_none.mp hnone) i' hi' j' hj' hblock
  refine ⟨i, ?_, ?_⟩
  · rw [searchTable_eq, Nat.and_two_pow_sub_one_eq_mod, hprobe, Option.map_some, hthere]
  · constructor
    · rw [hcells]
      exact hput
    · intro c
      rw [hcells, List.mem_append, List.mem_singleton, hinv.holds]
      constructor
      · rintro (⟨i', hi', j', hj', rfl⟩ | rfl)
        · by_cases heq : i' = i
          · -- a repeated block takes the place of the one before
            subst heq
            exact ⟨i', hi', j, Function.update_self _ _ _, (hfound j' hj').symm⟩
          · exact ⟨i', hi', j', by rw [Function.update_of_ne heq]; exact hj', rfl⟩
        · exact ⟨i, hi, j, Function.update_self _ _ _, rfl⟩
      · rintro ⟨i', hi', j', hj', rfl⟩
        by_cases heq : i' = i
        · subst heq
          rw [Function.update_self] at hj'
          rw [← Option.some.inj hj']
          exact Or.inr rfl
        · rw [Function.update_of_ne heq] at hj'
          exact Or.inl ⟨i', hi', j', hj', rfl⟩
    · rw [hcells, List.length_append]
      exact (Probing.used_put i j).trans (Nat.succ_le_succ hinv.used)

/-! ## Repeated blocks -/

/-- The blocks of `cs` that have occurred before. -/
def repeatsFrom : List (List UInt8) → List (List UInt8) → List (List UInt8)
  | _, [] => []
  | before, c :: cs =>
    if before.contains c then c :: repeatsFrom (before ++ [c]) cs
    else repeatsFrom (before ++ [c]) cs

/-- The blocks of a packet that have occurred before in it. -/
def repeats (buf : List UInt8) : List (List UInt8) := repeatsFrom [] (blocksOf buf)

theorem length_repeatsFrom_le (before cs : List (List UInt8)) :
    (repeatsFrom before cs).length ≤ cs.length := by
  induction cs generalizing before with
  | nil => exact Nat.le_refl _
  | cons c cs ih =>
    rw [repeatsFrom]
    split
    · exact Nat.succ_le_succ (ih _)
    · exact (ih _).trans (Nat.le_succ _)

section

variable {crc32 : List UInt8 → UInt32} {buf : List UInt8}

variable (crc32 buf) in
/-- The verdict on repeated blocks, when `same` were seen before. -/
def repeatVerdict : ℕ → List (List UInt8) → AttackVerdict
  | _, [] => .ok
  | same, c :: cs =>
    if same + 1 > maxIdentical then .dosDetected
    else if checkCrc crc32 c buf then .detected
    else repeatVerdict (same + 1) cs

/-- The comparison block by block looks at every repeated block. -/
theorem plainLoop_eq (before cs : List (List UInt8)) :
    plainLoop crc32 buf before cs =
      if (repeatsFrom before cs).any (fun c => checkCrc crc32 c buf) then .detected
      else .ok := by
  induction cs generalizing before with
  | nil => rfl
  | cons c cs ih =>
    rw [plainLoop, repeatsFrom, ih]
    cases before.contains c with
    | false => rfl
    | true =>
      cases hcrc : checkCrc crc32 c buf with
      | false => simp [hcrc]
      | true => simp [hcrc]

/-- Up to `MAX_IDENTICAL` repeated blocks are all looked at. -/
theorem repeatVerdict_of_le (same : ℕ) (rs : List (List UInt8))
    (hle : same + rs.length ≤ maxIdentical) :
    repeatVerdict crc32 buf same rs =
      if rs.any (fun c => checkCrc crc32 c buf) then .detected else .ok := by
  induction rs generalizing same with
  | nil => rfl
  | cons c cs ih =>
    rw [List.length_cons] at hle
    rw [repeatVerdict, if_neg (by omega), ih (same + 1) (by omega)]
    cases hcrc : checkCrc crc32 c buf with
    | false => simp [hcrc]
    | true => simp [hcrc]

theorem lt_of_repeatVerdict_dos (same : ℕ) (rs : List (List UInt8))
    (h : repeatVerdict crc32 buf same rs = .dosDetected) :
    maxIdentical < same + rs.length := by
  by_contra hle
  rw [repeatVerdict_of_le same rs (not_lt.mp hle)] at h
  split at h
  · cases h
  · cases h

theorem exists_of_repeatVerdict_detected (same : ℕ) (rs : List (List UInt8))
    (h : repeatVerdict crc32 buf same rs = .detected) :
    ∃ c ∈ rs, checkCrc crc32 c buf = true := by
  induction rs generalizing same with
  | nil => cases h
  | cons c cs ih =>
    rw [repeatVerdict] at h
    split_ifs at h with hmany hcrc
    · exact ⟨c, List.mem_cons_self, hcrc⟩
    · obtain ⟨c', hc', hcheck⟩ := ih (same + 1) h
      exact ⟨c', List.mem_cons_of_mem c hc', hcheck⟩

/-- **The loop over the table** comes to the verdict on the repeated blocks. -/
theorem hashLoop_eq {k : ℕ} (before cs : List (List UInt8)) (hblocks : blocksOf buf = before ++ cs)
    (same : ℕ) {h : ℕ → ℕ} (hinv : TableInv buf k before h)
    (hfree : (blocksOf buf).length ≤ 2 ^ k) (hmax : (blocksOf buf).length ≤ hashUnused) :
    hashLoop crc32 buf (2 ^ k) cs before.length same h =
      some (repeatVerdict crc32 buf same (repeatsFrom before cs)) := by
  induction cs generalizing before same h with
  | nil => rfl
  | cons c cs ih =>
    have hlt : before.length < (blocksOf buf).length := by
      rw [hblocks, List.length_append, List.length_cons]
      omega
    have hc : c = blockAt buf before.length := by
      have hget : (blocksOf buf)[before.length]? = some c := by
        rw [hblocks, List.getElem?_append_right (Nat.le_refl _), Nat.sub_self]
        rfl
      unfold blocksOf at hget hlt
      rw [List.length_map, List.length_range] at hlt
      rw [List.getElem?_map, List.getElem?_range hlt] at hget
      exact (Option.some.inj hget).symm
    subst hc
    obtain ⟨i, hsearch, hnext⟩ := hinv.search (hlt.trans_le hfree) (hlt.trans_le hmax)
    have hlen : (before ++ [blockAt buf before.length]).length = before.length + 1 := by simp
    have hrest := ih (before ++ [blockAt buf before.length])
      (by rw [hblocks, List.append_assoc]; rfl)
    rw [hlen] at hrest
    rw [hashLoop, hsearch, repeatsFrom]
    cases before.contains (blockAt buf before.length) with
    | false =>
      dsimp only
      rw [hrest same hnext]
      rfl
    | true =>
      dsimp only
      rw [if_pos rfl, repeatVerdict, hrest (same + 1) hnext]
      split_ifs
      · rfl
      · rfl
      · rfl

/-! ## Sequences of calls -/

/-- The size of the table is a power of two. -/
theorem detectAttack_spec {s : Detector} (hpow : ∃ k, s.n = 2 ^ k)
    (hlen : buf.length ≤ sshMaxblocks * sshBlocksize) (hdvd : sshBlocksize ∣ buf.length) :
    ∃ s', (∃ k, s'.n = 2 ^ k) ∧ detectAttack crc32 s buf =
      some (repeatVerdict crc32 buf 0 (repeats buf), s') := by
  have hpos : 0 < s.n := by
    obtain ⟨k, hk⟩ := hpow
    rw [hk]
    exact Nat.two_pow_pos k
  obtain ⟨henough, hle, hgrown⟩ := growTable_spec (hashFactor (buf.length / sshBlocksize)) s.n
    hpos (Nat.le_add_left _ _) hpow
  have hnumber : (blocksOf buf).length = buf.length / sshBlocksize := by
    unfold blocksOf
    rw [List.length_map, List.length_range]
  unfold detectAttack
  rw [if_neg fun hbad => hbad.elim (fun hlong => absurd hlen (not_le.mpr hlong))
    fun hmod => hmod (Nat.mod_eq_zero_of_dvd hdvd)]
  dsimp only
  generalize growTable (hashFactor (buf.length / sshBlocksize))
    (hashFactor (buf.length / sshBlocksize)) s.n = l at *
  obtain ⟨s', hs', hn⟩ : ∃ s', s' = (if s.installed = true then
      if l > s.n then { s with n := l } else s else { installed := true, n := l }) ∧ s'.n = l := by
    refine ⟨_, rfl, ?_⟩
    split
    · split
      · rfl
      · omega
    · rfl
  rw [← hs']
  refine ⟨s', hn ▸ hgrown, ?_⟩
  by_cases hshort : buf.length ≤ hashMinblocks
  · rw [if_pos hshort, plainLoop_eq]
    have hrepeats : (repeats buf).length ≤ maxIdentical := by
      have hle := length_repeatsFrom_le [] (blocksOf buf)
      unfold hashMinblocks sshBlocksize at hshort
      unfold sshBlocksize at hnumber
      unfold repeats maxIdentical
      omega
    rw [repeatVerdict_of_le 0 _ (by omega)]
    rfl
  · obtain ⟨k, hk⟩ := hgrown
    rw [if_neg hshort, hn, hk]
    have hfree : (blocksOf buf).length ≤ 2 ^ k := by
      unfold hashFactor at henough
      omega
    have hmax : (blocksOf buf).length ≤ hashUnused := by
      unfold sshMaxblocks at hlen
      unfold hashUnused
      unfold sshBlocksize at hlen hnumber
      omega
    have hloop : hashLoop crc32 buf (2 ^ k) (blocksOf buf) 0 0 (fun _ => hashUnused) =
        some (repeatVerdict crc32 buf 0 (repeats buf)) :=
      hashLoop_eq [] (blocksOf buf) rfl 0 (tableInv_init buf k) hfree hmax
    rw [hloop]
    rfl

/-- **The table makes no difference.**  After any sequence of packets, `detect_attack` returns for
every packet of whole blocks that is not too long; with at most `MAX_IDENTICAL` repeated blocks
it says what the comparison of all blocks with each other says, and it speaks of a denial of
service only if there are more. -/
theorem detect_attack_plain {bufs : List (List UInt8)} {s : Detector}
    (hrun : Transition.run (fun s buf => (detectAttack crc32 s buf).map Prod.snd) {} bufs =
      some s)
    (hlen : buf.length ≤ sshMaxblocks * sshBlocksize) (hdvd : sshBlocksize ∣ buf.length) :
    ∃ v s', detectAttack crc32 s buf = some (v, s') ∧
      ((repeats buf).length ≤ maxIdentical → v = plainLoop crc32 buf [] (blocksOf buf)) ∧
      (v = .dosDetected → maxIdentical < (repeats buf).length) ∧
      (v = .detected → ∃ c ∈ repeats buf, checkCrc crc32 c buf = true) := by
  have hpow : ∃ k, s.n = 2 ^ k := by
    refine Transition.inv_run (I := fun s : Detector => ∃ k, s.n = 2 ^ k) ?_ hrun ⟨12, rfl⟩
    intro s buf s' hs hstep
    obtain ⟨⟨v, s1⟩, hdetect, rfl⟩ := Option.map_eq_some_iff.mp hstep
    have hgood : ¬ (sshMaxblocks * sshBlocksize < buf.length ∨ buf.length % sshBlocksize ≠ 0) := by
      intro hbad
      unfold detectAttack at hdetect
      rw [if_pos hbad] at hdetect
      cases hdetect
    obtain ⟨hshort, hmod⟩ := not_or.mp hgood
    obtain ⟨s2, hs2, hspec⟩ : ∃ s2, (∃ k, s2.n = 2 ^ k) ∧ detectAttack crc32 s buf =
        some (repeatVerdict crc32 buf 0 (repeats buf), s2) :=
      detectAttack_spec hs (not_lt.mp hshort) (Nat.dvd_of_mod_eq_zero (not_not.mp hmod))
    rw [hdetect] at hspec
    rw [(Prod.mk.inj (Option.some.inj hspec)).2]
    exact hs2
  obtain ⟨s', -, hspec⟩ := detectAttack_spec hpow hlen hdvd
  refine ⟨_, s', hspec, fun hfew => ?_, fun hdos => ?_, fun hdetected => ?_⟩
  · rw [repeatVerdict_of_le 0 _ (by omega), plainLoop_eq]
    rfl
  · have hlt := lt_of_repeatVerdict_dos 0 _ hdos
    omega
  · exact exists_of_repeatVerdict_detected 0 _ hdetected

/-- Ten blocks, the last of which is the second one once more. -/
def repeatedBlock : List UInt8 :=
  (List.range 9).flatMap (fun i => List.replicate 8 (UInt8.ofNat i)) ++ List.replicate 8 1

theorem detect_attack_plain_repeatedBlock :
    ∃ s v s', Transition.run (fun s buf => (detectAttack sshCrc32 s buf).map Prod.snd) {}
        [List.replicate 16 3] = some s ∧
      detectAttack sshCrc32 s repeatedBlock = some (v, s') ∧
      v = plainLoop sshCrc32 repeatedBlock [] (blocksOf repeatedBlock) ∧ v = .ok := by
  obtain ⟨s, hs⟩ : ∃ s, Transition.run
      (fun s buf => (detectAttack sshCrc32 s buf).map Prod.snd) {}
        [List.replicate 16 3] = some s := Option.isSome_iff_exists.mp (by decide +kernel)
  have hlen : repeatedBlock.length ≤ sshMaxblocks * sshBlocksize := by decide
  obtain ⟨v, s', hv, hplain, -⟩ := detect_attack_plain hs hlen (by decide)
  have hverdict : plainLoop sshCrc32 repeatedBlock [] (blocksOf repeatedBlock) = .ok := by
    decide +kernel
  have hsame := hplain (by decide +kernel)
  exact ⟨s, v, s', hs, hv, hsame, hsame.trans hverdict⟩

end

end CSBuFLO
