/-
# The buffers (`buffer.c`)

Every packet, every channel and the output of the shaper are kept in a `Buffer`: an allocation with
the offsets of the first byte and of the end of its data.  Data is appended at the end and taken
from the front.  When there is no room, the data is moved to the front of the allocation or the
allocation grows, and the attempt is made again (`goto restart`).

* `bufferAppendSpace`, `bufferCheckAlloc` : the two restart loops;
* `Buffer.Valid` : `offset <= end < alloc <= BUFFER_MAX_LEN`;
* `appendLoop_checkLoop` : the two loops take the same decisions, and end after two restarts;
* `buffer_refines_queue` : every run of the operations is a run of a queue of bytes.

`buf` is a function on all addresses: behind `alloc` are the bytes that `xrealloc` will find there.
It is taken to succeed.
-/
import CSBuFLO.Cells
import CSBuFLO.Misc
import CSBuFLO.Queue

namespace CSBuFLO

open Cells

/-! ## The functions of `buffer.c` -/

/-- `BUFFER_MAX_CHUNK`. -/
def bufferMaxChunk : ℕ := 0x100000

/-- `BUFFER_MAX_LEN`. -/
def bufferMaxLen : ℕ := 0xa00000

/-- `BUFFER_ALLOCSZ`. -/
def bufferAllocsz : ℕ := 0x008000

/-- `roundup` (defines.h), for `u_int`. -/
def roundup (x y : ℕ) : ℕ := (addU32 x (y - 1) / y * y) % 2 ^ 32

/-- `Buffer` (buffer.h); `ends` is its field `end`. -/
structure Buffer where
  buf : ℕ → UInt8
  alloc : ℕ
  offset : ℕ
  ends : ℕ

/-- Why a function of `buffer.c` does not return: `fatal`, or more restarts than were allowed. -/
inductive Stop where
  | fatal
  | restarts
  deriving DecidableEq

/-- `buffer_init`, with the bytes that `xmalloc` finds. -/
def bufferInit (mem : ℕ → UInt8) : Buffer := { buf := mem, alloc := 4096, offset := 0, ends := 0 }

/-- `buffer_clear`. -/
def bufferClear (b : Buffer) : Buffer := { b with offset := 0, ends := 0 }

/-- `buffer_compact`. -/
def bufferCompact (b : Buffer) : Bool × Buffer :=
  if min b.alloc bufferMaxChunk < b.offset then
    (true,
      { b with
        buf := move b.buf 0 b.offset (subU32 b.ends b.offset)
        ends := subU32 b.ends b.offset
        offset := 0 })
  else (false, b)

/-- An empty buffer is used from the beginning. -/
def startOver (b : Buffer) : Buffer := if b.offset = b.ends then bufferClear b else b

/-- `buffer_append_space` from `restart` on: the address of the new space and the buffer. -/
def appendLoop (len : ℕ) : ℕ → Buffer → Except Stop (ℕ × Buffer)
  | 0, _ => .error .restarts
  | fuel + 1, b =>
    if addU32 b.ends len < b.alloc then .ok (b.ends, { b with ends := addU32 b.ends len })
    else
      match bufferCompact b with
      | (true, b') => appendLoop len fuel b'
      | (false, b') =>
        let newlen := roundup (addU32 b'.alloc len) bufferAllocsz
        if bufferMaxLen < newlen then .error .fatal
        else appendLoop len fuel { b' with alloc := newlen }

/-- `buffer_append_space`. -/
def bufferAppendSpace (fuel : ℕ) (b : Buffer) (len : ℕ) : Except Stop (ℕ × Buffer) :=
  if bufferMaxChunk < len then .error .fatal else appendLoop len fuel (startOver b)

/-- `buffer_append`; also `buffer_append_space`, followed by what its caller stores in the space. -/
def bufferAppend (fuel : ℕ) (b : Buffer) (data : List UInt8) : Except Stop Buffer :=
  (bufferAppendSpace fuel b data.length).map fun x => { x.2 with buf := store x.2.buf x.1 data }

/-- `buffer_check_alloc` from `restart` on. -/
def checkLoop (len : ℕ) : ℕ → Buffer → Except Stop (Bool × Buffer)
  | 0, _ => .error .restarts
  | fuel + 1, b =>
    if addU32 b.ends len < b.alloc then .ok (true, b)
    else
      match bufferCompact b with
      | (true, b') => checkLoop len fuel b'
      | (false, b') =>
        if roundup (addU32 b'.alloc len) bufferAllocsz ≤ bufferMaxLen then .ok (true, b')
        else .ok (false, b')

/-- `buffer_check_alloc`. -/
def bufferCheckAlloc (fuel : ℕ) (b : Buffer) (len : ℕ) : Except Stop (Bool × Buffer) :=
  checkLoop len fuel (startOver b)

/-- `buffer_len`. -/
def bufferLen (b : Buffer) : ℕ := subU32 b.ends b.offset

/-- `buffer_get_ret`; `none` is the result -1. -/
def bufferGetRet (b : Buffer) (len : ℕ) : Buffer × Option (List UInt8) :=
  if bufferLen b < len then (b, none)
  else ({ b with offset := addU32 b.offset len }, some (segment b.buf b.offset len))

/-- `buffer_consume_ret`. -/
def bufferConsumeRet (b : Buffer) (bytes : ℕ) : Buffer × Option (List UInt8) :=
  if bufferLen b < bytes then (b, none)
  else ({ b with offset := addU32 b.offset bytes }, some [])

/-- `buffer_consume_end_ret`. -/
def bufferConsumeEndRet (b : Buffer) (bytes : ℕ) : Buffer × Option (List UInt8) :=
  if bufferLen b < bytes then (b, none)
  else ({ b with ends := subU32 b.ends bytes }, some [])

/-- The result -1 is fatal in `buffer_get`, `buffer_consume` and `buffer_consume_end`. -/
def orFatal (x : Buffer × Option (List UInt8)) : Except Stop (Buffer × Option (List UInt8)) :=
  match x.2 with
  | none => .error .fatal
  | some _ => .ok x

/-- The calls. -/
inductive BufferCall where
  | append (data : List UInt8)
  | checkAlloc (len : ℕ)
  | clear
  | getRet (len : ℕ)
  | get (len : ℕ)
  | consumeRet (bytes : ℕ)
  | consume (bytes : ℕ)
  | consumeEndRet (bytes : ℕ)
  | consumeEnd (bytes : ℕ)

/-- One call, with the bytes it hands out or -1. -/
def bufferStep (fuel : ℕ) (b : Buffer) : BufferCall → Except Stop (Buffer × Option (List UInt8))
  | .append data => (bufferAppend fuel b data).map fun b' => (b', some [])
  | .checkAlloc len => (bufferCheckAlloc fuel b len).map fun x => (x.2, some [])
  | .clear => .ok (bufferClear b, some [])
  | .getRet len => .ok (bufferGetRet b len)
  | .get len => orFatal (bufferGetRet b len)
  | .consumeRet bytes => .ok (bufferConsumeRet b bytes)
  | .consume bytes => orFatal (bufferConsumeRet b bytes)
  | .consumeEndRet bytes => .ok (bufferConsumeEndRet b bytes)
  | .consumeEnd bytes => orFatal (bufferConsumeEndRet b bytes)

/-- What a call is for a queue of bytes. -/
def BufferCall.op : BufferCall → Queue.Op UInt8
  | .append data => .push data
  | .checkAlloc _ => .look
  | .clear => .clear
  | .getRet len => .pop len
  | .get len => .pop len
  | .consumeRet bytes => .skip bytes
  | .consume bytes => .skip bytes
  | .consumeEndRet bytes => .skipEnd bytes
  | .consumeEnd bytes => .skipEnd bytes

/-! ## Valid buffers -/

/-- The data of a buffer. -/
def Buffer.bytes (b : Buffer) : List UInt8 := segment b.buf b.offset (b.ends - b.offset)

theorem Buffer.length_bytes (b : Buffer) : b.bytes.length = b.ends - b.offset :=
  length_segment _ _ _

/-- `xrealloc` keeps the data. -/
theorem Buffer.bytes_realloc (b : Buffer) (newlen : ℕ) :
    Buffer.bytes { b with alloc := newlen } = b.bytes := rfl

/-- `offset <= end < alloc <= BUFFER_MAX_LEN`. -/
structure Buffer.Valid (b : Buffer) : Prop where
  offset_le : b.offset ≤ b.ends
  ends_lt : b.ends < b.alloc
  alloc_le : b.alloc ≤ bufferMaxLen

theorem valid_bufferInit (mem : ℕ → UInt8) : (bufferInit mem).Valid :=
  ⟨le_rfl, Nat.succ_pos 4095, by show 4096 ≤ 0xa00000; decide⟩

theorem bufferMaxLen_eq : bufferMaxLen = 10485760 := rfl

theorem bufferMaxChunk_eq : bufferMaxChunk = 1048576 := rfl

section Valid

variable {b : Buffer} {len fuel : ℕ}

namespace Buffer.Valid

theorem ends_lt_two_pow (hb : b.Valid) : b.ends < 2 ^ 32 := by
  have h1 := hb.ends_lt
  have h2 := hb.alloc_le
  rw [bufferMaxLen_eq] at h2
  omega

theorem bufferLen_eq (hb : b.Valid) : bufferLen b = b.bytes.length := by
  rw [length_bytes]
  exact subU32_of_le hb.ends_lt_two_pow hb.offset_le

/-- `end + len` does not overflow in `buffer_append_space`. -/
theorem addU32_ends (hb : b.Valid) (hlen : len ≤ bufferMaxChunk) :
    addU32 b.ends len = b.ends + len := by
  have h1 := hb.ends_lt
  have h2 := hb.alloc_le
  rw [bufferMaxLen_eq] at h2
  rw [bufferMaxChunk_eq] at hlen
  exact addU32_of_lt (by omega)

theorem bufferClear (hb : b.Valid) : (bufferClear b).Valid :=
  ⟨le_rfl, Nat.zero_lt_of_lt hb.ends_lt, hb.alloc_le⟩

/-- An empty buffer stays empty. -/
theorem startOver (hb : b.Valid) : (startOver b).Valid ∧ (startOver b).bytes = b.bytes := by
  unfold CSBuFLO.startOver
  by_cases hempty : b.offset = b.ends
  · rw [if_pos hempty]
    refine ⟨hb.bufferClear, ?_⟩
    unfold bytes
    rw [hempty, Nat.sub_self]
    rfl
  · rw [if_neg hempty]
    exact ⟨hb, rfl⟩

/-- **Compaction** moves the data to the front. -/
theorem bufferCompact_eq (hb : b.Valid) (h : min b.alloc bufferMaxChunk < b.offset) :
    ∃ c : Buffer, bufferCompact b = (true, c) ∧ c.Valid ∧ c.bytes = b.bytes ∧ c.offset = 0 := by
  have hends : subU32 b.ends b.offset = b.ends - b.offset :=
    subU32_of_le hb.ends_lt_two_pow hb.offset_le
  refine ⟨_, if_pos h, ⟨Nat.zero_le _, ?_, hb.alloc_le⟩, ?_, rfl⟩
  · show subU32 b.ends b.offset < b.alloc
    rw [hends]
    exact lt_of_le_of_lt (Nat.sub_le _ _) hb.ends_lt
  · show segment (move b.buf 0 b.offset (subU32 b.ends b.offset)) 0 (subU32 b.ends b.offset - 0) = _
    rw [hends, Nat.sub_zero]
    exact segment_move _ _ _ _

end Buffer.Valid

/-- Compaction is not repeated. -/
theorem bufferCompact_false (h : ¬ min b.alloc bufferMaxChunk < b.offset) :
    bufferCompact b = (false, b) := if_neg h

/-- The new size: `roundup` does not overflow, and there is room. -/
theorem roundup_alloc (hb : b.Valid) (hlen : len ≤ bufferMaxChunk) :
    b.alloc + len ≤ roundup (addU32 b.alloc len) bufferAllocsz := by
  have h := hb.alloc_le
  rw [bufferMaxLen_eq] at h
  rw [bufferMaxChunk_eq] at hlen
  unfold roundup addU32 bufferAllocsz
  omega

/-! ## The restart loops -/

/-- There is room for `len` bytes in `c`, which has the data of `b`. -/
structure HasRoom (len : ℕ) (b c : Buffer) : Prop where
  valid : c.Valid
  bytes : c.bytes = b.bytes
  fits : c.ends + len < c.alloc

/-- `buffer_append_space` and `buffer_check_alloc` decide in the same way: there is room, or there
is no room and none can be made. -/
def SameDecision (len : ℕ) (b : Buffer) (x : Except Stop (ℕ × Buffer))
    (y : Except Stop (Bool × Buffer)) : Prop :=
  (∃ c d, HasRoom len b c ∧ x = .ok (c.ends, { c with ends := c.ends + len }) ∧ y = .ok (true, d)) ∨
  (x = .error .fatal ∧ ∃ d, y = .ok (false, d))

/-- Enough space. -/
theorem loops_of_fits (hb : b.Valid) (hlen : len ≤ bufferMaxChunk)
    (hfits : b.ends + len < b.alloc) :
    SameDecision len b (appendLoop len (fuel + 1) b) (checkLoop len (fuel + 1) b) := by
  have heq := hb.addU32_ends hlen
  refine Or.inl ⟨b, b, ⟨hb, rfl, hfits⟩, ?_, ?_⟩
  · unfold appendLoop
    rw [heq, if_pos hfits]
  · unfold checkLoop
    rw [heq, if_pos hfits]

/-- **One growth step is enough**, since `end < alloc`. -/
theorem loops_of_grow (hb : b.Valid) (hlen : len ≤ bufferMaxChunk)
    (hcompact : ¬ min b.alloc bufferMaxChunk < b.offset) :
    SameDecision len b (appendLoop len (fuel + 2) b) (checkLoop len (fuel + 2) b) := by
  by_cases hfits : b.ends + len < b.alloc
  · exact loops_of_fits hb hlen hfits
  have hroom := roundup_alloc hb hlen
  have happend : appendLoop len (fuel + 2) b =
      if bufferMaxLen < roundup (addU32 b.alloc len) bufferAllocsz then .error .fatal
      else appendLoop len (fuel + 1)
        { b with alloc := roundup (addU32 b.alloc len) bufferAllocsz } := by
    rw [appendLoop]
    simp only [hb.addU32_ends hlen, if_neg hfits, bufferCompact_false hcompact]
  have hcheck : checkLoop len (fuel + 2) b =
      if roundup (addU32 b.alloc len) bufferAllocsz ≤ bufferMaxLen then .ok (true, b)
      else .ok (false, b) := by
    rw [checkLoop]
    simp only [hb.addU32_ends hlen, if_neg hfits, bufferCompact_false hcompact]
  rw [happend, hcheck]
  generalize roundup (addU32 b.alloc len) bufferAllocsz = newlen at hroom
  by_cases hmax : bufferMaxLen < newlen
  · rw [if_pos hmax, if_neg (Nat.not_le.mpr hmax)]
    exact Or.inr ⟨rfl, b, rfl⟩
  · rw [if_neg hmax, if_pos (Nat.not_lt.mp hmax)]
    have hends := hb.ends_lt
    have hgrown : Buffer.Valid { b with alloc := newlen } :=
      ⟨hb.offset_le, lt_of_lt_of_le hends (le_trans (Nat.le_add_right _ _) hroom),
        Nat.not_lt.mp hmax⟩
    have hfits' : b.ends + len < newlen := lt_of_lt_of_le (Nat.add_lt_add_right hends len) hroom
    refine Or.inl ⟨_, b, ⟨hgrown, b.bytes_realloc newlen, hfits'⟩, ?_, rfl⟩
    rw [appendLoop, hgrown.addU32_ends hlen, if_pos hfits']

/-- **The loops.**  Both end after at most two restarts, one for compaction and one for growth, and
they decide in the same way. -/
theorem appendLoop_checkLoop (hb : b.Valid) (hlen : len ≤ bufferMaxChunk) (hfuel : 3 ≤ fuel) :
    SameDecision len b (appendLoop len fuel b) (checkLoop len fuel b) := by
  obtain ⟨n, rfl⟩ := Nat.exists_eq_add_of_le' hfuel
  by_cases hcompact : min b.alloc bufferMaxChunk < b.offset
  · by_cases hfits : b.ends + len < b.alloc
    · exact loops_of_fits hb hlen hfits
    · obtain ⟨c, hc, hvalid, hbytes, hoffset⟩ := hb.bufferCompact_eq hcompact
      have happend : appendLoop len (n + 3) b = appendLoop len (n + 2) c := by
        rw [appendLoop, hb.addU32_ends hlen, if_neg hfits, hc]
      have hcheck : checkLoop len (n + 3) b = checkLoop len (n + 2) c := by
        rw [checkLoop, hb.addU32_ends hlen, if_neg hfits, hc]
      rw [happend, hcheck]
      -- The offset is 0 now, so there is no second compaction.
      have hnext : SameDecision len c (appendLoop len (n + 2) c) (checkLoop len (n + 2) c) :=
        loops_of_grow hvalid hlen (by rw [hoffset]; exact Nat.not_lt_zero _)
      rcases hnext with ⟨d, e, hroom, hx, hy⟩ | hfail
      · exact Or.inl ⟨d, e, ⟨hroom.valid, hroom.bytes.trans hbytes, hroom.fits⟩, hx, hy⟩
      · exact Or.inr hfail
  · exact loops_of_grow hb hlen hcompact

/-- `buffer_check_alloc` changes at most where the data is, for every `len`. -/
theorem checkLoop_eq (len : ℕ) (hb : b.Valid) (hfuel : 2 ≤ fuel) :
    ∃ r c, checkLoop len fuel b = .ok (r, c) ∧ c.Valid ∧ c.bytes = b.bytes := by
  obtain ⟨n, rfl⟩ := Nat.exists_eq_add_of_le' hfuel
  -- Without compaction the loop returns at once.
  have hreturn : ∀ {n : ℕ} {c : Buffer}, ¬ min c.alloc bufferMaxChunk < c.offset →
      ∃ r, checkLoop len (n + 1) c = .ok (r, c) := by
    intro n c hcompact
    rw [checkLoop, bufferCompact_false hcompact]
    dsimp only
    split_ifs
    · exact ⟨true, rfl⟩
    · exact ⟨true, rfl⟩
    · exact ⟨false, rfl⟩
  by_cases hfits : addU32 b.ends len < b.alloc
  · exact ⟨true, b, by rw [checkLoop, if_pos hfits], hb, rfl⟩
  by_cases hcompact : min b.alloc bufferMaxChunk < b.offset
  · obtain ⟨c, hc, hvalid, hbytes, hoffset⟩ := hb.bufferCompact_eq hcompact
    obtain ⟨r, hr⟩ := hreturn (n := n) (c := c) (by rw [hoffset]; exact Nat.not_lt_zero _)
    refine ⟨r, c, ?_, hvalid, hbytes⟩
    rw [checkLoop, if_neg hfits, hc]
    exact hr
  · obtain ⟨r, hr⟩ := hreturn (n := n + 1) hcompact
    exact ⟨r, b, hr, hb, rfl⟩

/-- `buffer_append_space` and `buffer_check_alloc` on the same buffer. -/
theorem bufferAppendSpace_checkAlloc (hb : b.Valid) (hlen : len ≤ bufferMaxChunk)
    (hfuel : 3 ≤ fuel) :
    SameDecision len b (bufferAppendSpace fuel b len) (bufferCheckAlloc fuel b len) := by
  obtain ⟨hvalid, hbytes⟩ := hb.startOver
  unfold bufferAppendSpace bufferCheckAlloc
  rw [if_neg (not_lt.mpr hlen)]
  rcases appendLoop_checkLoop hvalid hlen hfuel with ⟨c, d, hroom, hx, hy⟩ | hfail
  · exact Or.inl ⟨c, d, ⟨hroom.valid, hroom.bytes.trans hbytes, hroom.fits⟩, hx, hy⟩
  · exact Or.inr hfail

/-! ## One call -/

/-- **Appending.** -/
theorem bufferAppend_eq_ok (hb : b.Valid) (hfuel : 3 ≤ fuel) {data : List UInt8} {b' : Buffer}
    (h : bufferAppend fuel b data = .ok b') : b'.Valid ∧ b'.bytes = b.bytes ++ data := by
  unfold bufferAppend at h
  by_cases hlen : bufferMaxChunk < data.length
  · rw [bufferAppendSpace, if_pos hlen] at h
    cases h
  rcases bufferAppendSpace_checkAlloc hb (not_lt.mp hlen) hfuel with
    ⟨c, d, hroom, hx, -⟩ | ⟨hx, -⟩
  · rw [hx] at h
    cases h
    have hoffset := hroom.valid.offset_le
    refine ⟨⟨le_trans hoffset (Nat.le_add_right _ _), hroom.fits, hroom.valid.alloc_le⟩, ?_⟩
    show segment (store c.buf c.ends data) c.offset (c.ends + data.length - c.offset) = _
    rw [Nat.sub_add_comm hoffset, ← segment_append, Nat.add_sub_cancel' hoffset, segment_store,
      segment_store_of_le _ _ (by omega), ← hroom.bytes]
    rfl
  · rw [hx] at h
    cases h

/-- `offset += len`: the first bytes are dropped. -/
theorem bytes_advance (hb : b.Valid) (hlen : ¬ bufferLen b < len) :
    Buffer.Valid { b with offset := addU32 b.offset len } ∧
      Buffer.bytes { b with offset := addU32 b.offset len } = b.bytes.drop len ∧
      segment b.buf b.offset len = b.bytes.take len := by
  rw [hb.bufferLen_eq, Buffer.length_bytes] at hlen
  have hoffset := hb.offset_le
  have hends := hb.ends_lt_two_pow
  have hadd : addU32 b.offset len = b.offset + len := addU32_of_lt (by omega)
  have hle : b.offset + len ≤ b.ends := by omega
  refine ⟨⟨?_, hb.ends_lt, hb.alloc_le⟩, ?_, ?_⟩
  · show addU32 b.offset len ≤ b.ends
    rw [hadd]
    exact hle
  · unfold Buffer.bytes
    rw [drop_segment _ _ (by omega), hadd, Nat.sub_sub]
  · unfold Buffer.bytes
    rw [take_segment _ _ (by omega)]

/-- **Taking bytes from the front.** -/
theorem bufferGetRet_pop (hb : b.Valid) (len : ℕ) :
    (bufferGetRet b len).1.Valid ∧
      Queue.step b.bytes (.pop len) = ((bufferGetRet b len).1.bytes, (bufferGetRet b len).2) := by
  unfold bufferGetRet Queue.step
  dsimp only
  rw [← hb.bufferLen_eq]
  by_cases hlen : bufferLen b < len
  · rw [if_pos hlen, if_pos hlen]
    exact ⟨hb, rfl⟩
  · rw [if_neg hlen, if_neg hlen]
    obtain ⟨hvalid, hdrop, htake⟩ := bytes_advance hb hlen
    rw [← htake, ← hdrop]
    exact ⟨hvalid, rfl⟩

/-- **Dropping bytes at the front.** -/
theorem bufferConsumeRet_skip (hb : b.Valid) (bytes : ℕ) :
    (bufferConsumeRet b bytes).1.Valid ∧ Queue.step b.bytes (.skip bytes) =
      ((bufferConsumeRet b bytes).1.bytes, (bufferConsumeRet b bytes).2) := by
  unfold bufferConsumeRet Queue.step
  dsimp only
  rw [← hb.bufferLen_eq]
  by_cases hlen : bufferLen b < bytes
  · rw [if_pos hlen, if_pos hlen]
    exact ⟨hb, rfl⟩
  · rw [if_neg hlen, if_neg hlen]
    obtain ⟨hvalid, hdrop, -⟩ := bytes_advance hb hlen
    rw [← hdrop]
    exact ⟨hvalid, rfl⟩

/-- `end -= bytes`: the last bytes are dropped. -/
theorem bytes_retreat (hb : b.Valid) {bytes : ℕ} (hlen : ¬ bufferLen b < bytes) :
    Buffer.Valid { b with ends := subU32 b.ends bytes } ∧
      Buffer.bytes { b with ends := subU32 b.ends bytes } =
        b.bytes.take (b.bytes.length - bytes) := by
  rw [hb.bufferLen_eq, Buffer.length_bytes] at hlen
  rw [Buffer.length_bytes]
  have hoffset := hb.offset_le
  have hends := hb.ends_lt
  have hsub : subU32 b.ends bytes = b.ends - bytes := subU32_of_le hb.ends_lt_two_pow (by omega)
  rw [hsub]
  refine ⟨⟨?_, ?_, hb.alloc_le⟩, ?_⟩
  · show b.offset ≤ b.ends - bytes
    omega
  · show b.ends - bytes < b.alloc
    omega
  · unfold Buffer.bytes
    dsimp only
    rw [take_segment _ _ (Nat.sub_le _ _), Nat.sub_right_comm]

/-- **Dropping bytes at the end.** -/
theorem bufferConsumeEndRet_skipEnd (hb : b.Valid) (bytes : ℕ) :
    (bufferConsumeEndRet b bytes).1.Valid ∧ Queue.step b.bytes (.skipEnd bytes) =
      ((bufferConsumeEndRet b bytes).1.bytes, (bufferConsumeEndRet b bytes).2) := by
  have hlength := hb.bufferLen_eq
  unfold bufferConsumeEndRet Queue.step
  dsimp only
  by_cases hlen : bufferLen b < bytes
  · rw [if_pos hlen, if_pos (by rw [← hlength]; exact hlen)]
    exact ⟨hb, rfl⟩
  · rw [if_neg hlen, if_neg (by rw [← hlength]; exact hlen)]
    obtain ⟨hvalid, htake⟩ := bytes_retreat hb hlen
    rw [← htake]
    exact ⟨hvalid, rfl⟩

theorem orFatal_eq_ok {x y : Buffer × Option (List UInt8)} (h : orFatal x = .ok y) : y = x := by
  unfold orFatal at h
  split at h
  · cases h
  · exact (Except.ok.inj h).symm

/-- **One call** does what the queue does, and leaves a valid buffer. -/
theorem bufferStep_refines (hfuel : 3 ≤ fuel) (b : Buffer) (call : BufferCall) (b' : Buffer)
    (r : Option (List UInt8)) (hb : b.Valid) (h : bufferStep fuel b call = .ok (b', r)) :
    b'.Valid ∧ Queue.step b.bytes call.op = (b'.bytes, r) := by
  cases call with
  | append data =>
    have hmap : (bufferAppend fuel b data).map (fun b' => (b', some [])) = .ok (b', r) := h
    cases hx : bufferAppend fuel b data with
    | error x =>
      rw [hx] at hmap
      cases hmap
    | ok c =>
      rw [hx] at hmap
      cases hmap
      obtain ⟨hvalid, hbytes⟩ := bufferAppend_eq_ok hb hfuel hx
      rw [hbytes]
      exact ⟨hvalid, rfl⟩
  | checkAlloc len =>
    obtain ⟨hvalid, hbytes⟩ := hb.startOver
    obtain ⟨x, c, hx, hc, hcbytes⟩ := checkLoop_eq len hvalid (by omega : 2 ≤ fuel)
    have hmap : (checkLoop len fuel (startOver b)).map (fun x => (x.2, some [])) =
        .ok (b', r) := h
    rw [hx] at hmap
    cases hmap
    rw [hcbytes, hbytes]
    exact ⟨hc, rfl⟩
  | clear =>
    cases h
    exact ⟨hb.bufferClear, rfl⟩
  | getRet len =>
    have hret := bufferGetRet_pop hb len
    rw [Except.ok.inj h] at hret
    exact hret
  | get len =>
    have hret := bufferGetRet_pop hb len
    rw [← orFatal_eq_ok h] at hret
    exact hret
  | consumeRet bytes =>
    have hret := bufferConsumeRet_skip hb bytes
    rw [Except.ok.inj h] at hret
    exact hret
  | consume bytes =>
    have hret := bufferConsumeRet_skip hb bytes
    rw [← orFatal_eq_ok h] at hret
    exact hret
  | consumeEndRet bytes =>
    have hret := bufferConsumeEndRet_skipEnd hb bytes
    rw [Except.ok.inj h] at hret
    exact hret
  | consumeEnd bytes =>
    have hret := bufferConsumeEndRet_skipEnd hb bytes
    rw [← orFatal_eq_ok h] at hret
    exact hret

/-- **A call that does not return is fatal**: no restart loop goes on. -/
theorem bufferStep_error (hfuel : 3 ≤ fuel) (b : Buffer) (call : BufferCall) (x : Stop)
    (hb : b.Valid) (h : bufferStep fuel b call = .error x) : x = .fatal := by
  have horFatal : ∀ {y : Buffer × Option (List UInt8)}, orFatal y = .error x → x = .fatal := by
    intro y hy
    unfold orFatal at hy
    split at hy
    · exact (Except.error.inj hy).symm
    · cases hy
  cases call with
  | append data =>
    have hmap : ((bufferAppendSpace fuel b data.length).map fun x =>
        { x.2 with buf := store x.2.buf x.1 data }).map (fun b' => (b', some [])) = .error x := h
    by_cases hlen : bufferMaxChunk < data.length
    · rw [bufferAppendSpace, if_pos hlen] at hmap
      exact (Except.error.inj hmap).symm
    · rcases bufferAppendSpace_checkAlloc hb (not_lt.mp hlen) hfuel with
        ⟨c, d, -, hx, -⟩ | ⟨hx, -⟩
      · rw [hx] at hmap
        cases hmap
      · rw [hx] at hmap
        exact (Except.error.inj hmap).symm
  | checkAlloc len =>
    obtain ⟨y, c, hy, -⟩ := checkLoop_eq len hb.startOver.1 (by omega : 2 ≤ fuel)
    have hmap : (checkLoop len fuel (startOver b)).map (fun x => (x.2, some [])) = .error x := h
    rw [hy] at hmap
    cases hmap
  | clear => cases h
  | getRet len => cases h
  | get len => exact horFatal h
  | consumeRet bytes => cases h
  | consume bytes => exact horFatal h
  | consumeEndRet bytes => cases h
  | consumeEnd bytes => exact horFatal h

end Valid

/-! ## Runs -/

/-- **Buffers are queues of bytes.**  Calls on a new buffer never restart more than twice.  As long
as none of them is fatal, they hand out what a queue hands out and the data is that of the queue,
`offset <= end < alloc <= BUFFER_MAX_LEN`, and `buffer_check_alloc` says of every chunk whether
`buffer_append_space` is going to call `fatal`. -/
theorem buffer_refines_queue (mem : ℕ → UInt8) {fuel : ℕ} (hfuel : 3 ≤ fuel)
    (calls : List BufferCall) :
    Machine.run (bufferStep fuel) (bufferInit mem) calls ≠ .error .restarts ∧
    ∀ b replies, Machine.run (bufferStep fuel) (bufferInit mem) calls = .ok (b, replies) →
      Queue.run [] (calls.map BufferCall.op) = (b.bytes, replies) ∧
      bufferLen b = b.bytes.length ∧
      (b.offset ≤ b.ends ∧ b.ends < b.alloc ∧ b.alloc ≤ bufferMaxLen) ∧
      ∀ len ≤ bufferMaxChunk,
        bufferAppendSpace fuel b len ≠ .error .restarts ∧
        (∃ answer c, bufferCheckAlloc fuel b len = .ok (answer, c) ∧
          (answer = true ↔ bufferAppendSpace fuel b len ≠ .error .fatal)) := by
  have hstep := bufferStep_refines hfuel
  have hinit := valid_bufferInit mem
  constructor
  · intro h
    have hfatal : Stop.restarts = Stop.fatal :=
      Machine.run_error hstep (bufferStep_error hfuel) hinit h
    cases hfatal
  · intro b replies h
    obtain ⟨hb, hqueue⟩ := Machine.run_refines hstep hinit h
    refine ⟨hqueue, hb.bufferLen_eq, ⟨hb.offset_le, hb.ends_lt, hb.alloc_le⟩, fun len hlen => ?_⟩
    rcases bufferAppendSpace_checkAlloc hb hlen hfuel with ⟨c, d, -, hx, hy⟩ | ⟨hx, d, hy⟩
    · rw [hx, hy]
      exact ⟨(fun h => nomatch h), true, d, rfl, (fun _ h => nomatch h), fun _ => rfl⟩
    · rw [hx, hy]
      exact ⟨(fun h => nomatch h), false, d, rfl, (fun h => nomatch h), fun h => absurd rfl h⟩

/-- What three bytes in and two out leave, after the last one has been taken back. -/
def shortBuffer : Buffer :=
  { buf := store (fun _ => 0) 0 [1, 2, 3], alloc := 4096, offset := 2, ends := 2 }

/-- The request for two more bytes fails. -/
theorem buffer_refines_queue_short :
    Machine.run (bufferStep 3) (bufferInit fun _ => 0)
        [.append [1, 2, 3], .getRet 2, .consumeRet 2, .consumeEnd 1] =
          .ok (shortBuffer, [some [], some [1, 2], none, some []]) ∧
      Queue.run [] [.push [1, 2, 3], .pop 2, .skip 2, .skipEnd 1] =
        (shortBuffer.bytes, [some [], some [1, 2], none, some []]) ∧
      (bufferAppendSpace 3 shortBuffer 5000 ≠ .error .restarts ∧
        ∃ answer c, bufferCheckAlloc 3 shortBuffer 5000 = .ok (answer, c) ∧
          (answer = true ↔ bufferAppendSpace 3 shortBuffer 5000 ≠ .error .fatal)) := by
  have hrun : Machine.run (bufferStep 3) (bufferInit fun _ => 0)
      [.append [1, 2, 3], .getRet 2, .consumeRet 2, .consumeEnd 1] =
        .ok (shortBuffer, [some [], some [1, 2], none, some []]) := rfl
  have h := (buffer_refines_queue (fun _ => 0) (le_refl 3)
    [.append [1, 2, 3], .getRet 2, .consumeRet 2, .consumeEnd 1]).2 _ _ hrun
  exact ⟨hrun, h.1, h.2.2.2 5000 (by rw [bufferMaxChunk_eq]; omega)⟩

end CSBuFLO
