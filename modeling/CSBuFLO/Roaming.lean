/-
# Resending after a reconnect (`roaming_common.c`)

With roaming, bytes that were written to a connection are kept in a ring, `out_buf`, so that they
can be sent again over the next connection.  The peer says how many bytes it has received; the rest
of the stream is sent by `resend_bytes`.

The ring is created by `set_out_buffer_size` in the course of a session and is not initialised: a
cell that `buf_append` has not stored is `none`.  The two indices do not tell an empty ring from a
full one.  `resend_sent_bytes_iff` says for which fill levels and offsets only bytes of the stream
are sent: not when nothing has been stored yet, and not when the part before the end of the ring
does not fit an `int`.
-/
import CSBuFLO.Misc
import CSBuFLO.Ring
import CSBuFLO.Transition

namespace CSBuFLO

/-! ## The ring -/

/-- The statics of `roaming_common.c`. -/
structure Roaming where
  outBufSize : ℕ := 0
  /-- `out_buf != NULL`. -/
  allocated : Bool := false
  outBuf : ℕ → Option UInt8 := fun _ => none
  outStart : ℕ := 0
  outLast : ℕ := 0
  writeBytes : ℕ := 0

/-- `memcpy` of stored bytes to a cell of the ring. -/
def copyCells (arr : ℕ → Option UInt8) (dst : ℕ) (buf : List UInt8) (i : ℕ) : Option UInt8 :=
  if dst ≤ i ∧ i < dst + buf.length then buf[i - dst]? else arr i

/-- `set_out_buffer_size`.  `xmalloc` calls `fatal` for a size of 0, and for sizes above
`PTRDIFF_MAX`, which `malloc` refuses. -/
def setOutBufferSize (size : ℕ) (s : Roaming) : Option Roaming :=
  if s.allocated then some s
  else if size = 0 ∨ 2 ^ 63 ≤ size then none
  else some { s with
    outBufSize := size
    allocated := true
    outBuf := fun _ => none
    outStart := 0
    outLast := 0 }

/-- `buf_append`. -/
def bufAppend (buf : List UInt8) (s : Roaming) : Roaming :=
  let buf := if buf.length > s.outBufSize then buf.drop (buf.length - s.outBufSize) else buf
  if buf.length < s.outBufSize - s.outLast then
    { s with
      outBuf := copyCells s.outBuf s.outLast buf
      outStart := if s.outStart > s.outLast then s.outStart + buf.length else s.outStart
      outLast := s.outLast + buf.length }
  else
    -- data will wrap
    let chunk := s.outBufSize - s.outLast
    { s with
      outBuf := copyCells (copyCells s.outBuf s.outLast (buf.take chunk)) 0 (buf.drop chunk)
      outLast := buf.length - chunk
      outStart := buf.length - chunk + 1 }

/-- `roaming_write`, where `write` has accepted some bytes (none if it failed). -/
def roamingWrite (resumeInProgress : Bool) (accepted : List UInt8) (s : Roaming) : Roaming :=
  if accepted ≠ [] ∧ resumeInProgress = false then
    let s := { s with writeBytes := (s.writeBytes + accepted.length) % 2 ^ 64 }
    if s.outBufSize > 0 then bufAppend accepted s else s
  else s

/-- `len` cells from `out_buf + start` on; outside the ring nothing is stored. -/
def Roaming.read (s : Roaming) (start : ℤ) (len : ℕ) : List (Option UInt8) :=
  (List.range len).map fun k : ℕ =>
    if 0 ≤ start + k ∧ start + k < s.outBufSize then s.outBuf (start + k).toNat else none

/-- `needed`: a difference of two 64-bit numbers. -/
def needed (s : Roaming) (offset : UInt64) : ℕ := (s.writeBytes + 2 ^ 64 - offset.toNat) % 2 ^ 64

/-- What `resend_bytes` does. -/
inductive Resend where
  | fatal
  | wrote (cells : List (Option UInt8))
  deriving DecidableEq

/-- `available`: how much `resend_bytes` takes to be in the ring. -/
def Roaming.available (s : Roaming) : ℕ :=
  if s.outStart < s.outLast then s.outLast - s.outStart else s.outBufSize

/-- `resend_bytes`. -/
def resendBytes (s : Roaming) (offset : UInt64) : Resend :=
  let needed := needed s offset
  if needed > s.available then .fatal
  else if s.outLast < needed then
    -- an `int`, which `atomicio` takes as a `size_t`
    let chunkend := toInt (needed - s.outLast)
    .wrote (s.read (s.outBufSize - chunkend) (chunkend % 2 ^ 64).toNat ++ s.read 0 s.outLast)
  else .wrote (s.read (s.outLast - needed) needed)

/-! ## Runs -/

/-- What happens between two connections. -/
inductive RoamEvent where
  | write (resumeInProgress : Bool) (accepted : List UInt8)
  | setOutBufferSize (size : ℕ)

/-- One event; `none` is `fatal`. -/
def roamStep (s : Roaming) : RoamEvent → Option Roaming
  | .write resumeInProgress accepted => some (roamingWrite resumeInProgress accepted s)
  | .setOutBufferSize size => setOutBufferSize size s

/-- The stream accepted by `roaming_write`, and the part of it that was passed to `buf_append`. -/
structure RoamLog where
  stream : List UInt8 := []
  stored : List UInt8 := []

/-- The log after an event. -/
def roamLog (s : Roaming) (ev : RoamEvent) (_ : Roaming) (l : RoamLog) : RoamLog :=
  match ev with
  | .write false accepted =>
    { stream := l.stream ++ accepted
      stored := if s.outBufSize > 0 then l.stored ++ accepted else l.stored }
  | _ => l

/-! ## What the ring holds -/

/-- The ring holds the last bytes that were stored.  Until it wraps it starts at 0; from then on it
starts behind its end. -/
structure RoamInv (s : Roaming) (l : RoamLog) : Prop where
  bytes : s.writeBytes = l.stream.length % 2 ^ 64
  suffix : l.stored <:+ l.stream
  unallocated : s.allocated = false → s.outBufSize = 0 ∧ l.stored = []
  size : s.allocated = true → 0 < s.outBufSize ∧ s.outBufSize < 2 ^ 63
  last : s.outLast < s.outBufSize ∨ s.outBufSize = 0 ∧ s.outLast = 0
  plain : l.stored.length < s.outBufSize → s.outStart = 0 ∧ s.outLast = l.stored.length
  wrapped : 0 < s.outBufSize → s.outBufSize ≤ l.stored.length → s.outStart = s.outLast + 1
  contents : Ring.last s.outBufSize s.outBuf s.outLast (min l.stored.length s.outBufSize) =
    (l.stored.reverse.take s.outBufSize).map some

theorem roamInv_init : RoamInv {} {} where
  bytes := rfl
  suffix := List.suffix_refl _
  unallocated := fun _ => ⟨rfl, rfl⟩
  size := fun h => nomatch h
  last := Or.inr ⟨rfl, rfl⟩
  plain := fun h => absurd h (Nat.not_lt_zero _)
  wrapped := fun h => absurd h (Nat.lt_irrefl _)
  contents := rfl

variable {l : RoamLog} {s : Roaming}

theorem RoamInv.setOutBufferSize {s' : Roaming} {size : ℕ} (h : RoamInv s l)
    (hs : setOutBufferSize size s = some s') : RoamInv s' l := by
  unfold CSBuFLO.setOutBufferSize at hs
  split_ifs at hs with hthere hsize
  · rw [← Option.some.inj hs]
    exact h
  · obtain ⟨-, hstored⟩ := h.unallocated (Bool.eq_false_of_not_eq_true hthere)
    obtain ⟨hpos, hmax⟩ := not_or.mp hsize
    rw [← Option.some.inj hs]
    constructor
    case bytes => exact h.bytes
    case suffix => exact h.suffix
    case unallocated => exact fun hno => nomatch hno
    case size => exact fun _ => ⟨Nat.pos_of_ne_zero hpos, not_le.mp hmax⟩
    case last => exact Or.inl (Nat.pos_of_ne_zero hpos)
    case plain =>
      intro _
      rw [hstored]
      exact ⟨rfl, rfl⟩
    case wrapped =>
      intro _ hle
      rw [hstored] at hle
      exact absurd (Nat.le_zero.mp hle) hpos
    case contents =>
      rw [hstored]
      simp [Ring.last]

/-! ### Storing bytes -/

theorem copyCells_of_mem {arr : ℕ → Option UInt8} {dst i : ℕ} {buf : List UInt8} (hle : dst ≤ i)
    (hlt : i < dst + buf.length) : copyCells arr dst buf i = buf[i - dst]? :=
  if_pos ⟨hle, hlt⟩

theorem copyCells_of_not_mem {arr : ℕ → Option UInt8} {dst i : ℕ} {buf : List UInt8}
    (h : i < dst ∨ dst + buf.length ≤ i) : copyCells arr dst buf i = arr i :=
  if_neg (by omega)

theorem getElem_reverse_map_some {buf : List UInt8} {d : ℕ}
    (hd : d < (buf.map some).reverse.length) :
    (buf.map some).reverse[d] = buf[buf.length - 1 - d]? := by
  simp only [List.length_reverse, List.length_map] at hd
  simp only [List.getElem_reverse, List.getElem_map, List.length_map]
  exact (List.getElem?_eq_getElem (by omega)).symm

section Block

variable {s : Roaming} {buf : List UInt8}

/-- A block that is stored behind the others. -/
theorem last_copyCells (s : Roaming) (buf : List UInt8) (k : ℕ) :
    Ring.last s.outBufSize (copyCells s.outBuf s.outLast buf) (s.outLast + buf.length)
        (min (k + buf.length) s.outBufSize) =
      ((buf.map some).reverse ++ Ring.last s.outBufSize s.outBuf s.outLast k).take
        s.outBufSize := by
  have hblock := Ring.last_append (n := s.outBufSize) (i := s.outLast) (k := k)
    (j := s.outLast + buf.length) s.outBuf (copyCells s.outBuf s.outLast buf) (buf.map some)
  rw [List.length_map] at hblock
  refine hblock (fun d hd => ?_) fun d hd => ?_
  · rw [getElem_reverse_map_some hd]
    rw [List.length_reverse, List.length_map] at hd
    have hcell : Ring.cell s.outBufSize (s.outLast + buf.length) d =
        s.outLast + buf.length - 1 - d := if_pos (by omega)
    rw [hcell, copyCells_of_mem (by omega) (by omega)]
    congr 1
    omega
  · have hcell : Ring.cell s.outBufSize (s.outLast + buf.length) (buf.length + d) =
        Ring.cell s.outBufSize s.outLast d := by
      unfold Ring.cell
      split_ifs <;> omega
    rw [hcell, copyCells_of_not_mem]
    unfold Ring.cell
    split_ifs <;> omega

/-- A block that wraps. -/
theorem last_copyCells_wrap (hlast : s.outLast < s.outBufSize)
    (hwrap : s.outBufSize - s.outLast ≤ buf.length) (hlen : buf.length ≤ s.outBufSize) (k : ℕ) :
    Ring.last s.outBufSize
        (copyCells (copyCells s.outBuf s.outLast (buf.take (s.outBufSize - s.outLast))) 0
          (buf.drop (s.outBufSize - s.outLast)))
        (buf.length - (s.outBufSize - s.outLast)) (min (k + buf.length) s.outBufSize) =
      ((buf.map some).reverse ++ Ring.last s.outBufSize s.outBuf s.outLast k).take
        s.outBufSize := by
  have hblock := Ring.last_append (n := s.outBufSize) (i := s.outLast) (k := k)
    (j := buf.length - (s.outBufSize - s.outLast)) s.outBuf
    (copyCells (copyCells s.outBuf s.outLast (buf.take (s.outBufSize - s.outLast))) 0
      (buf.drop (s.outBufSize - s.outLast))) (buf.map some)
  have htake : (buf.take (s.outBufSize - s.outLast)).length = s.outBufSize - s.outLast := by
    rw [List.length_take]
    omega
  have hdrop : (buf.drop (s.outBufSize - s.outLast)).length =
      buf.length - (s.outBufSize - s.outLast) := List.length_drop
  rw [List.length_map] at hblock
  refine hblock (fun d hd => ?_) fun d hd => ?_
  · rw [getElem_reverse_map_some hd]
    rw [List.length_reverse, List.length_map] at hd
    by_cases hfirst : d < buf.length - (s.outBufSize - s.outLast)
    · -- at the beginning of the ring
      have hcell : Ring.cell s.outBufSize (buf.length - (s.outBufSize - s.outLast)) d =
          buf.length - (s.outBufSize - s.outLast) - 1 - d := if_pos hfirst
      rw [hcell, copyCells_of_mem (Nat.zero_le _) (by omega), List.getElem?_drop]
      congr 1
      omega
    · have hcell : Ring.cell s.outBufSize (buf.length - (s.outBufSize - s.outLast)) d =
          s.outBufSize + (buf.length - (s.outBufSize - s.outLast)) - 1 - d := if_neg hfirst
      rw [hcell, copyCells_of_not_mem (by omega), copyCells_of_mem (by omega) (by omega),
        List.getElem?_take_of_lt (by omega)]
      congr 1
      omega
  · have hcell : Ring.cell s.outBufSize (buf.length - (s.outBufSize - s.outLast))
        (buf.length + d) = s.outLast - 1 - d := by
      unfold Ring.cell
      split_ifs <;> omega
    have hcell' : Ring.cell s.outBufSize s.outLast d = s.outLast - 1 - d := if_pos (by omega)
    rw [hcell, hcell', copyCells_of_not_mem (by omega), copyCells_of_not_mem (by omega)]

/-- What `buf_append` takes of a write. -/
def cutToSize (buf : List UInt8) (size : ℕ) : List UInt8 :=
  if buf.length > size then buf.drop (buf.length - size) else buf

theorem length_cutToSize (buf : List UInt8) (size : ℕ) :
    (cutToSize buf size).length = min buf.length size := by
  unfold cutToSize
  split
  · rw [List.length_drop]
    omega
  · omega

theorem reverse_cutToSize (buf : List UInt8) (size : ℕ) :
    (cutToSize buf size).reverse = buf.reverse.take size := by
  unfold cutToSize
  split
  · rw [List.take_reverse]
  · rw [List.take_of_length_le]
    rw [List.length_reverse]
    omega

/-- **The two ways of `buf_append`**: the bytes are stored behind the others, or they wrap. -/
theorem bufAppend_cases (s : Roaming) (buf : List UInt8) {block : List UInt8}
    (hblock : cutToSize buf s.outBufSize = block) :
    (block.length < s.outBufSize - s.outLast ∧ bufAppend buf s = { s with
      outBuf := copyCells s.outBuf s.outLast block
      outStart := if s.outStart > s.outLast then s.outStart + block.length else s.outStart
      outLast := s.outLast + block.length }) ∨
    (s.outBufSize - s.outLast ≤ block.length ∧ bufAppend buf s = { s with
      outBuf := copyCells (copyCells s.outBuf s.outLast (block.take (s.outBufSize - s.outLast))) 0
        (block.drop (s.outBufSize - s.outLast))
      outLast := block.length - (s.outBufSize - s.outLast)
      outStart := block.length - (s.outBufSize - s.outLast) + 1 }) := by
  subst hblock
  rcases Nat.lt_or_ge (cutToSize buf s.outBufSize).length (s.outBufSize - s.outLast) with hlt | hge
  · exact Or.inl ⟨hlt, if_pos hlt⟩
  · exact Or.inr ⟨hge, if_neg (not_lt.mpr hge)⟩

/-- **`buf_append` puts the bytes in front of what the ring holds**, of which the last ones are
kept. -/
theorem last_bufAppend (hlast : s.outLast < s.outBufSize) (buf : List UInt8) (k : ℕ) :
    Ring.last s.outBufSize (bufAppend buf s).outBuf (bufAppend buf s).outLast
        (min (k + (cutToSize buf s.outBufSize).length) s.outBufSize) =
      (((cutToSize buf s.outBufSize).map some).reverse ++
        Ring.last s.outBufSize s.outBuf s.outLast k).take s.outBufSize := by
  have hlength := length_cutToSize buf s.outBufSize
  generalize hblock : cutToSize buf s.outBufSize = block at hlength ⊢
  rcases bufAppend_cases s buf hblock with ⟨-, heq⟩ | ⟨hwrap, heq⟩
  · rw [heq]
    exact last_copyCells s block k
  · rw [heq]
    exact last_copyCells_wrap hlast hwrap (by omega) k

/-- The indices after `buf_append`, when `n` bytes have been stored before. -/
theorem indices_bufAppend {n : ℕ} (hlast : s.outLast < s.outBufSize)
    (hplain : n < s.outBufSize → s.outStart = 0 ∧ s.outLast = n)
    (hwrapped : s.outBufSize ≤ n → s.outStart = s.outLast + 1) (buf : List UInt8) :
    (bufAppend buf s).outLast < s.outBufSize ∧
      (n + buf.length < s.outBufSize →
        (bufAppend buf s).outStart = 0 ∧ (bufAppend buf s).outLast = n + buf.length) ∧
      (s.outBufSize ≤ n + buf.length →
        (bufAppend buf s).outStart = (bufAppend buf s).outLast + 1) := by
  have hlength := length_cutToSize buf s.outBufSize
  generalize hblock : cutToSize buf s.outBufSize = block at hlength
  rcases bufAppend_cases s buf hblock with ⟨hfits, heq⟩ | ⟨hwrap, heq⟩
  · rw [heq]
    dsimp only
    refine ⟨by omega, fun hlt => ?_, fun hge => ?_⟩
    · obtain ⟨hstart, hend⟩ := hplain (by omega)
      rw [hstart, if_neg (Nat.not_lt_zero _)]
      exact ⟨rfl, by omega⟩
    · -- it has wrapped before
      have hstart := hwrapped (by
        by_contra hlt
        have hend := (hplain (by omega)).2
        omega)
      rw [if_pos (by omega)]
      omega
  · rw [heq]
    dsimp only
    refine ⟨by omega, fun hlt => ?_, fun _ => rfl⟩
    have hend := (hplain (by omega)).2
    omega

end Block

theorem bufAppend_frame (buf : List UInt8) (s : Roaming) :
    (bufAppend buf s).outBufSize = s.outBufSize ∧ (bufAppend buf s).allocated = s.allocated ∧
      (bufAppend buf s).writeBytes = s.writeBytes := by
  rcases bufAppend_cases s buf rfl with ⟨-, heq⟩ | ⟨-, heq⟩
  · rw [heq]
    exact ⟨rfl, rfl, rfl⟩
  · rw [heq]
    exact ⟨rfl, rfl, rfl⟩

/-- Two lists cut to a size before and after they are put together. -/
theorem take_append_take {α : Type} (a b : List α) (n : ℕ) :
    (a.take n ++ b.take n).take n = (a ++ b).take n := by
  rw [List.take_append, List.take_take, Nat.min_self, List.length_take, List.take_take,
    List.take_append]
  rcases Nat.le_total n a.length with hle | hle
  · rw [Nat.min_eq_left hle, Nat.sub_self, Nat.zero_min, Nat.sub_eq_zero_of_le hle]
  · rw [Nat.min_eq_right hle, Nat.min_eq_left (Nat.sub_le _ _)]

/-- **Storing the bytes of a write keeps the invariant.** -/
theorem RoamInv.bufAppend (h : RoamInv s l) (hpos : 0 < s.outBufSize) (accepted : List UInt8)
    {w : ℕ} (hw : w = (l.stream ++ accepted).length % 2 ^ 64) :
    RoamInv (bufAppend accepted { s with writeBytes := w })
      { stream := l.stream ++ accepted, stored := l.stored ++ accepted } := by
  have hlast : s.outLast < s.outBufSize :=
    h.last.resolve_right fun hno => (Nat.ne_of_gt hpos) hno.1
  have hlast' := indices_bufAppend (s := { s with writeBytes := w }) hlast h.plain
    (h.wrapped hpos) accepted
  have hcontents := last_bufAppend (s := { s with writeBytes := w }) hlast accepted
    (min l.stored.length s.outBufSize)
  have hlength := length_cutToSize accepted s.outBufSize
  have hreverse := reverse_cutToSize accepted s.outBufSize
  obtain ⟨hsize, halloc, hbytes⟩ := bufAppend_frame accepted { s with writeBytes := w }
  dsimp only at hlast' hcontents hsize halloc hbytes
  generalize CSBuFLO.bufAppend accepted { s with writeBytes := w } = s' at *
  rw [← List.length_append] at hlast'
  obtain ⟨hindex, hplain, hwrapped⟩ := hlast'
  constructor
  case bytes => exact hbytes.trans hw
  case suffix =>
    obtain ⟨pre, hpre⟩ := h.suffix
    refine ⟨pre, ?_⟩
    rw [← hpre, List.append_assoc]
  case unallocated =>
    intro hno
    rw [halloc] at hno
    exact absurd (h.unallocated hno).1 (Nat.ne_of_gt hpos)
  case size =>
    intro hyes
    rw [halloc] at hyes
    rw [hsize]
    exact h.size hyes
  case last => exact Or.inl (hsize ▸ hindex)
  case plain =>
    rw [hsize]
    exact hplain
  case wrapped =>
    rw [hsize]
    exact fun _ => hwrapped
  case contents =>
    have hmin : min (min l.stored.length s.outBufSize + min accepted.length s.outBufSize)
        s.outBufSize = min (l.stored ++ accepted).length s.outBufSize := by
      rw [List.length_append]
      omega
    rw [hlength, hmin, h.contents, ← List.map_reverse, hreverse, ← List.map_append, ← List.map_take,
      take_append_take, ← List.reverse_append] at hcontents
    rw [hsize]
    exact hcontents

/-- **`roaming_write` keeps the invariant.** -/
theorem RoamInv.write (h : RoamInv s l) (resumeInProgress : Bool) (accepted : List UInt8) :
    RoamInv (roamingWrite resumeInProgress accepted s)
      (roamLog s (.write resumeInProgress accepted) (roamingWrite resumeInProgress accepted s)
        l) := by
  cases resumeInProgress with
  | true =>
    have hsame : roamingWrite true accepted s = s := if_neg fun hno => nomatch hno.2
    rw [hsame]
    exact h
  | false =>
    have hbytes : (s.writeBytes + accepted.length) % 2 ^ 64 =
        (l.stream ++ accepted).length % 2 ^ 64 := by
      rw [h.bytes, Nat.mod_add_mod, List.length_append]
    by_cases hnil : accepted = []
    · have hsame : roamingWrite false accepted s = s := if_neg fun hno => hno.1 hnil
      rw [hsame, hnil]
      unfold roamLog
      simp only [List.append_nil, ite_self]
      exact h
    · by_cases hsize : s.outBufSize > 0
      · have hstore : roamingWrite false accepted s = CSBuFLO.bufAppend accepted
            { s with writeBytes := (s.writeBytes + accepted.length) % 2 ^ 64 } := by
          unfold roamingWrite
          rw [if_pos ⟨hnil, rfl⟩]
          exact if_pos hsize
        have hlog : roamLog s (.write false accepted) (roamingWrite false accepted s) l =
            { stream := l.stream ++ accepted, stored := l.stored ++ accepted } := by
          unfold roamLog
          dsimp only
          rw [if_pos hsize]
        rw [hlog, hstore]
        exact h.bufAppend hsize accepted hbytes
      · have hcount : roamingWrite false accepted s =
            { s with writeBytes := (s.writeBytes + accepted.length) % 2 ^ 64 } := by
          unfold roamingWrite
          rw [if_pos ⟨hnil, rfl⟩]
          exact if_neg hsize
        have hlog : roamLog s (.write false accepted) (roamingWrite false accepted s) l =
            { stream := l.stream ++ accepted, stored := l.stored } := by
          unfold roamLog
          dsimp only
          rw [if_neg hsize]
        have halloc : s.allocated = false := by
          by_contra hyes
          exact hsize (h.size (Bool.eq_true_of_not_eq_false hyes)).1
        have hsuffix : l.stored <:+ l.stream ++ accepted := by
          rw [(h.unallocated halloc).2]
          exact List.nil_suffix
        rw [hlog, hcount]
        exact ⟨hbytes, hsuffix, h.unallocated, h.size, h.last, h.plain, h.wrapped, h.contents⟩

/-- **Every run keeps the invariant.** -/
theorem roamInv_run {es : List RoamEvent}
    (h : Transition.run (Transition.logStep roamStep roamLog) ({}, {}) es = some (s, l)) :
    RoamInv s l := by
  refine Transition.inv_run (I := fun x : Roaming × RoamLog => RoamInv x.1 x.2) ?_ h roamInv_init
  rintro ⟨s, l⟩ ev ⟨s', l'⟩ hinv hstep
  obtain ⟨hs, rfl⟩ := Transition.logStep_eq_some.mp hstep
  cases ev with
  | write resumeInProgress accepted =>
    obtain rfl := Option.some.inj hs
    exact hinv.write resumeInProgress accepted
  | setOutBufferSize size => exact hinv.setOutBufferSize hs

/-! ## Resending -/

/-- `resend_bytes` calls `fatal`, or it sends the last `needed` bytes of the stream, and all of
these were stored. -/
def ResendsSent (l : RoamLog) (needed : ℕ) (r : Resend) : Prop :=
  r = .fatal ∨ needed ≤ l.stored.length ∧
    r = .wrote ((l.stream.drop (l.stream.length - needed)).map some)

/-- What the ring has to hold: something has been stored, or nothing is to be sent, or more than
fits the ring; and once the ring is full the part before its end fits an `int`. -/
def Resendable (s : Roaming) (l : RoamLog) (needed : ℕ) : Prop :=
  s.allocated = true →
    (l.stored = [] → needed = 0 ∨ s.outBufSize < needed) ∧
    (s.outBufSize ≤ l.stored.length → needed ≤ s.outBufSize → needed < s.outLast + 2 ^ 31)

/-- Reading cells of the ring. -/
theorem read_eq {start len : ℕ} (h : start + len ≤ s.outBufSize) :
    s.read start len = (List.range len).map fun k => s.outBuf (start + k) := by
  unfold Roaming.read
  refine List.map_congr_left fun k hk => ?_
  rw [List.mem_range] at hk
  rw [if_pos (by omega)]
  congr 1

theorem length_read (s : Roaming) (start : ℤ) (len : ℕ) : (s.read start len).length = len := by
  unfold Roaming.read
  rw [List.length_map, List.length_range]

/-- The cells before the end of the ring and those at its beginning, or the cells before the next
one: both are the last entries of the ring. -/
theorem read_last {n : ℕ} (hlast : s.outLast < s.outBufSize) (hn : n ≤ s.outBufSize) :
    (if s.outLast < n then
        s.read ((s.outBufSize - (n - s.outLast) : ℕ) : ℤ) (n - s.outLast) ++
          s.read (0 : ℕ) s.outLast
      else s.read ((s.outLast - n : ℕ) : ℤ) n) =
      (Ring.last s.outBufSize s.outBuf s.outLast n).reverse := by
  split
  · rename_i hwrap
    rw [read_eq (by omega), read_eq (by omega)]
    refine List.ext_getElem (by simp; omega) fun d hd hd' => ?_
    rw [List.getElem_reverse, Ring.getElem_last, Ring.length_last]
    simp only [List.length_append, List.length_map, List.length_range] at hd
    by_cases hfirst : d < n - s.outLast
    · rw [List.getElem_append_left (by simpa using hfirst), List.getElem_map, List.getElem_range]
      congr 1
      unfold Ring.cell
      split <;> omega
    · rw [List.getElem_append_right (by simpa using hfirst), List.getElem_map, List.getElem_range,
        List.length_map, List.length_range]
      congr 1
      unfold Ring.cell
      split <;> omega
  · rw [read_eq (by omega)]
    refine List.ext_getElem (by simp) fun d hd hd' => ?_
    rw [List.getElem_reverse, Ring.getElem_last, Ring.length_last, List.getElem_map,
      List.getElem_range]
    rw [List.length_map, List.length_range] at hd
    congr 1
    unfold Ring.cell
    split <;> omega

/-- The last entries of the ring are the last bytes of the stream. -/
theorem RoamInv.last_eq (h : RoamInv s l) {n : ℕ} (hsize : n ≤ s.outBufSize)
    (hstored : n ≤ l.stored.length) :
    (Ring.last s.outBufSize s.outBuf s.outLast n).reverse =
      (l.stream.drop (l.stream.length - n)).map some := by
  obtain ⟨pre, hpre⟩ := h.suffix
  rw [← Ring.take_last s.outBuf (Nat.le_min.mpr ⟨hstored, hsize⟩), h.contents, ← List.map_take,
    List.take_take, Nat.min_eq_left hsize, List.take_reverse, ← List.map_reverse,
    List.reverse_reverse, ← hpre, List.length_append, List.drop_append]
  have hsub : pre.length + l.stored.length - n - pre.length = l.stored.length - n := by omega
  rw [List.drop_of_length_le (l := pre) (by omega), List.nil_append, hsub]

section Resend

variable {s : Roaming} {offset : UInt64}

theorem resendBytes_of_lt (h : s.available < needed s offset) : resendBytes s offset = .fatal :=
  if_pos h

/-- What is sent, if the part before the end of the ring fits an `int`. -/
theorem resendBytes_eq (hlast : s.outLast < s.outBufSize) (havail : needed s offset ≤ s.available)
    (hsize : needed s offset ≤ s.outBufSize) (hint : needed s offset < s.outLast + 2 ^ 31) :
    resendBytes s offset =
      .wrote (Ring.last s.outBufSize s.outBuf s.outLast (needed s offset)).reverse := by
  unfold resendBytes
  dsimp only
  rw [if_neg (not_lt.mpr havail), ← read_last hlast hsize]
  split
  · rename_i hwrap
    have hchunk : toInt ((needed s offset : ℤ) - s.outLast) =
        ((needed s offset - s.outLast : ℕ) : ℤ) := by
      rw [toInt_of_lt (by omega) (by omega)]
      omega
    have hlen : (((needed s offset - s.outLast : ℕ) : ℤ) % 2 ^ 64).toNat =
        needed s offset - s.outLast := by
      rw [Int.emod_eq_of_lt (by omega) (by omega)]
      omega
    have hstart : (s.outBufSize : ℤ) - ((needed s offset - s.outLast : ℕ) : ℤ) =
        ((s.outBufSize - (needed s offset - s.outLast) : ℕ) : ℤ) := by
      omega
    rw [hchunk, hlen, hstart]
    rfl
  · have hstart : (s.outLast : ℤ) - needed s offset = ((s.outLast - needed s offset : ℕ) : ℤ) := by
      omega
    rw [hstart]

/-- What is sent has another length if that part does not fit an `int`. -/
theorem length_resendBytes (havail : needed s offset ≤ s.available)
    (hmax : needed s offset < 2 ^ 63) (hint : s.outLast + 2 ^ 31 ≤ needed s offset) :
    ∃ cells, resendBytes s offset = .wrote cells ∧ cells.length ≠ needed s offset := by
  unfold resendBytes
  dsimp only
  rw [if_neg (not_lt.mpr havail), if_pos (by omega)]
  refine ⟨_, rfl, ?_⟩
  rw [List.length_append, length_read, length_read]
  have hlow : -2 ^ 31 ≤ toInt ((needed s offset : ℤ) - s.outLast) := by
    have := Int.le_bmod (x := (needed s offset : ℤ) - s.outLast) (m := 2 ^ 32) (by norm_num)
    unfold toInt
    omega
  have hhigh : toInt ((needed s offset : ℤ) - s.outLast) < 2 ^ 31 := by
    have := Int.bmod_lt (x := (needed s offset : ℤ) - s.outLast) (m := 2 ^ 32) (by norm_num)
    unfold toInt
    omega
  generalize toInt ((needed s offset : ℤ) - s.outLast) = chunkend at hlow hhigh
  omega

/-- Nothing is sent before there is a ring. -/
theorem RoamInv.resend_unallocated (h : RoamInv s l) (halloc : s.allocated = false) :
    ResendsSent l (needed s offset) (resendBytes s offset) := by
  have hsize := (h.unallocated halloc).1
  have hlast : s.outLast = 0 := by
    rcases h.last with hlt | ⟨-, hzero⟩
    · omega
    · exact hzero
  have havail : s.available = 0 := by
    unfold Roaming.available
    rw [hlast, if_neg (Nat.not_lt_zero _), hsize]
  rcases Nat.eq_zero_or_pos (needed s offset) with hzero | hpos
  · refine Or.inr ⟨hzero ▸ Nat.zero_le _, ?_⟩
    unfold resendBytes
    dsimp only
    rw [hzero, if_neg (Nat.not_lt_zero _), if_neg (Nat.not_lt_zero _), Nat.sub_zero,
      List.drop_length]
    rfl
  · exact Or.inl (resendBytes_of_lt (by omega))

/-- The ring holds what is needed. -/
theorem RoamInv.resend_stored (h : RoamInv s l) (hlast : s.outLast < s.outBufSize)
    (havail : needed s offset ≤ s.available) (hsize : needed s offset ≤ s.outBufSize)
    (hint : needed s offset < s.outLast + 2 ^ 31) (hstored : needed s offset ≤ l.stored.length) :
    ResendsSent l (needed s offset) (resendBytes s offset) := by
  refine Or.inr ⟨hstored, ?_⟩
  rw [resendBytes_eq hlast havail hsize hint, h.last_eq hsize hstored]

/-- An empty ring is taken for a full one. -/
theorem RoamInv.resend_empty (h : RoamInv s l) (hpos : 0 < s.outBufSize) (hnil : l.stored = []) :
    ResendsSent l (needed s offset) (resendBytes s offset) ↔
      needed s offset = 0 ∨ s.outBufSize < needed s offset := by
  obtain ⟨hstart, hend⟩ := h.plain (by rw [hnil]; exact hpos)
  rw [hnil, List.length_nil] at hend
  have havail : s.available = s.outBufSize := by
    unfold Roaming.available
    rw [hend, if_neg (Nat.not_lt_zero _)]
  constructor
  · rintro (hfatal | ⟨hle, -⟩)
    · right
      by_contra hle
      unfold resendBytes at hfatal
      dsimp only at hfatal
      rw [if_neg (by omega)] at hfatal
      split at hfatal <;> cases hfatal
    · rw [hnil] at hle
      exact Or.inl (Nat.le_zero.mp hle)
  · rintro (hzero | hlt)
    · exact h.resend_stored (by omega) (by omega) (by omega) (by omega) (by omega)
    · exact Or.inl (resendBytes_of_lt (by omega))

/-- A ring that has not wrapped knows what it holds. -/
theorem RoamInv.resend_plain (h : RoamInv s l) (hne : l.stored ≠ [])
    (hlt : l.stored.length < s.outBufSize) :
    ResendsSent l (needed s offset) (resendBytes s offset) := by
  have hlength : 0 < l.stored.length := List.length_pos_iff.mpr hne
  obtain ⟨hstart, hend⟩ := h.plain hlt
  have havail : s.available = l.stored.length := by
    unfold Roaming.available
    rw [if_pos (by omega)]
    omega
  rcases Nat.lt_or_ge s.available (needed s offset) with hfatal | hle
  · exact Or.inl (resendBytes_of_lt hfatal)
  · exact h.resend_stored (by omega) hle (by omega) (by omega) (by omega)

/-- A full ring holds as many bytes as it has cells. -/
theorem RoamInv.resend_full (h : RoamInv s l) (hpos : 0 < s.outBufSize)
    (hmax : s.outBufSize < 2 ^ 63) (hfull : s.outBufSize ≤ l.stored.length) :
    ResendsSent l (needed s offset) (resendBytes s offset) ↔
      (needed s offset ≤ s.outBufSize → needed s offset < s.outLast + 2 ^ 31) := by
  have hlast : s.outLast < s.outBufSize :=
    h.last.resolve_right fun hno => (Nat.ne_of_gt hpos) hno.1
  have havail : s.available = s.outBufSize := by
    unfold Roaming.available
    rw [h.wrapped hpos hfull, if_neg (by omega)]
  constructor
  · intro hsent hsize
    by_contra hint
    have hle : needed s offset ≤ s.available := hsize.trans havail.ge
    obtain ⟨cells, heq, hlength⟩ := length_resendBytes hle (by omega) (not_lt.mp hint)
    rw [heq] at hsent
    rcases hsent with hfatal | ⟨hstored, hwrote⟩
    · cases hfatal
    · rw [Resend.wrote.inj hwrote, List.length_map, List.length_drop] at hlength
      have hsuffix := h.suffix.length_le
      omega
  · intro hint
    rcases Nat.lt_or_ge s.outBufSize (needed s offset) with hlt | hle
    · exact Or.inl (resendBytes_of_lt (by omega))
    · exact h.resend_stored hlast (by omega) hle (hint hle) (by omega)

end Resend

/-- **Only sent bytes are resent** exactly if the ring has something to resend. -/
theorem resend_sent_bytes_iff {es : List RoamEvent} {s : Roaming} {l : RoamLog}
    (hrun : Transition.run (Transition.logStep roamStep roamLog) ({}, {}) es = some (s, l))
    (offset : UInt64) :
    ResendsSent l (needed s offset) (resendBytes s offset) ↔
      Resendable s l (needed s offset) := by
  have hinv := roamInv_run hrun
  unfold Resendable
  cases halloc : s.allocated with
  | false => exact iff_of_true (hinv.resend_unallocated halloc) (fun hyes => nomatch hyes)
  | true =>
    obtain ⟨hpos, hmax⟩ := hinv.size halloc
    by_cases hnil : l.stored = []
    · have hshort : ¬ s.outBufSize ≤ l.stored.length := by
        rw [hnil]
        exact not_le.mpr hpos
      rw [hinv.resend_empty hpos hnil]
      exact ⟨fun hok _ => ⟨fun _ => hok, fun hfull => absurd hfull hshort⟩,
        fun hok => (hok rfl).1 hnil⟩
    · rcases Nat.lt_or_ge l.stored.length s.outBufSize with hlt | hfull
      · refine iff_of_true (hinv.resend_plain hnil hlt) fun _ => ⟨?_, ?_⟩
        · exact fun hno => absurd hno hnil
        · exact fun hfull => absurd hfull (not_le.mpr hlt)
      · rw [hinv.resend_full hpos hmax hfull]
        exact ⟨fun hok _ => ⟨fun hno => absurd hno hnil, fun _ => hok⟩,
          fun hok => (hok rfl).2 hfull⟩

/-- A ring of four cells and five bytes: the last three are sent again. -/
def wrappedRing : List RoamEvent :=
  [.setOutBufferSize 4, .write false [1, 2, 3], .write false [4, 5]]

theorem resend_sent_bytes_wrappedRing :
    ∃ x, Transition.run (Transition.logStep roamStep roamLog) ({}, {}) wrappedRing = some x ∧
      needed x.1 2 = 3 ∧ ResendsSent x.2 3 (resendBytes x.1 2) := by
  obtain ⟨x, hx⟩ : ∃ x,
      Transition.run (Transition.logStep roamStep roamLog) ({}, {}) wrappedRing = some x :=
    ⟨_, rfl⟩
  have hneeded : needed x.1 2 = 3 := by
    rw [← Option.some.inj hx]
    decide
  have hsent := (resend_sent_bytes_iff hx 2).mpr
  rw [hneeded] at hsent
  refine ⟨x, hx, hneeded, hsent fun _ => ⟨?_, ?_⟩⟩
  · rw [← Option.some.inj hx]
    exact fun hno => nomatch hno
  · exact fun _ _ => by omega

/-- **Two bytes written before the ring was created** are resent from its cells, which hold
whatever was in the memory before. -/
theorem resend_unstored_cells :
    ∃ x, Transition.run (Transition.logStep roamStep roamLog) ({}, {})
        [.write false [1, 2], .setOutBufferSize 4] = some x ∧
      resendBytes x.1 0 = .wrote [none, none] ∧
      ¬ ResendsSent x.2 (needed x.1 0) (resendBytes x.1 0) := by
  have hsent : resendBytes { outBufSize := 4, allocated := true, writeBytes := 2 } 0 =
      .wrote [none, none] := by
    decide +kernel
  refine ⟨_, rfl, hsent, ?_⟩
  rintro (hfatal | ⟨-, hwrote⟩)
  · cases hsent.symm.trans hfatal
  · cases hsent.symm.trans hwrote

end CSBuFLO
