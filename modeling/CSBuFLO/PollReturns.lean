/-
# When `packet_write_poll` returns

In transcript mode `packet_write_poll` repeats `packet_write_poll_one_write` while a budget is
left.  The budget only moves when the kernel takes bytes, and nothing else ends the loop: as long
as the send queue stays full, or every write answers `EAGAIN`, it goes round without reading its
input.

* Before the own `TEND` the loop returns exactly if the budget is an `int` and the room the
  kernel offers adds up to it (`Kernel.room`).
* After it each write is a flushing write, whatever the budget; the loop returns exactly if
  these writes take as many bytes as the budget (`flushBytes`), and stops moving once the buffer
  is empty and no padding is owed.
-/
import CSBuFLO.Drain
import CSBuFLO.TranscriptWrite

namespace CSBuFLO

variable {σ β : Type}

/-! ## The loop before `TEND` -/

/-- The most bytes a write of the replay can hand over to the kernel. -/
def Kernel.room (k : Kernel) : ℕ :=
  match k.result with
  | .accepted m => min m (16384 - k.outq)
  | _ => 0

variable {c : Codec σ β} {g g' : Globals} {k : Kernel} {ori : ℤ} {p p' : PacketState σ β}
  {ks : List Kernel} {t : Globals × PacketState σ β}

/-- A budget that is an `int` shrinks by the room offered. -/
theorem budget_of_write {ori' : ℤ} (hg : ReplayMode g) (hpos : 0 < ori) (hint : ori < 2 ^ 31)
    (h : packetWritePollOneWrite c g ori k p = some (ori', g', p')) :
    ori' = max 0 (ori - k.room) := by
  have haim : budgetAim ori k.outq = min ori ((16384 - k.outq : ℕ) : ℤ) := by
    unfold budgetAim
    rw [toInt_of_lt hpos.le hint]
    dsimp only
    split_ifs <;> omega
  obtain ⟨-, ⟨hle, rfl, -⟩ | ⟨hlt, acc, htaken, rfl, -⟩⟩ :=
    packetWritePollOneWrite_replaying hg hpos h
  · have hfull : k.room = 0 := by
      unfold Kernel.room
      split <;> omega
    omega
  · unfold Kernel.room
    cases hk : k.result with
    | accepted m =>
      rw [hk, WriteResult.taken] at htaken
      split at htaken
      · cases htaken
      · obtain rfl := Option.some.inj htaken
        dsimp only
        omega
    | error =>
      rw [hk] at htaken
      cases htaken
    | _ =>
      rw [hk] at htaken
      obtain rfl := Option.some.inj htaken
      dsimp only
      omega

/-- A budget that is no `int` stays one: what is handed over is at most the `int` it is cut to. -/
theorem budget_stays_large {ori' : ℤ} (hg : ReplayMode g) (hlarge : 2 ^ 31 ≤ ori)
    (h : packetWritePollOneWrite c g ori k p = some (ori', g', p')) : 2 ^ 31 ≤ ori' := by
  have hcut : toInt ori ≤ 0 ∨ 2 ^ 31 ≤ ori - toInt ori := by
    unfold toInt
    rw [Int.bmod_def]
    split <;> omega
  obtain ⟨-, ⟨-, rfl, -⟩ | ⟨hlt, acc, htaken, rfl, -⟩⟩ :=
    packetWritePollOneWrite_replaying hg (by omega) h
  · exact hlarge
  · have hacc := WriteResult.taken_le htaken
    have haim : budgetAim ori k.outq ≤ toInt ori := by
      unfold budgetAim
      dsimp only
      split <;> omega
    omega

/-- A loop that returned was given room for its budget. -/
theorem room_of_returned (hg : ReplayMode g) (h : writePollLoop c ks ori g p = .returned t) :
    ori < 2 ^ 31 ∧ ori ≤ (ks.map Kernel.room).sum := by
  induction ks generalizing ori g p with
  | nil =>
    unfold writePollLoop at h
    split at h
    · cases h
    · simp
      omega
  | cons k ks ih =>
    rw [List.map_cons, List.sum_cons]
    unfold writePollLoop at h
    split at h
    · rename_i hpos
      cases hone : packetWritePollOneWrite c g ori k p with
      | none =>
        rw [hone] at h
        cases h
      | some r =>
        obtain ⟨ori1, g1, p1⟩ := r
        rw [hone] at h
        obtain ⟨hint1, hroom1⟩ := ih (hg.of_writeFrame
          (writeFrame_packetWritePollOneWrite hone)) h
        have hint : ori < 2 ^ 31 := by
          by_contra hlarge
          have := budget_stays_large hg (not_lt.mp hlarge) hone
          omega
        have := budget_of_write hg hpos hint hone
        omega
    · omega

/-- A loop that is given room for its budget does not go on. -/
theorem stops_of_room (hg : ReplayMode g) (hint : ori < 2 ^ 31) (h : ori ≤ (ks.map Kernel.room).sum)
    (t : Globals × PacketState σ β) : writePollLoop c ks ori g p ≠ .looping t := by
  induction ks generalizing ori g p with
  | nil =>
    unfold writePollLoop
    rw [if_neg (by simpa using h)]
    exact Outcome.returned_ne_looping _ t
  | cons k ks ih =>
    rw [List.map_cons, List.sum_cons] at h
    unfold writePollLoop
    split
    · rename_i hpos
      cases hone : packetWritePollOneWrite c g ori k p with
      | none => exact Outcome.fatal_ne_looping t
      | some r =>
        obtain ⟨ori1, g1, p1⟩ := r
        have hnext := budget_of_write hg hpos hint hone
        exact ih (hg.of_writeFrame (writeFrame_packetWritePollOneWrite hone)) (by omega)
          (by omega)
    · exact Outcome.returned_ne_looping _ t

/-! ## The loop after `TEND` -/

/-- One flushing write: the bytes taken, and the padding owed and the length of the buffer after
it; `none` is `fatal`. -/
def flushWrite (blockSize macLen : ℕ) (k : Kernel) (owed : ℤ) (len : ℕ) : Option (ℕ × ℤ × ℕ) :=
  let aim := flushAim owed len
  if aim = 0 then some (0, owed, len)
  else
    (k.result.taken aim).map fun acc =>
      (acc, if owed > 0 then (if owed ≥ acc then owed - acc else 0) else owed,
        paddedLength blockSize macLen aim len - acc)

/-- The bytes taken by a sequence of flushing writes. -/
def flushBytes (blockSize macLen : ℕ) : List Kernel → ℤ → ℕ → Option ℕ
  | [], _, _ => some 0
  | k :: ks, owed, len =>
    (flushWrite blockSize macLen k owed len).bind fun r =>
      (flushBytes blockSize macLen ks r.2.1 r.2.2).map (r.1 + ·)

/-- The globals of an endpoint in transcript mode whose `TEND` is queued. -/
structure FlushMode (g : Globals) : Prop where
  stmode : g.stmode = .supertrace
  sentTend : g.sentTend = true

theorem FlushMode.flushing (h : FlushMode g) : flushing g = true := by
  simp [CSBuFLO.flushing, h.stmode, h.sentTend]

theorem FlushMode.of_writeFrame (h : FlushMode g) (hf : WriteFrame g g') : FlushMode g' :=
  ⟨hf.stmode.trans h.stmode, hf.sentTend.trans h.sentTend⟩

/-- A flushing write takes what was written off the padding owed, down to zero. -/
theorem owed_afterWrite (h : flushing g = true) (ori : ℤ) (n : ℕ) :
    (afterWrite g ori n).2.transPaddedRemaining =
      if g.transPaddedRemaining > 0 then
        (if g.transPaddedRemaining ≥ n then g.transPaddedRemaining - n else 0)
      else g.transPaddedRemaining := by
  unfold afterWrite
  dsimp only
  by_cases howed : g.transPaddedRemaining > 0
  · rw [if_pos ⟨h, howed⟩, if_pos howed]
    rfl
  · rw [if_neg (fun hc => howed hc.2), if_neg howed]

/-- **One flushing write.** -/
theorem exists_flushWrite {ori' : ℤ} (hg : FlushMode g)
    (h : packetWritePollOneWrite c g ori k p = some (ori', g', p')) :
    ∃ acc : ℕ, (0 < ori → ori' = ori - acc) ∧
      flushWrite c.blockSize c.macLen k g.transPaddedRemaining p.outputLen =
        some (acc, g'.transPaddedRemaining, p'.outputLen) := by
  have haim := actualWrite_flushing hg.flushing ori k.outq p.outputLen
  unfold flushWrite
  dsimp only
  obtain ⟨hle, rfl, rfl, rfl⟩ | ⟨aw, p1, acc, haw, hawpos, hp1, htaken, rfl, rfl, rfl⟩ :=
    packetWritePollOneWrite_cases h
  · rw [if_pos (by omega)]
    exact ⟨0, fun _ => by simp, rfl⟩
  · obtain rfl : aw = flushAim g.transPaddedRemaining p.outputLen := by omega
    have hg1 : FlushMode (padJunk g (flushAim g.transPaddedRemaining p.outputLen) p.outputLen
        p1.outputLen) := hg.of_writeFrame (writeFrame_padJunk g _ _ _)
    have howed : (padJunk g (flushAim g.transPaddedRemaining p.outputLen) p.outputLen
        p1.outputLen).transPaddedRemaining = g.transPaddedRemaining := by
      unfold padJunk
      split <;> rfl
    have hhanded : handedLength g (flushAim g.transPaddedRemaining p.outputLen) p.outputLen
        p1.outputLen = flushAim g.transPaddedRemaining p.outputLen := by
      unfold handedLength
      rw [hg.stmode]
      simp
    rw [hhanded] at htaken
    rw [if_neg (by omega), htaken]
    refine ⟨acc, fun hpos => ?_, ?_⟩
    · unfold afterWrite
      rw [if_pos ⟨hg1.stmode, hpos⟩]
    · rw [outputLen_consume_handOver, owed_afterWrite hg1.flushing, howed,
        ← outputLen_padOutput hp1]
      rfl

/-- A flushing write of the loop. -/
theorem flushWrite_of_write {ori' : ℤ} (hg : FlushMode g) (hpos : 0 < ori)
    (h : packetWritePollOneWrite c g ori k p = some (ori', g', p')) :
    ∃ acc : ℕ, ori' = ori - acc ∧
      flushWrite c.blockSize c.macLen k g.transPaddedRemaining p.outputLen =
        some (acc, g'.transPaddedRemaining, p'.outputLen) := by
  obtain ⟨acc, hori, hwrite⟩ := exists_flushWrite hg h
  exact ⟨acc, hori hpos, hwrite⟩

/-- A loop that returned has flushed its budget, with some of the answers. -/
theorem flushBytes_of_returned (hg : FlushMode g) (h : writePollLoop c ks ori g p = .returned t) :
    ∃ n ≤ ks.length, ∃ total : ℕ, ori ≤ total ∧
      flushBytes c.blockSize c.macLen (ks.take n) g.transPaddedRemaining p.outputLen =
        some total := by
  induction ks generalizing ori g p with
  | nil =>
    unfold writePollLoop at h
    split at h
    · cases h
    · exact ⟨0, le_refl 0, 0, by push_cast; omega, rfl⟩
  | cons k ks ih =>
    unfold writePollLoop at h
    split at h
    · rename_i hpos
      cases hone : packetWritePollOneWrite c g ori k p with
      | none =>
        rw [hone] at h
        cases h
      | some r =>
        obtain ⟨ori1, g1, p1⟩ := r
        rw [hone] at h
        obtain ⟨acc, hori1, hwrite⟩ := flushWrite_of_write hg hpos hone
        obtain ⟨n, hn, total, hle, htotal⟩ :=
          ih (hg.of_writeFrame (writeFrame_packetWritePollOneWrite hone)) h
        refine ⟨n + 1, by simpa using hn, acc + total, by push_cast; omega, ?_⟩
        rw [List.take_succ_cons, flushBytes, hwrite, Option.bind_some, htotal, Option.map_some]
    · exact ⟨0, Nat.zero_le _, 0, by push_cast; omega, rfl⟩

/-- A loop whose flushing writes take its budget does not go on. -/
theorem stops_of_flushBytes {total : ℕ} (hg : FlushMode g)
    (h : flushBytes c.blockSize c.macLen ks g.transPaddedRemaining p.outputLen = some total)
    (hori : ori ≤ total) (t : Globals × PacketState σ β) :
    writePollLoop c ks ori g p ≠ .looping t := by
  induction ks generalizing ori g p total with
  | nil =>
    obtain rfl := Option.some.inj h
    unfold writePollLoop
    rw [if_neg (by push_cast at hori; omega)]
    exact Outcome.returned_ne_looping _ t
  | cons k ks ih =>
    unfold writePollLoop
    split
    · rename_i hpos
      cases hone : packetWritePollOneWrite c g ori k p with
      | none => exact Outcome.fatal_ne_looping t
      | some r =>
        obtain ⟨ori1, g1, p1⟩ := r
        obtain ⟨acc, hori1, hwrite⟩ := flushWrite_of_write hg hpos hone
        rw [flushBytes, hwrite, Option.bind_some] at h
        obtain ⟨rest, hrest, rfl⟩ := Option.map_eq_some_iff.mp h
        exact ih (hg.of_writeFrame (writeFrame_packetWritePollOneWrite hone)) hrest
          (by push_cast at hori; omega)
    · exact Outcome.returned_ne_looping _ t

/-! ## The poll -/

/-- The first `n` of an infinite sequence of answers. -/
def answers (ks : ℕ → Kernel) (n : ℕ) : List Kernel := (List.range n).map ks

theorem take_answers (ks : ℕ → Kernel) {m n : ℕ} (h : m ≤ n) :
    (answers ks n).take m = answers ks m := by
  unfold answers
  rw [← List.map_take, List.take_range, Nat.min_eq_left h]

/-- A poll in transcript mode ends by itself: its gate is closed, there is no budget, or the
kernel takes the budget. -/
def PollReturns (blockSize macLen : ℕ) (ks : ℕ → Kernel) (now : ℕ) (g : Globals)
    (p : PacketState σ β) : Prop :=
  now < p.packetTimeToWrite ∨ g.w2w ≤ 0 ∨
    (g.sentTend = false ∧ g.w2w < 2 ^ 31 ∧ ∃ n, g.w2w ≤ ((answers ks n).map Kernel.room).sum) ∨
    (g.sentTend = true ∧ ∃ n, ∃ total : ℕ, g.w2w ≤ total ∧
      flushBytes blockSize macLen (answers ks n) g.transPaddedRemaining p.outputLen = some total)

/-- A poll past its gate goes on exactly if its writes do. -/
theorem packetWritePoll_looping_iff {inp : PollInput} (hgate : p.packetTimeToWrite ≤ inp.now)
    (t : Globals × PacketState σ β) :
    packetWritePoll c inp g p = .looping t ↔
      pollWrites c inp.kernel { g with paddedJunk := 0 } p = .looping t := by
  unfold packetWritePoll
  rw [if_neg (by omega)]
  cases pollWrites c inp.kernel { g with paddedJunk := 0 } p with
  | returned r => exact ⟨fun h => (nomatch h), fun h => (nomatch h)⟩
  | looping r => exact Iff.rfl
  | fatal => exact ⟨fun h => (nomatch h), fun h => (nomatch h)⟩

/-- The writes of a poll with a budget are the loop. -/
theorem pollWrites_of_budget (ks : List Kernel) (p : PacketState σ β)
    (hmode : g.stmode = .supertrace) (hpos : 0 < g.w2w) :
    pollWrites c ks g p = writePollLoop c ks g.w2w g p := by
  unfold pollWrites
  rw [if_pos hmode, if_neg (by omega)]

/-- A poll that returned could return. -/
theorem pollReturns_of_returned {ks : ℕ → Kernel} {now rand n : ℕ} (hmode : g.stmode = .supertrace)
    (h : packetWritePoll c ⟨now, rand, answers ks n⟩ g p = .returned t) :
    PollReturns c.blockSize c.macLen ks now g p := by
  by_cases hgate : p.packetTimeToWrite ≤ now
  · by_cases hbudget : g.w2w ≤ 0
    · exact Or.inr (Or.inl hbudget)
    obtain ⟨g1, p1, hwrites, -⟩ := packetWritePoll_eq_returned h hgate
    have hloop := pollWrites_of_budget (c := c) (answers ks n) p
      (g := { g with paddedJunk := 0 }) hmode (not_le.mp hbudget)
    rw [hloop] at hwrites
    cases hsent : g.sentTend with
    | false =>
      have hg0 : ReplayMode { g with paddedJunk := 0 } := ⟨hmode, hsent⟩
      obtain ⟨hint, hroom⟩ := room_of_returned hg0 hwrites
      exact Or.inr (Or.inr (Or.inl ⟨hsent, hint, n, hroom⟩))
    | true =>
      have hg0 : FlushMode { g with paddedJunk := 0 } := ⟨hmode, hsent⟩
      obtain ⟨m, hm, total, hle, htotal⟩ := flushBytes_of_returned hg0 hwrites
      rw [take_answers ks (by simpa [answers] using hm)] at htotal
      exact Or.inr (Or.inr (Or.inr ⟨hsent, m, total, hle, htotal⟩))
  · exact Or.inl (not_le.mp hgate)

/-- A poll that can return does not go on for ever. -/
theorem stops_of_pollReturns {ks : ℕ → Kernel} {now : ℕ} (rand : ℕ) (hmode : g.stmode = .supertrace)
    (h : PollReturns c.blockSize c.macLen ks now g p) :
    ∃ n, ∀ t, packetWritePoll c ⟨now, rand, answers ks n⟩ g p ≠ .looping t := by
  by_cases hgate : p.packetTimeToWrite ≤ now
  · have hpoll : ∀ n t, pollWrites c (answers ks n) { g with paddedJunk := 0 } p ≠ .looping t →
        packetWritePoll c ⟨now, rand, answers ks n⟩ g p ≠ .looping t := by
      intro n t hne hloop
      exact hne ((packetWritePoll_looping_iff hgate t).mp hloop)
    by_cases hbudget : g.w2w ≤ 0
    · -- at most one write
      refine ⟨1, fun t => hpoll 1 t ?_⟩
      unfold pollWrites
      rw [if_pos hmode]
      split
      · show singleWrite c [ks 0] _ p ≠ .looping t
        unfold singleWrite
        dsimp only
        split
        · exact Outcome.fatal_ne_looping t
        · exact Outcome.returned_ne_looping _ t
      · show writePollLoop c [ks 0] g.w2w _ p ≠ .looping t
        unfold writePollLoop
        rw [if_neg (by omega)]
        exact Outcome.returned_ne_looping _ t
    · have hwrites : ∀ n, pollWrites c (answers ks n) { g with paddedJunk := 0 } p =
          writePollLoop c (answers ks n) g.w2w { g with paddedJunk := 0 } p := fun n =>
        pollWrites_of_budget (answers ks n) p hmode (not_le.mp hbudget)
      obtain hclosed | hzero | ⟨hsent, hint, n, hroom⟩ | ⟨hsent, n, total, hle, htotal⟩ := h
      · omega
      · exact absurd hzero hbudget
      · refine ⟨n, fun t => hpoll n t ?_⟩
        have hg0 : ReplayMode { g with paddedJunk := 0 } := ⟨hmode, hsent⟩
        rw [hwrites]
        exact stops_of_room hg0 hint hroom t
      · refine ⟨n, fun t => hpoll n t ?_⟩
        have hg0 : FlushMode { g with paddedJunk := 0 } := ⟨hmode, hsent⟩
        rw [hwrites]
        exact stops_of_flushBytes hg0 htotal hle t
  · refine ⟨0, fun t => ?_⟩
    unfold packetWritePoll
    rw [if_pos (not_le.mp hgate)]
    exact Outcome.returned_ne_looping _ t

/-! ## Answers that end the process -/

/-- One write of the replay: the budget left; `none` is `fatal`. -/
def budgetWrite (s : ℤ × Unit) (k : Kernel) : Option (ℤ × Unit) :=
  if budgetAim s.1 k.outq ≤ 0 then some s
  else (k.result.taken (budgetAim s.1 k.outq).toNat).map fun acc => (s.1 - acc, ())

/-- One flushing write of the loop: the budget, the padding owed and the length of the buffer
after it. -/
def flushRound (blockSize macLen : ℕ) (s : ℤ × ℤ × ℕ) (k : Kernel) : Option (ℤ × ℤ × ℕ) :=
  (flushWrite blockSize macLen k s.2.1 s.2.2).map fun r => (s.1 - r.1, r.2)

/-- A write of the loop `while (ori_w2w > 0)` fails: the kernel answers it by an error or takes
nothing. -/
def loopFails {α : Type} (write : ℤ × α → Kernel → Option (ℤ × α)) : ℤ × α → List Kernel → Bool
  | _, [] => false
  | s, k :: ks => decide (0 < s.1) && (write s k).elim true (loopFails write · ks)

/-- The kernel ends the process: a write that the poll makes fails. -/
def PollFails (blockSize macLen : ℕ) (ks : List Kernel) (now : ℕ) (g : Globals)
    (p : PacketState σ β) : Prop :=
  p.packetTimeToWrite ≤ now ∧
    if g.sentTend = false then loopFails budgetWrite (g.w2w, ()) ks = true
    else if g.w2w = 0 then
      ∃ k ∈ ks.head?, flushWrite blockSize macLen k g.transPaddedRemaining p.outputLen = none
    else loopFails (flushRound blockSize macLen)
      (g.w2w, g.transPaddedRemaining, p.outputLen) ks = true

/-- A write sends at most one packet. -/
theorem spends_packetWritePollOneWrite {ori' : ℤ}
    (h : packetWritePollOneWrite c g ori k p = some (ori', g', p')) : Spends c 1 p p' := by
  intro n hroom
  obtain ⟨-, -, -, rfl⟩ | ⟨aw, p1, acc, -, -, hp1, -, -, -, rfl⟩ :=
    packetWritePollOneWrite_cases h
  · exact hroom.mono (by omega)
  · have hone := padPackets_le aw p.outputLen
    exact spends_padOutput hp1 n (hroom.mono (by omega))

/-- With room for a packet only the kernel makes a write fail. -/
theorem taken_of_write_eq_none (hmode : g.stmode ≠ .csbuflo) (hroom : c.Room 1 p.snd)
    (h : packetWritePollOneWrite c g ori k p = none) :
    0 < actualWrite g ori k.outq p.outputLen ∧
      k.result.taken (actualWrite g ori k.outq p.outputLen).toNat = none := by
  rw [packetWritePollOneWrite_eq] at h
  generalize actualWrite g ori k.outq p.outputLen = aw at h ⊢
  split at h
  · cases h
  · rename_i hpos
    obtain ⟨p1, hp1⟩ := exists_padOutput (hroom.mono (padPackets_le aw.toNat p.outputLen))
    have hhanded : handedLength g aw.toNat p.outputLen p1.outputLen = aw.toNat := by
      unfold handedLength
      rw [if_pos hmode, ite_self]
    rw [hp1, Option.bind_some] at h
    dsimp only at h
    rw [hhanded] at h
    exact ⟨not_le.mp hpos, Option.map_eq_none_iff.mp h⟩

section Loop

variable {α : Type} {c : Codec σ β} {write : ℤ × α → Kernel → Option (ℤ × α)}
  (view : Globals → PacketState σ β → α) (Mode : Globals → Prop)

/-- **When the loop ends the process**, given a view of the state that its writes can be computed
on. -/
theorem writePollLoop_eq_fatal_iff
    (hsome : ∀ {ori ori' : ℤ} {g g' : Globals} {k : Kernel} {p p' : PacketState σ β}, Mode g →
      0 < ori → packetWritePollOneWrite c g ori k p = some (ori', g', p') →
        Mode g' ∧ write (ori, view g p) k = some (ori', view g' p'))
    (hnone : ∀ {ori : ℤ} {g : Globals} {k : Kernel} {p : PacketState σ β}, Mode g →
      c.Room 1 p.snd → packetWritePollOneWrite c g ori k p = none →
        write (ori, view g p) k = none) (hg : Mode g) (hroom : c.Room ks.length p.snd) :
    writePollLoop c ks ori g p = .fatal ↔ loopFails write (ori, view g p) ks = true := by
  induction ks generalizing ori g p with
  | nil =>
    unfold writePollLoop loopFails
    split <;> simp
  | cons k ks ih =>
    rw [List.length_cons, Nat.add_comm] at hroom
    unfold writePollLoop loopFails
    by_cases hpos : 0 < ori
    · rw [if_pos hpos, decide_eq_true hpos, Bool.true_and]
      cases hone : packetWritePollOneWrite c g ori k p with
      | none =>
        rw [hnone hg (hroom.mono (by omega)) hone]
        exact ⟨fun _ => rfl, fun _ => rfl⟩
      | some r =>
        obtain ⟨ori1, g1, p1⟩ := r
        obtain ⟨hg1, hwrite⟩ := hsome hg hpos hone
        rw [hwrite]
        exact ih hg1 (spends_packetWritePollOneWrite hone ks.length hroom)
    · rw [if_neg hpos, decide_eq_false hpos, Bool.false_and]
      simp

end Loop

/-- The loop before `TEND`. -/
theorem replayLoop_eq_fatal_iff (ori : ℤ) (hg : ReplayMode g) (hroom : c.Room ks.length p.snd) :
    writePollLoop c ks ori g p = .fatal ↔ loopFails budgetWrite (ori, ()) ks = true := by
  refine writePollLoop_eq_fatal_iff (fun _ _ => ()) ReplayMode
    (fun {ori ori' g g' k p p'} hg hpos h => ?_) (fun {ori g k p} hg hroom h => ?_) hg hroom
  · refine ⟨hg.of_writeFrame (writeFrame_packetWritePollOneWrite h), ?_⟩
    unfold budgetWrite
    obtain ⟨-, ⟨hle, rfl, -⟩ | ⟨hlt, acc, htaken, rfl, -⟩⟩ :=
      packetWritePollOneWrite_replaying hg hpos h
    · rw [if_pos hle]
    · rw [if_neg (not_le.mpr hlt), htaken]
      rfl
  · have hmode : g.stmode ≠ .csbuflo := by
      rw [hg.stmode]
      decide
    obtain ⟨hpos, htaken⟩ := taken_of_write_eq_none hmode hroom h
    rw [actualWrite_replaying hg] at hpos htaken
    unfold budgetWrite
    rw [if_neg (not_le.mpr hpos), htaken]
    rfl

/-- With room for a packet only the kernel makes a flushing write fail. -/
theorem flushWrite_of_eq_none (hg : FlushMode g) (hroom : c.Room 1 p.snd)
    (h : packetWritePollOneWrite c g ori k p = none) :
    flushWrite c.blockSize c.macLen k g.transPaddedRemaining p.outputLen = none := by
  have hmode : g.stmode ≠ .csbuflo := by
    rw [hg.stmode]
    decide
  obtain ⟨hpos, htaken⟩ := taken_of_write_eq_none hmode hroom h
  rw [actualWrite_flushing hg.flushing, Int.toNat_natCast] at htaken
  rw [actualWrite_flushing hg.flushing] at hpos
  unfold flushWrite
  dsimp only
  rw [if_neg (by omega), htaken]
  rfl

/-- The loop after `TEND`. -/
theorem flushLoop_eq_fatal_iff (ori : ℤ) (hg : FlushMode g) (hroom : c.Room ks.length p.snd) :
    writePollLoop c ks ori g p = .fatal ↔
      loopFails (flushRound c.blockSize c.macLen) (ori, g.transPaddedRemaining, p.outputLen) ks =
        true := by
  refine writePollLoop_eq_fatal_iff (fun g p => (g.transPaddedRemaining, p.outputLen)) FlushMode
    (fun {ori ori' g g' k p p'} hg hpos h => ?_) (fun {ori g k p} hg hroom h => ?_) hg hroom
  · obtain ⟨acc, rfl, hwrite⟩ := flushWrite_of_write hg hpos h
    refine ⟨hg.of_writeFrame (writeFrame_packetWritePollOneWrite h), ?_⟩
    unfold flushRound
    rw [hwrite]
    rfl
  · unfold flushRound
    rw [flushWrite_of_eq_none hg hroom h]
    rfl

/-- The one flushing write of a poll without a budget. -/
theorem singleWrite_eq_fatal_iff (hg : FlushMode g) (hroom : c.Room ks.length p.snd) :
    singleWrite c ks g p = .fatal ↔
      ∃ k ∈ ks.head?, flushWrite c.blockSize c.macLen k g.transPaddedRemaining p.outputLen =
        none := by
  cases ks with
  | nil => exact ⟨fun h => (nomatch h), fun ⟨_, hk, _⟩ => (nomatch hk)⟩
  | cons k ks =>
    have hroom1 : c.Room 1 p.snd := hroom.mono (by simp)
    simp only [List.head?_cons, Option.mem_some_iff, exists_eq_left']
    cases hone : packetWritePollOneWrite c g g.w2w k p with
    | none =>
      rw [singleWrite_of_eq_none hone]
      exact ⟨fun _ => flushWrite_of_eq_none hg hroom1 hone, fun _ => rfl⟩
    | some r =>
      obtain ⟨i, g', p'⟩ := r
      rw [singleWrite_of_eq_some hone]
      refine ⟨fun h => (nomatch h), fun h => ?_⟩
      obtain ⟨acc, -, hwrite⟩ := exists_flushWrite hg hone
      rw [h] at hwrite
      cases hwrite

/-- **When `packet_write_poll` ends the process**, with room for a packet per write. -/
theorem packetWritePoll_eq_fatal_iff {inp : PollInput} (hmode : g.stmode = .supertrace)
    (hroom : c.Room inp.kernel.length p.snd) :
    packetWritePoll c inp g p = .fatal ↔
      PollFails c.blockSize c.macLen inp.kernel inp.now g p := by
  have hwrites : p.packetTimeToWrite ≤ inp.now → (packetWritePoll c inp g p = .fatal ↔
      pollWrites c inp.kernel { g with paddedJunk := 0 } p = .fatal) := by
    intro hgate
    unfold packetWritePoll
    rw [if_neg (not_lt.mpr hgate)]
    cases pollWrites c inp.kernel { g with paddedJunk := 0 } p with
    | returned r => exact ⟨fun h => (nomatch h), fun h => (nomatch h)⟩
    | looping r => exact ⟨fun h => (nomatch h), fun h => (nomatch h)⟩
    | fatal => exact Iff.rfl
  unfold PollFails
  by_cases hgate : p.packetTimeToWrite ≤ inp.now
  · rw [hwrites hgate, and_iff_right hgate]
    unfold pollWrites
    rw [if_pos hmode]
    by_cases hsent : g.sentTend = false
    · have hg : ReplayMode { g with paddedJunk := 0 } := ⟨hmode, hsent⟩
      rw [if_neg fun hc => Bool.false_ne_true (hsent.symm.trans hc.2), if_pos hsent]
      exact replayLoop_eq_fatal_iff g.w2w hg hroom
    · have htend : g.sentTend = true := Bool.eq_true_of_not_eq_false hsent
      have hg : FlushMode { g with paddedJunk := 0 } := ⟨hmode, htend⟩
      rw [if_neg hsent]
      by_cases hzero : g.w2w = 0
      · rw [if_pos ⟨hzero, htend⟩, if_pos hzero]
        exact singleWrite_eq_fatal_iff hg hroom
      · rw [if_neg fun hc => hzero hc.1, if_neg hzero]
        exact flushLoop_eq_fatal_iff g.w2w hg hroom
  · refine ⟨fun h => ?_, fun h => absurd h.1 hgate⟩
    unfold packetWritePoll at h
    rw [if_pos (not_le.mp hgate)] at h
    cases h

/-- **When `packet_write_poll` stops.**  In transcript mode, for every budget, buffer and flags
and every infinite sequence of kernel answers, the poll executes finitely many writes exactly if
it ends the process or its condition to return holds.  With room for a packet per write it ends
the process exactly if one of its writes is answered by an error or takes nothing. -/
theorem write_poll_stops_iff (c : Codec σ β) (ks : ℕ → Kernel) (now rand : ℕ) {g : Globals}
    (hmode : g.stmode = .supertrace) (p : PacketState σ β) :
    ((∃ n, ∀ t, packetWritePoll c ⟨now, rand, answers ks n⟩ g p ≠ .looping t) ↔
      (∃ n, packetWritePoll c ⟨now, rand, answers ks n⟩ g p = .fatal) ∨
        PollReturns c.blockSize c.macLen ks now g p) ∧
    ∀ n, c.Room n p.snd → (packetWritePoll c ⟨now, rand, answers ks n⟩ g p = .fatal ↔
      PollFails c.blockSize c.macLen (answers ks n) now g p) := by
  refine ⟨⟨?_, ?_⟩, fun n hroom => ?_⟩
  · rintro ⟨n, hstops⟩
    cases hpoll : packetWritePoll c ⟨now, rand, answers ks n⟩ g p with
    | returned t => exact Or.inr (pollReturns_of_returned hmode hpoll)
    | looping t => exact absurd hpoll (hstops t)
    | fatal => exact Or.inl ⟨n, hpoll⟩
  · rintro (⟨n, hfatal⟩ | hreturns)
    · refine ⟨n, fun t => ?_⟩
      rw [hfatal]
      exact Outcome.fatal_ne_looping t
    · exact stops_of_pollReturns rand hmode hreturns
  · have hlength : (answers ks n).length = n := by simp [answers]
    refine packetWritePoll_eq_fatal_iff hmode ?_
    rw [hlength]
    exact hroom

/-- A budget of 400 bytes in transcript mode. -/
def budgeted : Globals := { stmode := .supertrace, w2w := 400 }

/-- With a queue that has room for 100 bytes each time, the poll stops; it ends the process if
the second write is answered by an error. -/
theorem write_poll_stops_iff_budgeted :
    (∃ n, ∀ t, packetWritePoll plainCodec ⟨0, 0, answers (fun _ => ⟨16284, .accepted 16384⟩) n⟩
      budgeted (bufferedState 0) ≠ .looping t) ∧
    packetWritePoll plainCodec ⟨0, 0, answers
      (fun i => ⟨16284, if i = 1 then .error else .accepted 16384⟩) 2⟩ budgeted
        (bufferedState 0) = .fatal :=
  ⟨(write_poll_stops_iff plainCodec (fun _ => ⟨16284, .accepted 16384⟩) 0 0 rfl
      (bufferedState 0)).1.mpr (Or.inr (Or.inr (Or.inr (Or.inl ⟨rfl, by decide, 4, by decide⟩)))),
    ((write_poll_stops_iff plainCodec (fun i => ⟨16284, if i = 1 then .error else .accepted 16384⟩)
      0 0 rfl (bufferedState 0)).2 2 (room_packetCodec _ (by decide))).mpr
        ⟨by decide, by decide⟩⟩

/-- **A full send queue is waited for inside the poll.**  As long as `SIOCOUTQ` answers 16384,
no number of iterations ends the poll. -/
theorem write_poll_never_stops :
    ¬ ∃ n, packetWritePoll plainCodec ⟨0, 0, answers (fun _ => ⟨16384, .accepted 16384⟩) n⟩
      budgeted (bufferedState 0) ≠ .looping (budgeted, bufferedState 0) := by
  have hloop : ∀ l : List ℕ, writePollLoop plainCodec (l.map fun _ => ⟨16384, .accepted 16384⟩)
      400 budgeted (bufferedState 0) = .looping (budgeted, bufferedState 0) := by
    intro l
    induction l with
    | nil => rfl
    | cons x l ih => exact ih
  rintro ⟨n, hstops⟩
  exact hstops ((packetWritePoll_looping_iff (le_refl 0) _).mpr (hloop (List.range n)))

end CSBuFLO
