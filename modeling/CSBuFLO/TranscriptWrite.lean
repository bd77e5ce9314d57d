/-
# Writes in transcript mode

While a trace is replayed, `packet_write_poll` writes until the granted budget is used up,
and pads whatever is missing.  `writeSizes` gives the lengths it hands to `roaming_write`
from the budget and the kernel's answers alone: the buffered data plays no part.
`packetWritePoll_replaying` says that a poll behaves so, and that one that returns after
passing its time gate has had exactly the budget accepted.
-/
import CSBuFLO.PacketWrite

namespace CSBuFLO

variable {σ β : Type}

/-! ## The lengths of the writes -/

/-- The aim of one write: the budget left, capped by the room in the send queue. -/
def budgetAim (budget : ℤ) (outq : ℕ) : ℤ :=
  let a2w : ℤ := if outq < 16384 then 16384 - outq else 0
  if a2w < toInt budget then a2w else toInt budget

/-- The lengths handed to `roaming_write` while a budget is written. -/
def writeSizes : List Kernel → ℤ → List ℕ
  | [], _ => []
  | k :: ks, budget =>
    if budget > 0 then
      if budgetAim budget k.outq ≤ 0 then writeSizes ks budget
      else
        (budgetAim budget k.outq).toNat ::
          writeSizes ks (budget - ((k.result.taken (budgetAim budget k.outq).toNat).getD 0 : ℕ))
    else []

/-- The lengths handed over so far. -/
def PacketState.handed (p : PacketState σ β) : List ℕ := p.calls.map WriteCall.handed

/-- The `int` into which the budget is stored is never larger than the budget. -/
theorem toInt_le {x : ℤ} (h : 0 ≤ x) : toInt x ≤ x := by
  unfold toInt
  rw [Int.bmod_def]
  split <;> omega

/-- No write aims at more than the budget. -/
theorem budgetAim_le {budget : ℤ} (h : 0 ≤ budget) (outq : ℕ) : budgetAim budget outq ≤ budget := by
  have := toInt_le h
  unfold budgetAim
  dsimp only
  split <;> omega

/-! ## One write -/

/-- The globals of an endpoint that replays a trace and has not queued `TEND` yet. -/
structure ReplayMode (g : Globals) : Prop where
  stmode : g.stmode = .supertrace
  sentTend : g.sentTend = false

instance (g : Globals) : Decidable (ReplayMode g) :=
  decidable_of_iff (g.stmode = .supertrace ∧ g.sentTend = false)
    ⟨fun h => ⟨h.1, h.2⟩, fun h => ⟨h.1, h.2⟩⟩

variable {g g' : Globals} {p p' : PacketState σ β}

theorem ReplayMode.not_flushing (h : ReplayMode g) : flushing g = false := by
  simp [flushing, h.stmode, h.sentTend]

theorem ReplayMode.of_writeFrame (h : ReplayMode g) (hf : WriteFrame g g') : ReplayMode g' :=
  ⟨hf.stmode.trans h.stmode, hf.sentTend.trans h.sentTend⟩

/-- Before the own `TEND` the budget decides the size of a write. -/
theorem actualWrite_replaying (h : ReplayMode g) (ori : ℤ) (outq len : ℕ) :
    actualWrite g ori outq len = budgetAim ori outq := by
  unfold actualWrite
  rw [h.not_flushing]
  rfl

/-- In the replay what was taken comes off the budget, and no owed padding is paid. -/
theorem afterWrite_replaying (h : ReplayMode g) {ori : ℤ} (hori : 0 < ori) (n : ℕ) :
    afterWrite g ori n = (ori - n, g) := by
  unfold afterWrite
  rw [if_pos ⟨h.stmode, hori⟩, if_neg (fun hc => by rw [h.not_flushing] at hc; simp at hc)]

/-- What writes of the replay leave alone: only the junk counter changes in the globals, and
the clock settings stay. -/
structure WriteOnly (g g' : Globals) (p p' : PacketState σ β) : Prop where
  g_eq : g' = { g with paddedJunk := g'.paddedJunk }
  packetTau : p'.packetTau = p.packetTau
  packetTimeToWrite : p'.packetTimeToWrite = p.packetTimeToWrite
  updates : p'.updates = p.updates

theorem WriteOnly.refl (g : Globals) (p : PacketState σ β) : WriteOnly g g p p :=
  ⟨rfl, rfl, rfl, rfl⟩

theorem WriteOnly.trans {g'' : Globals} {p'' : PacketState σ β} (h : WriteOnly g g' p p')
    (h' : WriteOnly g' g'' p' p'') : WriteOnly g g'' p p'' := by
  refine ⟨?_, h'.packetTau.trans h.packetTau, h'.packetTimeToWrite.trans h.packetTimeToWrite,
    h'.updates.trans h.updates⟩
  have := h'.g_eq
  rw [h.g_eq] at this
  exact this

/-- Writes do not end the replay. -/
theorem WriteOnly.replayMode (h : WriteOnly g g' p p') (hg : ReplayMode g) : ReplayMode g' := by
  rw [h.g_eq]
  exact ⟨hg.stmode, hg.sentTend⟩

/-- **One write of the replay.**  Without an aim nothing happens; otherwise the aim is
handed over and what the kernel takes is taken off the budget. -/
theorem packetWritePollOneWrite_replaying {c : Codec σ β} {ori ori' : ℤ} {k : Kernel}
    (hg : ReplayMode g) (hori : 0 < ori)
    (h : packetWritePollOneWrite c g ori k p = some (ori', g', p')) :
    WriteOnly g g' p p' ∧
    ((budgetAim ori k.outq ≤ 0 ∧ ori' = ori ∧ p' = p) ∨
     (0 < budgetAim ori k.outq ∧ ∃ acc : ℕ,
        k.result.taken (budgetAim ori k.outq).toNat = some acc ∧ ori' = ori - acc ∧ 0 ≤ ori' ∧
        p'.handed = p.handed ++ [(budgetAim ori k.outq).toNat] ∧
        p'.wire.length = p.wire.length + acc)) := by
  have haim : ∀ len, actualWrite g ori k.outq len = budgetAim ori k.outq :=
    actualWrite_replaying hg ori k.outq
  rcases packetWritePollOneWrite_cases h with ⟨hle, rfl, rfl, rfl⟩ |
    ⟨aw, p1, acc, haw, hpos, hp1, htaken, rfl, rfl, rfl⟩
  · rw [haim] at hle
    exact ⟨.refl _ _, Or.inl ⟨hle, rfl, rfl⟩⟩
  · rw [haim] at haw
    have hmode : ∀ len padded, handedLength g aw len padded = aw := by
      intro len padded
      unfold handedLength
      rw [hg.stmode]
      simp
    rw [hmode] at htaken ⊢
    have hframe := padOutput_frame hp1
    have hlen := outputLen_padOutput hp1
    have hcover : aw ≤ p1.outputLen := by
      rw [hlen]
      exact le_paddedLength c.blockSize_eq c.macLen aw p.outputLen
    have hacc : acc ≤ aw := WriteResult.taken_le htaken
    have hbudget := budgetAim_le (le_of_lt hori) k.outq
    have hjunk : ReplayMode (padJunk g aw p.outputLen p1.outputLen) :=
      hg.of_writeFrame (writeFrame_padJunk g aw _ _)
    have hafter := afterWrite_replaying hjunk hori acc
    have htoNat : (budgetAim ori k.outq).toNat = aw := by rw [haw]; exact Int.toNat_natCast aw
    rw [hafter, htoNat]
    refine ⟨⟨?_, ?_, ?_, ?_⟩, Or.inr ⟨by omega, acc, htaken, rfl, by dsimp only; omega, ?_, ?_⟩⟩
    · unfold padJunk
      split <;> rfl
    · show p1.packetTau = p.packetTau
      rw [hframe]
    · show p1.packetTimeToWrite = p.packetTimeToWrite
      rw [hframe]
    · show p1.updates = p.updates
      rw [hframe]
    · have hcalls : p1.calls = p.calls := by rw [hframe]
      simp [PacketState.handed, PacketState.consume, PacketState.handOver, hcalls]
    · have hwire : p1.wire = p.wire := by rw [hframe]
      have hle : acc ≤ p1.output.length := le_trans hacc hcover
      simp [PacketState.consume, PacketState.handOver, hwire, hle]

/-! ## The loop and the poll -/

/-- **The loop of the replay.**  Whether it has returned or is still looping, its writes have
the lengths `writeSizes` gives; when it returns, exactly the budget was accepted. -/
theorem writePollLoop_replaying {c : Codec σ β} (ks : List Kernel) {ori : ℤ} (hg : ReplayMode g)
    (hori : 0 ≤ ori) (h : (writePollLoop c ks ori g p).seen = some (g', p')) :
    WriteOnly g g' p p' ∧ p'.handed = p.handed ++ writeSizes ks ori ∧
      (writePollLoop c ks ori g p = .returned (g', p') →
        p'.wire.length = p.wire.length + ori.toNat) := by
  induction ks generalizing ori g p with
  | nil =>
    unfold writePollLoop at h ⊢
    by_cases hpos : ori > 0
    · rw [if_pos hpos] at h ⊢
      cases h
      exact ⟨.refl _ _, by simp [writeSizes], fun hret => by cases hret⟩
    · rw [if_neg hpos] at h ⊢
      cases h
      refine ⟨.refl _ _, by simp [writeSizes], fun _ => ?_⟩
      rw [Int.toNat_of_nonpos (by omega)]
      rfl
  | cons k ks ih =>
    unfold writePollLoop at h ⊢
    by_cases hpos : ori > 0
    · rw [if_pos hpos] at h ⊢
      cases hone : packetWritePollOneWrite c g ori k p with
      | none =>
        rw [hone] at h
        cases h
      | some t =>
        obtain ⟨ori1, g1, p1⟩ := t
        simp only [hone] at h ⊢
        obtain ⟨hframe, hcase⟩ := packetWritePollOneWrite_replaying hg hpos hone
        have hg1 := hframe.replayMode hg
        unfold writeSizes
        rw [if_pos hpos]
        rcases hcase with ⟨haim, rfl, rfl⟩ | ⟨haim, acc, htaken, rfl, hnonneg, hhanded, hwire⟩
        · obtain ⟨hf, hh, hw⟩ := ih hg1 hori h
          rw [if_pos haim]
          exact ⟨hframe.trans hf, hh, hw⟩
        · obtain ⟨hf, hh, hw⟩ := ih hg1 hnonneg h
          rw [if_neg (by omega), htaken, Option.getD_some]
          refine ⟨hframe.trans hf, ?_, fun hret => ?_⟩
          · rw [hh, hhanded, List.append_assoc]
            rfl
          · rw [hw hret, hwire]
            omega
    · rw [if_neg hpos] at h ⊢
      cases h
      unfold writeSizes
      rw [if_neg hpos, List.append_nil, Int.toNat_of_nonpos (by omega)]
      exact ⟨.refl _ _, rfl, fun _ => rfl⟩

/-- **A poll of the replay.**  Before its time it returns at once and keeps the budget.
Otherwise it hands over what `writeSizes` says; when it returns, the whole budget was
accepted, and it is cleared and the next time set. -/
theorem packetWritePoll_replaying {c : Codec σ β} {inp : PollInput} (hg : ReplayMode g)
    (hw : 0 ≤ g.w2w) (h : (packetWritePoll c inp g p).seen = some (g', p')) :
    (inp.now < p.packetTimeToWrite ∧ g' = g ∧ p' = p) ∨
    (p.packetTimeToWrite ≤ inp.now ∧
      p'.packetTau = p.packetTau ∧ p'.handed = p.handed ++ writeSizes inp.kernel g.w2w ∧
      ((packetWritePoll c inp g p = .returned (g', p') ∧
          g' = { g with w2w := 0, paddedJunk := g'.paddedJunk } ∧
          p'.packetTimeToWrite = addTime inp.now p.packetTau ∧
          p'.updates = p.updates ++ [addTime inp.now p.packetTau] ∧
          p'.wire.length = p.wire.length + g.w2w.toNat) ∨
       (packetWritePoll c inp g p = .looping (g', p') ∧
          g' = { g with paddedJunk := g'.paddedJunk } ∧
          p'.packetTimeToWrite = p.packetTimeToWrite ∧ p'.updates = p.updates))) := by
  unfold packetWritePoll at h ⊢
  by_cases hgate : inp.now < p.packetTimeToWrite
  · rw [if_pos hgate] at h
    cases h
    exact Or.inl ⟨hgate, rfl, rfl⟩
  · rw [if_neg hgate] at h ⊢
    right
    have hg0 : ReplayMode { g with paddedJunk := 0 } := ⟨hg.stmode, hg.sentTend⟩
    have hloop : pollWrites c inp.kernel { g with paddedJunk := 0 } p =
        writePollLoop c inp.kernel g.w2w { g with paddedJunk := 0 } p := by
      unfold pollWrites
      rw [if_pos hg.stmode, if_neg (fun hc => by rw [hg.sentTend] at hc; simp at hc)]
    rw [hloop] at h ⊢
    cases hret : writePollLoop c inp.kernel g.w2w { g with paddedJunk := 0 } p with
    | returned t =>
      obtain ⟨g1, p1⟩ := t
      rw [hret] at h
      have hseen : (writePollLoop c inp.kernel g.w2w { g with paddedJunk := 0 } p).seen =
          some (g1, p1) := by rw [hret]; rfl
      obtain ⟨hf, hh, hwire⟩ := writePollLoop_replaying inp.kernel hg0 hw hseen
      have hmode1 := (hf.replayMode hg0).stmode
      have hfin : finishPoll inp g1 p1 = (g', p') := Option.some.inj h
      have hval : finishPoll inp g1 p1 =
          (g1.setW2w 0, p1.setUpdatedTime (addTime inp.now p.packetTau)) := by
        unfold finishPoll
        rw [if_pos hmode1, hmode1, if_neg (by decide), hf.packetTau]
        rfl
      obtain ⟨rfl, rfl⟩ := Prod.mk.inj (hval.symm.trans hfin)
      refine ⟨by omega, hf.packetTau, hh,
        Or.inl ⟨congrArg Outcome.returned hval, ?_, rfl, ?_, hwire hret⟩⟩
      · rw [hf.g_eq]
        rfl
      · show p1.updates ++ [_] = _
        rw [hf.updates]
    | looping t =>
      rw [hret] at h
      obtain rfl : t = (g', p') := Option.some.inj h
      have hseen : (writePollLoop c inp.kernel g.w2w { g with paddedJunk := 0 } p).seen =
          some (g', p') := by rw [hret]; rfl
      obtain ⟨hf, hh, -⟩ := writePollLoop_replaying inp.kernel hg0 hw hseen
      refine ⟨by omega, hf.packetTau, hh, Or.inr ⟨rfl, ?_, hf.packetTimeToWrite, hf.updates⟩⟩
      rw [hf.g_eq]
    | fatal =>
      rw [hret] at h
      cases h

end CSBuFLO
