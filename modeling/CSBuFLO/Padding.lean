/-
# The padding target of csbuflo mode

An idle csbuflo page goes on until the total number of bytes sent is near a target, a multiple
of the least power of two that covers the real data.  The test for the end of the page comes
before the target is computed again, so that it compares the total of this slot with the
target of an earlier one; real data counted in between may have doubled the power of two.

A run carries a log of the count of real bytes the target was computed from.  In a run in
which the covering power of two at the end of every page is still the one of the target
(`SteadyBase`), the total is near a multiple of it.
-/
import CSBuFLO.Cursor

namespace CSBuFLO

variable {σ β : Type}

/-! ## The target -/

/-- The least power of two that covers `real` bytes, 2 if there are none. -/
def paddingBase (real : ℤ) : ℤ := if real ≤ 0 then 2 else 2 ^ Nat.clog 2 real.toNat

theorem paddingBase_pos (real : ℤ) : 0 < paddingBase real := by
  unfold paddingBase
  split <;> positivity

/-- The base covers the real data, and no smaller power of two does. -/
theorem paddingBase_le_iff {real : ℤ} (h : 0 < real) (k : ℕ) :
    paddingBase real ≤ 2 ^ k ↔ real ≤ 2 ^ k := by
  unfold paddingBase
  rw [if_neg (by omega)]
  have hcast : ((2 : ℤ) ^ Nat.clog 2 real.toNat ≤ 2 ^ k) ↔ Nat.clog 2 real.toNat ≤ k :=
    pow_le_pow_iff_right₀ (by decide)
  rw [hcast, Nat.clog_le_iff_le_pow (by decide), Int.toNat_le]
  push_cast
  exact Iff.rfl

/-- The target is a multiple of the base. -/
theorem paddingTarget_eq (real total : ℤ) :
    ∃ m, paddingTarget real total = paddingBase real * m := ⟨_, rfl⟩

/-- The total is within one packet of a multiple of the base. -/
def NearMultiple (real total : ℤ) : Prop :=
  ∃ k : ℕ, |k * paddingBase real - total| < targetQueueLen

/-- A total that is near a multiple of the base is near one that is not negative. -/
theorem nearMultiple_of_target {real total m : ℤ} (htotal : 0 ≤ total)
    (habove : paddingBase real * m + targetQueueLen > total)
    (hbelow : total + targetQueueLen > paddingBase real * m) : NearMultiple real total := by
  have hpos := paddingBase_pos real
  rcases le_or_gt 0 m with hm | hm
  · refine ⟨m.toNat, ?_⟩
    rw [Int.toNat_of_nonneg hm, abs_lt, mul_comm]
    omega
  · refine ⟨0, ?_⟩
    have : paddingBase real * m < 0 := mul_neg_of_pos_of_neg hpos hm
    rw [abs_lt]
    push_cast
    omega

/-- A base of at most 1024 bytes has a multiple near every total. -/
theorem nearMultiple_of_small {real total : ℤ} (htotal : 0 ≤ total) (hreal : real ≤ 1024) :
    NearMultiple real total := by
  have hpos := paddingBase_pos real
  have hbase : paddingBase real ≤ 1024 := by
    rcases le_or_gt real 0 with h0 | h0
    · unfold paddingBase
      rw [if_pos h0]
      decide
    · exact (paddingBase_le_iff h0 10).mpr hreal
  -- round to the nearest multiple
  have hdiv := Int.mul_ediv_add_emod (total + 512) (paddingBase real)
  have hmod := Int.emod_nonneg (total + 512) hpos.ne'
  have hlt := Int.emod_lt_of_pos (total + 512) hpos
  have hquot : 0 ≤ (total + 512) / paddingBase real := Int.ediv_nonneg (by omega) hpos.le
  refine ⟨((total + 512) / paddingBase real).toNat, ?_⟩
  rw [Int.toNat_of_nonneg hquot, mul_comm, abs_lt]
  have : (targetQueueLen : ℤ) = 548 := rfl
  omega

/-! ## What a slot does to the total and the target -/

variable {c : Codec σ β} {e e' : Endpoint σ β} {inp : SlotInput} {r : Role} {T : Tables}

/-- The end of the transcript resets the total when it changes to csbuflo mode. -/
theorem totals_endTranscript {n : ℕ} (h : endTranscript c r inp n e = some e')
    (hmode : e.g.stmode = .supertrace) :
    e'.totals = (if e'.g.stmode = .csbuflo then 0 else e.totals.1, e.totals.2) := by
  obtain ⟨e1, h1, h2⟩ := Option.bind_eq_some_iff.mp h
  obtain ⟨_, _, _, rfl⟩ := queueTend_eq_some h1
  rcases leaveTranscript_cases h2 with hnormal | rfl | ⟨idle, rfl⟩
  · have hleft := stmode_switchToNormal hnormal
    have htotals := totals_switchToNormal hnormal
    rw [hleft, if_neg (by decide)]
    exact htotals
  · rfl
  · -- still in transcript mode
    rw [if_neg (by rw [hmode]; decide)]
    rfl

theorem totals_planItem (T : Tables) (r : Role) (inp : SlotInput) (e : Endpoint σ β) :
    (planItem T r inp e).2.totals = e.totals := by
  rw [planItem_eq]
  rfl

theorem totals_scheduleItem (r : Role) (inp : SlotInput) (n : ℕ) (item : StPair)
    (e : Endpoint σ β) : (scheduleItem r inp n item e).totals = e.totals := by
  have htreat : (treatItem r inp item e).paddedJunk = e.g.paddedJunk := by
    unfold treatItem
    dsimp only
    rw [admitItem_eq]
    split
    · rfl
    · split <;> rfl
    · rfl
  rw [scheduleItem_eq]
  exact congrArg (fun j => (e.loop.totalSentBytes, e.loop.targetSentBytes, j)) htreat

/-- The transcript part of a slot only resets the total, when it changes to csbuflo mode. -/
theorem totals_transcriptSlot {n : ℕ} (h : transcriptSlot c T r inp n e = some e')
    (hmode : e.g.stmode = .supertrace) :
    e'.totals = (if e'.g.stmode = .csbuflo then 0 else e.totals.1, e.totals.2) := by
  rw [transcriptSlot_eq] at h
  split at h
  · have hend := totals_endTranscript h ((stmode_planItem T r inp e).trans hmode)
    rwa [totals_planItem] at hend
  · rw [← Option.some.inj h, stmode_scheduleItem, stmode_planItem, hmode, if_neg (by decide),
      totals_scheduleItem, totals_planItem]

/-- The accounting after a write adds to the total. -/
theorem totals_accountSent (r : Role) (inp : SlotInput) (n : ℕ) (incoming : ℤ) (before : ℕ)
    (e : Endpoint σ β) :
    (accountSent r inp n incoming before e).totals =
      (e.loop.totalSentBytes + sentBytes before e, e.loop.targetSentBytes, e.g.paddedJunk) := by
  obtain ⟨_, _, _, _, _, _, _, _, heq, -⟩ := accountSent_eq r inp n incoming before e
  rw [heq]
  rfl

/-- The target after the idle branch. -/
def nextTarget (r : Role) (n : ℕ) (l : LoopState) : ℤ :=
  if pageOver r n l = true ∨ l.totalSentBytes = 0 then 0
  else paddingTarget l.curTotalRealincomingBytes l.totalSentBytes

/-- The idle branch computes the target again; with nothing sent yet it is 0. -/
theorem totals_idleBudget (n : ℕ) (e : Endpoint σ β) :
    (idleBudget n e).totals = (e.loop.totalSentBytes,
      if e.loop.totalSentBytes = 0 then 0
        else paddingTarget e.loop.curTotalRealincomingBytes e.loop.totalSentBytes,
      e.g.paddedJunk) := by
  unfold idleBudget
  split
  · rfl
  · unfold Endpoint.totals
    dsimp only
    split <;> rfl

/-- **The csbuflo part of a slot**: it resets or keeps the total, and the idle branch computes
the target again. -/
theorem totals_csbufloSlot {n : ℕ} (h : csbufloSlot c r inp n e = some e') :
    e'.totals.2 = (if csbufloIdle inp n e then nextTarget r n e.loop else e.loop.targetSentBytes,
        e.g.paddedJunk) ∧
      e'.loop.totalSentBytes =
        if csbufloIdle inp n e && pageOver r n e.loop then 0 else e.loop.totalSentBytes := by
  cases csbufloStep_csbufloSlot h with
  | other _ hidle he =>
    subst he
    rw [hidle]
    exact ⟨rfl, rfl⟩
  | busy _ hidle he =>
    subst he
    rw [hidle]
    exact ⟨rfl, rfl⟩
  | ends _ hidle hover e1 hleave he =>
    -- the total is reset, so the target is too
    subst he
    have hnew := totals_idleBudget n e1
    have hreset := totals_leaveCsbuflo hleave
    have htotal : e1.loop.totalSentBytes = 0 := congrArg Prod.fst hreset
    have hjunk : e1.g.paddedJunk = e.g.paddedJunk := congrArg (fun t => t.2.2) hreset
    rw [if_pos htotal, htotal] at hnew
    unfold nextTarget
    rw [hidle, hover, if_pos rfl, if_pos (Or.inl rfl), ← hjunk]
    exact ⟨congrArg Prod.snd hnew, congrArg Prod.fst hnew⟩
  | idle _ hidle hover he =>
    subst he
    have hnew := totals_idleBudget n (csbufloBudget inp n e)
    unfold nextTarget
    rw [hidle, hover]
    simp only [Bool.false_eq_true, false_or, if_true, Bool.and_false, if_false]
    exact ⟨congrArg Prod.snd hnew, congrArg Prod.fst hnew⟩

/-- The junk counter covers what a poll adds to the buffer. -/
theorem junk_packetWritePoll {inp : PollInput} {g g' : Globals} {p p' : PacketState σ β}
    (h : packetWritePoll c inp g p = .returned (g', p')) (hg : 0 ≤ g.paddedJunk) :
    0 ≤ g'.paddedJunk ∧ (p'.outputLen : ℤ) ≤ p.outputLen + g'.paddedJunk := by
  by_cases hgate : inp.now < p.packetTimeToWrite
  · unfold packetWritePoll at h
    rw [if_pos hgate] at h
    cases h
    exact ⟨hg, by omega⟩
  obtain ⟨g1, p1, hwrites, heq⟩ := packetWritePoll_eq_returned h (by omega)
  have hinv := inv_pollWrites (c := c)
    (J := fun g1 p1 => 0 ≤ g1.paddedJunk ∧ (p1.outputLen : ℤ) ≤ p.outputLen + g1.paddedJunk)
    ?_ inp.kernel { g with paddedJunk := 0 } p ⟨le_refl _, by simp⟩
  · rw [hwrites] at hinv
    cases heq
    split <;> exact hinv
  · intro g1 g2 ori ori' k p1 p2 hJ hone
    obtain ⟨-, -, rfl, rfl⟩ | ⟨aw, p3, acc, -, -, hp3, -, -, rfl, rfl⟩ :=
      packetWritePollOneWrite_cases hone
    · exact hJ
    · have hlen : p1.outputLen ≤ p3.outputLen := by
        rw [outputLen_padOutput hp3]
        unfold paddedLength
        split <;> omega
      have hpadded : aw ≤ p1.outputLen → p3.outputLen = p1.outputLen := by
        intro hle
        rw [outputLen_padOutput hp3]
        exact if_pos hle
      rw [paddedJunk_afterWrite, paddedJunk_padJunk g1 hpadded, outputLen_consume_handOver]
      omega

/-! ## Runs -/

/-- The state in which a slot reaches the idle branch of csbuflo mode. -/
def idleBranch (c : Codec σ β) (T : Tables) (r : Role) (inp : SlotInput) (e : Endpoint σ β) :
    Option (Endpoint σ β) :=
  let e := unloadStep inp.now e
  if shouldSend r inp e then
    (if e.g.stmode = .supertrace then transcriptSlot c T r inp e.pkt.outputLen e else some e).bind
      fun e1 => if csbufloIdle inp e.pkt.outputLen e1 then some e1 else none
  else none

/-- The count of real bytes the target was computed from; none while the target is 0. -/
abbrev TargetLog : Type := Option ℤ

/-- The log after an event. -/
def targetLog (c : Codec σ β) (T : Tables) (r : Role) (e : Endpoint σ β) (ev : EndpointEvent)
    (_ : Endpoint σ β) (l : TargetLog) : TargetLog :=
  match ev with
  | .slot inp =>
    match idleBranch c T r inp e with
    | some e1 =>
      if pageOver r e.pkt.outputLen e1.loop = true ∨ e1.loop.totalSentBytes = 0 then none
      else some e1.loop.curTotalRealincomingBytes
    | none => l
  | _ => l

/-- A page that ends in csbuflo mode is padded: the property of one event. -/
def PaddedTotal (c : Codec σ β) (T : Tables) (r : Role) (x : Endpoint σ β × TargetLog)
    (ev : EndpointEvent) (_ : Endpoint σ β × TargetLog) : Prop :=
  ∀ inp e1, ev = .slot inp → idleBranch c T r inp x.1 = some e1 →
    pageOver r x.1.pkt.outputLen e1.loop = true →
      NearMultiple e1.loop.curTotalRealincomingBytes e1.loop.totalSentBytes

/-- When a page ends in csbuflo mode, the base is still the one the target was computed from,
or there are at most 1024 real bytes. -/
def SteadyBase (c : Codec σ β) (T : Tables) (r : Role) (x : Endpoint σ β × TargetLog)
    (ev : EndpointEvent) (_ : Endpoint σ β × TargetLog) : Prop :=
  ∀ inp e1 real, ev = .slot inp → idleBranch c T r inp x.1 = some e1 →
    pageOver r x.1.pkt.outputLen e1.loop = true → x.2 = some real →
      paddingBase e1.loop.curTotalRealincomingBytes = paddingBase real ∨
        e1.loop.curTotalRealincomingBytes ≤ 1024

/-- The total is not negative, and the target is a multiple of the base it was computed from. -/
structure TargetInv (e : Endpoint σ β) (l : TargetLog) : Prop where
  junk : 0 ≤ e.g.paddedJunk
  total : 0 ≤ e.loop.totalSentBytes
  reset : l = none → e.loop.targetSentBytes = 0
  target : ∀ real, l = some real → ∃ m, e.loop.targetSentBytes = paddingBase real * m

/-- What a slot computes from its idle branch. -/
def targetAfter (r : Role) (e : Endpoint σ β) : Option (Endpoint σ β) → ℤ
  | some e1 => nextTarget r e.pkt.outputLen e1.loop
  | none => e.loop.targetSentBytes

theorem totals_unloadStep (now : ℕ) (e : Endpoint σ β) : (unloadStep now e).totals = e.totals := by
  unfold unloadStep
  split_ifs <;> rfl

/-- The part of a slot before its csbuflo part keeps the target, and the total does not
become negative. -/
theorem totals_beforeCsbuflo {n : ℕ} {e1 : Endpoint σ β}
    (h : (if e.g.stmode = .supertrace then transcriptSlot c T r inp n e else some e) = some e1)
    (htotal : 0 ≤ e.loop.totalSentBytes) :
    e1.totals.2 = e.totals.2 ∧ 0 ≤ e1.loop.totalSentBytes := by
  split at h
  · rename_i hmode
    have hslot := totals_transcriptSlot h hmode
    have htotal1 : e1.loop.totalSentBytes =
        if e1.g.stmode = .csbuflo then 0 else e.loop.totalSentBytes := congrArg Prod.fst hslot
    refine ⟨by rw [hslot], ?_⟩
    rw [htotal1]
    split
    · exact le_refl 0
    · exact htotal
  · obtain rfl := Option.some.inj h
    exact ⟨rfl, htotal⟩

/-- **A slot**: its idle branch sees the target of the state before, and decides on the next
one; the total and the junk counter do not become negative. -/
theorem totals_slot (h : slot c T r inp e = .returned e') (hjunk : 0 ≤ e.g.paddedJunk)
    (htotal : 0 ≤ e.loop.totalSentBytes) :
    e'.loop.targetSentBytes = targetAfter r e (idleBranch c T r inp e) ∧
      0 ≤ e'.loop.totalSentBytes ∧ 0 ≤ e'.g.paddedJunk ∧
      ∀ e1, idleBranch c T r inp e = some e1 →
        e1.loop.targetSentBytes = e.loop.targetSentBytes ∧ 0 ≤ e1.loop.totalSentBytes := by
  have hunload := totals_unloadStep inp.now e
  have hlen := pkt_unloadStep inp.now e
  have htarget0 : (unloadStep inp.now e).loop.targetSentBytes = e.loop.targetSentBytes :=
    congrArg (fun t => t.2.1) hunload
  have hjunk0 : 0 ≤ (unloadStep inp.now e).g.paddedJunk := by
    rw [show (unloadStep inp.now e).g.paddedJunk = e.g.paddedJunk from
      congrArg (fun t => t.2.2) hunload]
    exact hjunk
  have htotal0 : 0 ≤ (unloadStep inp.now e).loop.totalSentBytes := by
    rw [show (unloadStep inp.now e).loop.totalSentBytes = e.loop.totalSentBytes from
      congrArg Prod.fst hunload]
    exact htotal
  unfold idleBranch
  dsimp only
  rcases slot_eq_returned h with ⟨hsend, rfl⟩ | ⟨hsend, e3, g, p, incoming, hdec, hpoll, rfl⟩
  · -- a skipped slot has no idle branch
    rw [if_neg (by rw [hsend]; decide)]
    have hskip : (skipSlot (unloadStep inp.now e)).totals = (unloadStep inp.now e).totals := by
      unfold skipSlot
      split <;> rfl
    have htotal1 : (skipSlot (unloadStep inp.now e)).loop.totalSentBytes =
        (unloadStep inp.now e).loop.totalSentBytes := congrArg Prod.fst hskip
    rw [(skipSlot_sameScript _).2]
    exact ⟨(congrArg (fun t => t.2.1) hskip).trans htarget0, by omega, hjunk0,
      fun _ h1 => (nomatch h1)⟩
  rw [if_pos hsend]
  obtain ⟨e2, h2, h3⟩ := Option.bind_eq_some_iff.mp hdec
  obtain ⟨hsame2, htotal2⟩ := totals_beforeCsbuflo h2 htotal0
  obtain ⟨hnext, htotal3⟩ := totals_csbufloSlot h3
  have htarget2 : e2.loop.targetSentBytes = e.loop.targetSentBytes :=
    (congrArg Prod.fst hsame2).trans htarget0
  have hjunk3 : 0 ≤ e3.g.paddedJunk := by
    rw [show e3.g.paddedJunk = (unloadStep inp.now e).g.paddedJunk from
      (congrArg Prod.snd hnext).trans (congrArg Prod.snd hsame2)]
    exact hjunk0
  obtain ⟨hjunk4, hsent⟩ := junk_packetWritePoll hpoll hjunk3
  have hacc := totals_accountSent r inp (unloadStep inp.now e).pkt.outputLen incoming
    e3.pkt.outputLen { e3 with g := g, pkt := p }
  rw [h2, Option.bind_some, hlen]
  rw [hlen] at hnext hacc
  generalize accountSent r inp e.pkt.outputLen incoming e3.pkt.outputLen
    { e3 with g := g, pkt := p } = e4 at hacc ⊢
  have htotal4 : e4.loop.totalSentBytes =
      e3.loop.totalSentBytes + ((e3.pkt.outputLen : ℤ) + g.paddedJunk - p.outputLen) :=
    congrArg Prod.fst hacc
  have hjunk5 : e4.g.paddedJunk = g.paddedJunk := congrArg (fun t => t.2.2) hacc
  refine ⟨?_, by omega, by omega, ?_⟩
  · refine (congrArg (fun t => t.2.1) hacc).trans ((congrArg Prod.fst hnext).trans ?_)
    dsimp only
    split
    · rfl
    · exact htarget2
  · intro e1 h1
    split at h1
    · obtain rfl := Option.some.inj h1
      exact ⟨htarget2, htotal2⟩
    · cases h1

/-- A slot keeps the invariant. -/
theorem TargetInv.afterSlot {l : TargetLog} (h : TargetInv e l)
    (hs : slot c T r inp e = .returned e') : TargetInv e' (targetLog c T r e (.slot inp) e' l) := by
  obtain ⟨htarget, htotal, hjunk, -⟩ := totals_slot hs h.junk h.total
  unfold targetLog
  dsimp only
  cases hidle : idleBranch c T r inp e with
  | none =>
    rw [hidle] at htarget
    dsimp only [targetAfter] at htarget
    exact ⟨hjunk, htotal, fun hl => htarget.trans (h.reset hl),
      fun real hl => htarget ▸ h.target real hl⟩
  | some e1 =>
    rw [hidle] at htarget
    dsimp only [targetAfter, nextTarget] at htarget
    dsimp only
    split_ifs at htarget ⊢
    · exact ⟨hjunk, htotal, fun _ => htarget, fun _ hl => (nomatch hl)⟩
    · refine ⟨hjunk, htotal, fun hl => (nomatch hl), ?_⟩
      rintro _ ⟨⟩
      rw [htarget]
      exact paddingTarget_eq _ _

/-- A slot that ends a page finds its total near a multiple of the base. -/
theorem TargetInv.padded {e1 : Endpoint σ β} {l : TargetLog} (h : TargetInv e l)
    (hs : slot c T r inp e = .returned e') (hidle : idleBranch c T r inp e = some e1)
    (hover : pageOver r e.pkt.outputLen e1.loop = true)
    (hbase : ∀ real, l = some real →
      paddingBase e1.loop.curTotalRealincomingBytes = paddingBase real ∨
        e1.loop.curTotalRealincomingBytes ≤ 1024) :
    NearMultiple e1.loop.curTotalRealincomingBytes e1.loop.totalSentBytes := by
  obtain ⟨htarget, htotal⟩ := (totals_slot hs h.junk h.total).2.2.2 e1 hidle
  have habove : e1.loop.targetSentBytes + targetQueueLen > e1.loop.totalSentBytes ∧
      e1.loop.totalSentBytes + targetQueueLen > e1.loop.targetSentBytes := by
    unfold pageOver at hover
    simp only [Bool.and_eq_true, decide_eq_true_eq] at hover
    exact ⟨hover.1.2, hover.2⟩
  cases l with
  | none =>
    rw [htarget, h.reset rfl] at habove
    exact nearMultiple_of_target (m := 0) htotal (by rw [mul_zero]; exact habove.1)
      (by rw [mul_zero]; exact habove.2)
  | some real =>
    rcases hbase real rfl with heq | hsmall
    · obtain ⟨m, hm⟩ := h.target real rfl
      rw [htarget, hm, ← heq] at habove
      exact nearMultiple_of_target htotal habove.1 habove.2
    · exact nearMultiple_of_small htotal hsmall

/-- **Every event keeps the invariant and ends no page away from its target.** -/
theorem TargetInv.endpointStep {ev : EndpointEvent} {l : TargetLog} (h : TargetInv e l)
    (hG : SteadyBase c T r (e, l) ev (e', targetLog c T r e ev e' l))
    (hs : endpointStep c T r e ev = some e') :
    TargetInv e' (targetLog c T r e ev e' l) ∧
      PaddedTotal c T r (e, l) ev (e', targetLog c T r e ev e' l) := by
  have hsame : e'.loop = e.loop → e'.g.paddedJunk = e.g.paddedJunk → TargetInv e' l := by
    intro hloop hjunk
    exact ⟨hjunk ▸ h.junk, hloop ▸ h.total, hloop ▸ h.reset, hloop ▸ h.target⟩
  rcases endpointStep_cases hs with ⟨inp, rfl, hslot⟩ | ⟨hno, hflag⟩ | ⟨hpage, hev⟩
  · refine ⟨h.afterSlot hslot, ?_⟩
    rintro _ e1 ⟨⟩ hidle hover
    exact h.padded hslot hidle hover fun real hl => hG inp e1 real rfl hidle hover hl
  · have hlog : targetLog c T r e ev e' l = l := by
      cases ev with
      | slot inp => exact absurd rfl (hno inp)
      | _ => rfl
    rw [hlog]
    exact ⟨hsame hflag.loop hflag.junk, fun inp _ hinp => absurd hinp (hno inp)⟩
  · obtain ⟨p, -, rfl⟩ | ⟨ts, payload, beyond, u, rfl, -⟩ := hev
    · exact ⟨hsame hpage.loop hpage.junk, fun _ _ hinp => (nomatch hinp)⟩
    · exact ⟨hsame hpage.loop hpage.junk, fun _ _ hinp => (nomatch hinp)⟩

/-- **The padding target.**  In every run of an end, with any peer, in which the base at the
end of every csbuflo page is still the one the target was computed from, or covers at most
1024 bytes, the total at the end of every such page is within one packet of a multiple of the
base. -/
theorem csbuflo_padded (c : Codec σ β) (T : Tables) (r : Role) (snd : σ)
    (evs : List EndpointEvent)
    (hG : Transition.Along (Transition.logStep (endpointStep c T r) (targetLog c T r))
      (SteadyBase c T r) (({ pkt := { snd := snd } } : Endpoint σ β), none) evs) :
    Transition.Along (Transition.logStep (endpointStep c T r) (targetLog c T r))
      (PaddedTotal c T r) (({ pkt := { snd := snd } } : Endpoint σ β), none) evs := by
  refine Transition.along_of_inv (G := SteadyBase c T r) (I := fun x => TargetInv x.1 x.2) ?_ hG
    ⟨le_refl _, le_refl _, fun _ => rfl, fun _ h => (nomatch h)⟩
  rintro ⟨e, l⟩ ev ⟨e', l'⟩ hi hg hlog
  obtain ⟨hs, rfl⟩ := Transition.logStep_eq_some.mp hlog
  exact hi.endpointStep hg hs

/-- The steps of a client without traces, with the log. -/
abbrev tracelessStep :
    Endpoint (SendState Unit) UInt8 × TargetLog → EndpointEvent →
      Option (Endpoint (SendState Unit) UInt8 × TargetLog) :=
  Transition.logStep (endpointStep plainCodec noTables .client)
    (targetLog plainCodec noTables .client)

/-- `SteadyBase`, computed. -/
def steadyBase (x : Endpoint (SendState Unit) UInt8 × TargetLog) (ev : EndpointEvent)
    (_ : Endpoint (SendState Unit) UInt8 × TargetLog) : Bool :=
  match ev with
  | .slot inp =>
    match idleBranch plainCodec noTables .client inp x.1 with
    | some e1 => decide (e1.loop.curTotalRealincomingBytes ≤ 1024)
    | none => true
  | _ => true

theorem steadyBase_sound {x x' : Endpoint (SendState Unit) UInt8 × TargetLog} {ev : EndpointEvent}
    (h : steadyBase x ev x' = true) : SteadyBase plainCodec noTables .client x ev x' := by
  rintro inp e1 real rfl hidle - -
  unfold steadyBase at h
  dsimp only at h
  rw [hidle] at h
  exact Or.inr (of_decide_eq_true h)

/-- A page whose only data is its URL: it ends at 5.1 seconds. -/
def quietPage : List EndpointEvent :=
  [.socks (urlRequest 97), .slot (shutSlot 50000), .slot (openSlot 100000),
    .slot (openSlot 5000000)]

/-- The quiet page ends after 552 bytes, 320 of them real: near 512. -/
theorem csbuflo_padded_quietPage :
    ∃ x x' e1, Transition.run tracelessStep (plainEndpoint, none) quietPage = some x ∧
      tracelessStep x (.slot (openSlot 5100000)) = some x' ∧
      idleBranch plainCodec noTables .client (openSlot 5100000) x.1 = some e1 ∧
      pageOver .client x.1.pkt.outputLen e1.loop = true ∧
      NearMultiple e1.loop.curTotalRealincomingBytes e1.loop.totalSentBytes := by
  obtain ⟨x, hx, x', hx', e1, hidle, hover⟩ : ∃ x, Transition.run tracelessStep
      (plainEndpoint, none) quietPage = some x ∧
      ∃ x', tracelessStep x (.slot (openSlot 5100000)) = some x' ∧
      ∃ e1, idleBranch plainCodec noTables .client (openSlot 5100000) x.1 = some e1 ∧
        pageOver .client x.1.pkt.outputLen e1.loop = true := by
    decide +kernel
  have hguard : Transition.Along tracelessStep (SteadyBase plainCodec noTables .client)
      (plainEndpoint, none) (quietPage ++ [.slot (openSlot 5100000)]) :=
    Transition.Along.imp (P := fun x ev x' => steadyBase x ev x' = true)
      (fun _ _ _ => steadyBase_sound) (by decide +kernel)
  exact ⟨x, x', e1, hx, hx', hidle, hover,
    (csbuflo_padded _ _ _ _ _ hguard).last hx hx' _ e1 rfl hidle hover⟩

/-- A page with a load event, after which 696 bytes of data are sent. -/
def lateData : List EndpointEvent :=
  [.socks (urlRequest 97), .slot (shutSlot 50000), .slot (openSlot 100000),
    .socks fun i => [5, 4].getD i 0, .slot (openSlot 200000),
    .data 0 (94 :: List.replicate 680 0), .slot (openSlot 300000)]

/-- **A page that ends away from every multiple.**  The target 1024 was computed from 344 real
bytes, in the slot that then sent 696 more.  The next slot ends the page with a total of 1272
bytes, 1040 of them real: no multiple of 2048 is within 548 bytes.  Every slot writes only if the
loop had asked for the connection. -/
theorem csbuflo_ends_unpadded :
    ∃ x x' e1, Transition.run tracelessStep (plainEndpoint, none) lateData = some x ∧
      tracelessStep x (.slot (openSlot 400000)) = some x' ∧
      Transition.Along tracelessStep (fun x ev _ => ev.asked x.1 = true) (plainEndpoint, none)
        (lateData ++ [.slot (openSlot 400000)]) ∧
      idleBranch plainCodec noTables .client (openSlot 400000) x.1 = some e1 ∧
      pageOver .client x.1.pkt.outputLen e1.loop = true ∧ x'.1.g.stmode = .normal ∧
      e1.loop.totalSentBytes = 1272 ∧ e1.loop.curTotalRealincomingBytes = 1040 ∧
      ¬NearMultiple e1.loop.curTotalRealincomingBytes e1.loop.totalSentBytes := by
  obtain ⟨x, hx, x', hx', hasked, e1, hidle, hover, hmode, htotal, hreal⟩ : ∃ x,
      Transition.run tracelessStep (plainEndpoint, none) lateData = some x ∧
      ∃ x', tracelessStep x (.slot (openSlot 400000)) = some x' ∧
      Transition.Along tracelessStep (fun x ev _ => ev.asked x.1 = true) (plainEndpoint, none)
        (lateData ++ [.slot (openSlot 400000)]) ∧
      ∃ e1, idleBranch plainCodec noTables .client (openSlot 400000) x.1 = some e1 ∧
      pageOver .client x.1.pkt.outputLen e1.loop = true ∧ x'.1.g.stmode = .normal ∧
      e1.loop.totalSentBytes = 1272 ∧ e1.loop.curTotalRealincomingBytes = 1040 := by
    decide +kernel
  refine ⟨x, x', e1, hx, hx', hasked, hidle, hover, hmode, htotal, hreal, ?_⟩
  rw [htotal, hreal]
  rintro ⟨k, hk⟩
  have hbase : paddingBase 1040 = 2048 := by decide +kernel
  rw [hbase, abs_lt] at hk
  have : (targetQueueLen : ℤ) = 548 := rfl
  omega

end CSBuFLO
