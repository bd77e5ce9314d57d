/-
# Where an endpoint is in its trace

The globals that belong to the replay of a trace form the `Script` of an endpoint.  Only
three things change it: the transcript part of a slot, received packets and the start of a
page.  `SlotStep` says once what a slot can do to the script, the budget and the mode,
`FlagStep` and `PageStep` what the other events can do, and `OffSlot` what these leave alone;
invariants of the reachable states of an endpoint (`Reached`) follow from them.
-/
import CSBuFLO.PacketRead
import CSBuFLO.Slot

namespace CSBuFLO

variable {σ β : Type}

/-! ## The script -/

/-- The globals that say where an endpoint is in the trace and what it waits for. -/
structure Script where
  clusterId : ℤ
  stIndex : ℤ
  curItem : Option StPair
  onloadFlag : Bool
  transcriptEnd : Bool
  firstClient : Bool
  secondClient : Bool
  urlack : Bool
  receivedSofar : ℕ

def Globals.script (g : Globals) : Script where
  clusterId := g.clusterId
  stIndex := g.stIndex
  curItem := g.curItem
  onloadFlag := g.onloadFlag
  transcriptEnd := g.transcriptEnd
  firstClient := g.firstClient
  secondClient := g.secondClient
  urlack := g.urlack
  receivedSofar := g.receivedSofar

theorem WriteFrame.script {g g' : Globals} (h : WriteFrame g g') : g'.script = g.script := by
  rw [h.eq]
  rfl

theorem WriteFrame.nonneg {g g' : Globals} (h : WriteFrame g g') (hw : 0 ≤ g.w2w) : 0 ≤ g'.w2w := by
  rcases h.w2w with heq | hzero
  · rw [heq]
    exact hw
  · exact le_of_eq hzero.symm

/-- What the rest of a slot leaves alone. -/
structure SameScript (e e' : Endpoint σ β) : Prop where
  script : e'.g.script = e.g.script
  waiting : e'.loop.waitingForAPacket = e.loop.waitingForAPacket
  deadlock : e'.loop.deadlockStart = e.loop.deadlockStart

variable {e e' : Endpoint σ β} {c : Codec σ β} {r : Role} {inp : SlotInput} {T : Tables}

theorem SameScript.trans {e'' : Endpoint σ β} (h : SameScript e e') (h' : SameScript e' e'') :
    SameScript e e'' :=
  ⟨h'.script.trans h.script, h'.waiting.trans h.waiting, h'.deadlock.trans h.deadlock⟩

theorem sameScript_switchToNormal (h : switchToNormal c r e = some e') :
    SameScript e e' ∧ e'.g.w2w = e.g.w2w := by
  obtain ⟨_, _, _, _, rfl⟩ := switchToNormal_eq_some h
  exact ⟨⟨rfl, rfl, rfl⟩, rfl⟩

/-- The total, the target and the junk counter. -/
def Endpoint.totals (e : Endpoint σ β) : ℤ × ℤ × ℤ :=
  (e.loop.totalSentBytes, e.loop.targetSentBytes, e.g.paddedJunk)

theorem totals_switchToNormal (h : switchToNormal c r e = some e') : e'.totals = e.totals := by
  obtain ⟨_, _, _, _, rfl⟩ := switchToNormal_eq_some h
  rfl

theorem stmode_switchToNormal (h : switchToNormal c r e = some e') : e'.g.stmode = .normal := by
  obtain ⟨_, _, _, _, rfl⟩ := switchToNormal_eq_some h
  rfl

/-- Leaving csbuflo mode resets the total. -/
theorem totals_leaveCsbuflo (h : leaveCsbuflo c r e = some e') : e'.totals = (0, e.totals.2) := by
  unfold leaveCsbuflo at h
  cases r with
  | client =>
    obtain ⟨e1, h1, h2⟩ := Option.bind_eq_some_iff.mp h
    obtain ⟨pkt, -, rfl⟩ := Option.map_eq_some_iff.mp h1
    exact totals_switchToNormal h2
  | server => exact totals_switchToNormal h

theorem sameScript_endTranscript {n : ℕ} (h : endTranscript c r inp n e = some e') :
    SameScript (noItem e) e' ∧ e'.g.w2w = e.g.w2w ∧
      (e'.g.sentTend = true → e.g.sentTend = true ∨ e.g.w2w = 0) := by
  obtain ⟨e1, h1, h2⟩ := Option.bind_eq_some_iff.mp h
  have htend : SameScript (noItem e) e1 ∧ e1.g.w2w = e.g.w2w := by
    obtain ⟨_, _, _, rfl⟩ := queueTend_eq_some h1
    exact ⟨⟨rfl, rfl, rfl⟩, rfl⟩
  have hleave : SameScript e1 e' ∧ e'.g.w2w = e1.g.w2w := by
    rcases leaveTranscript_cases h2 with hnormal | rfl | ⟨idle, rfl⟩
    · exact sameScript_switchToNormal hnormal
    · exact ⟨⟨rfl, rfl, rfl⟩, rfl⟩
    · exact ⟨⟨rfl, rfl, rfl⟩, rfl⟩
  refine ⟨htend.1.trans hleave.1, hleave.2.trans htend.2, fun hsent => ?_⟩
  by_cases hw : e.g.w2w = 0
  · exact Or.inr hw
  · rw [endTranscript_of_budget c r inp n hw] at h
    rw [← Option.some.inj h] at hsent
    exact Or.inl hsent

theorem sameScript_leaveCsbuflo (h : leaveCsbuflo c r e = some e') (hw : 0 ≤ e.g.w2w) :
    SameScript e e' ∧ 0 ≤ e'.g.w2w := by
  unfold leaveCsbuflo at h
  cases r with
  | client =>
    obtain ⟨e1, h1, h2⟩ := Option.bind_eq_some_iff.mp h
    obtain ⟨pkt, -, rfl⟩ := Option.map_eq_some_iff.mp h1
    obtain ⟨hsame, hbudget⟩ := sameScript_switchToNormal h2
    refine ⟨⟨hsame.script, hsame.waiting, hsame.deadlock⟩, ?_⟩
    rw [hbudget]
    exact hw
  | server =>
    obtain ⟨hsame, hbudget⟩ := sameScript_switchToNormal h
    refine ⟨⟨hsame.script, hsame.waiting, hsame.deadlock⟩, ?_⟩
    rw [hbudget]
    exact Globals.setW2w_nonneg _ _

theorem sameScript_idleBudget (n : ℕ) (hw : 0 ≤ e.g.w2w) :
    SameScript e (idleBudget n e) ∧ 0 ≤ (idleBudget n e).g.w2w := by
  unfold idleBudget
  split
  · exact ⟨⟨rfl, rfl, rfl⟩, Globals.setW2w_nonneg _ _⟩
  · dsimp only
    split
    · exact ⟨⟨rfl, rfl, rfl⟩, Globals.setW2w_nonneg _ _⟩
    · exact ⟨⟨rfl, rfl, rfl⟩, hw⟩

/-- The csbuflo part of a slot leaves the script alone. -/
theorem sameScript_csbufloSlot {n : ℕ} (h : csbufloSlot c r inp n e = some e') (hw : 0 ≤ e.g.w2w) :
    SameScript e e' ∧ 0 ≤ e'.g.w2w := by
  cases csbufloStep_csbufloSlot h with
  | other _ _ he =>
    rw [he]
    exact ⟨⟨rfl, rfl, rfl⟩, hw⟩
  | busy _ _ he =>
    rw [he]
    exact ⟨⟨rfl, rfl, rfl⟩, Globals.setW2w_nonneg _ _⟩
  | ends _ _ _ e1 hleave he =>
    obtain ⟨hsame1, hbudget1⟩ := sameScript_leaveCsbuflo hleave (Globals.setW2w_nonneg _ _)
    obtain ⟨hsame, hbudget⟩ := sameScript_idleBudget n hbudget1
    rw [he]
    exact ⟨⟨hsame.script.trans hsame1.script, hsame.waiting.trans hsame1.waiting,
      hsame.deadlock.trans hsame1.deadlock⟩, hbudget⟩
  | idle _ _ _ he =>
    have hbudget1 : 0 ≤ (csbufloBudget inp n e).g.w2w := Globals.setW2w_nonneg _ _
    obtain ⟨hsame, hbudget⟩ := sameScript_idleBudget n hbudget1
    rw [he]
    exact ⟨⟨hsame.script, hsame.waiting, hsame.deadlock⟩, hbudget⟩

/-- Outside transcript mode no control step of a slot enters it or queues `TEND`. -/
theorem ne_supertrace_of_reflTransGen {k k' : Ctl} (h : Relation.ReflTransGen (CtlStep r) k k')
    (hk : k.stmode ≠ .supertrace) : k'.stmode ≠ .supertrace ∧ k'.sentTend = k.sentTend := by
  refine Transition.inv_reflTransGen
    (I := fun k' => k'.stmode ≠ .supertrace ∧ k'.sentTend = k.sentTend) ?_ h ⟨hk, rfl⟩
  rintro k1 k2 ⟨hmode, hsent⟩ hstep
  cases hstep with
  | tend hsuper => exact absurd hsuper hmode
  | toCsbuflo hsuper => exact absurd hsuper hmode
  | toNormal =>
    have hnormal : StMode.normal ≠ StMode.supertrace := by decide
    cases r with
    | client =>
      unfold Ctl.enterNormal Ctl.releaseLock
      dsimp only
      split <;> exact ⟨hnormal, hsent⟩
    | server => exact ⟨hnormal, hsent⟩
  | paddingdone => exact ⟨hmode, hsent⟩

theorem sameScript_accountSent (r : Role) (inp : SlotInput) (n : ℕ) (incoming : ℤ) (before : ℕ)
    (e : Endpoint σ β) :
    SameScript e (accountSent r inp n incoming before e) ∧
      (accountSent r inp n incoming before e).g.w2w = e.g.w2w := by
  obtain ⟨_, _, _, _, _, _, _, _, heq, -⟩ := accountSent_eq r inp n incoming before e
  rw [heq]
  exact ⟨⟨rfl, rfl, rfl⟩, rfl⟩

/-! ## What a slot does to the script -/

/-- What a slot can do, as far as the script, the budget and the mode are concerned; `e0` is
the endpoint after the unload event. -/
inductive SlotStep (c : Codec σ β) (T : Tables) (r : Role) (inp : SlotInput)
    (e0 e' : Endpoint σ β) : Prop where
  /-- Nothing happens. -/
  | skip (hsend : shouldSend r inp e0 = false) (he : e' = skipSlot e0)
  /-- A slot of the other modes. -/
  | shaped (hmode : e0.g.stmode ≠ .supertrace) (hmode' : e'.g.stmode ≠ .supertrace)
      (hsame : SameScript e0 e') (hw : 0 ≤ e'.g.w2w)
  /-- No entry is left, or the rest is jumped over. -/
  | pause (hmode : e0.g.stmode = .supertrace) (hplan : (planItem T r inp e0).1 = none)
      (hsame : SameScript (noItem (planItem T r inp e0).2) e') (hw : 0 ≤ e'.g.w2w)
      (hstay : e'.g.stmode = .supertrace → e'.g.w2w = e0.g.w2w ∨ e'.g.w2w = 0)
      (htend : e'.g.sentTend = true → e0.g.sentTend = true ∨ e0.g.w2w = 0)
  /-- An entry is scheduled. -/
  | item (item : StPair) (g : Globals) (p : PacketState σ β) (hmode : e0.g.stmode = .supertrace)
      (hplan : (planItem T r inp e0).1 = some item)
      (hpoll : packetWritePoll c inp.poll
        (scheduleItem r inp e0.pkt.outputLen item (planItem T r inp e0).2).g
        (scheduleItem r inp e0.pkt.outputLen item (planItem T r inp e0).2).pkt = .returned (g, p))
      (hafter : AfterPoll (scheduleItem r inp e0.pkt.outputLen item (planItem T r inp e0).2) g p e')

/-- The unload event leaves the script and the budget alone. -/
theorem sameScript_unloadStep (now : ℕ) (e : Endpoint σ β) :
    SameScript e (unloadStep now e) ∧ (unloadStep now e).g.w2w = e.g.w2w ∧
      (unloadStep now e).g.stmode = e.g.stmode ∧ (unloadStep now e).g.sentTend = e.g.sentTend := by
  unfold unloadStep
  split_ifs <;> exact ⟨⟨rfl, rfl, rfl⟩, rfl, rfl, rfl⟩

/-- **Every slot is such a step.** -/
theorem slotStep_slot (h : slot c T r inp e = .returned e') (hw : 0 ≤ e.g.w2w) :
    SlotStep c T r inp (unloadStep inp.now e) e' := by
  have hw0 := (sameScript_unloadStep inp.now e).2.1
  rw [← hw0] at hw
  rcases slot_eq_returned h with ⟨hsend, rfl⟩ | ⟨-, e1, g, p, incoming, hdec, hpoll, rfl⟩
  · exact .skip hsend rfl
  generalize unloadStep inp.now e = e0 at hdec hw ⊢
  -- what the poll and the accounting leave of the decision `e1`
  have hframe := writeFrame_packetWritePoll c inp.poll e1.g e1.pkt
  rw [hpoll] at hframe
  obtain ⟨hacc, haccw⟩ := sameScript_accountSent r inp e0.pkt.outputLen incoming e1.pkt.outputLen
    { e1 with g := g, pkt := p }
  have hctl := (ctl_accountSent r inp e0.pkt.outputLen incoming e1.pkt.outputLen
    { e1 with g := g, pkt := p }).trans (ctl_packetWritePoll hpoll)
  have hmode1 := congrArg Ctl.stmode hctl
  have hsent1 := congrArg Ctl.sentTend hctl
  have hpollSame : SameScript e1 { e1 with g := g, pkt := p } := ⟨hframe.script, rfl, rfl⟩
  have hsame1 := hpollSame.trans hacc
  obtain ⟨e2, h2, h3⟩ := Option.bind_eq_some_iff.mp hdec
  by_cases hmode : e0.g.stmode = .supertrace
  · rw [if_pos hmode, transcriptSlot_eq] at h2
    cases hplan : (planItem T r inp e0).1 with
    | none =>
      simp only [hplan] at h2
      obtain ⟨hend, hendw, htend⟩ := sameScript_endTranscript h2
      rw [w2w_planItem] at hendw htend
      rw [sentTend_planItem] at htend
      obtain ⟨hcs, hcsw⟩ := sameScript_csbufloSlot h3 (by rw [hendw]; exact hw)
      refine .pause hmode hplan ((hend.trans hcs).trans hsame1) ?_ (fun hsuper => ?_)
        (fun hs => ?_)
      · rw [haccw]
        exact hframe.nonneg hcsw
      · -- the mode was transcript mode all the time, so the csbuflo part did nothing
        have hsuper1 : e1.g.stmode = .supertrace := hmode1.symm.trans hsuper
        have hsuper2 : e2.g.stmode = .supertrace := by
          by_contra hne
          exact (ne_supertrace_of_reflTransGen (ctl_csbufloSlot h3) hne).1 hsuper1
        rw [csbufloSlot_of_ne c r inp _ (by rw [hsuper2]; decide)] at h3
        have hw1 : e1.g.w2w = e0.g.w2w := by
          rw [← Option.some.inj h3]
          exact hendw
        rw [haccw, ← hw1]
        exact hframe.w2w
      · have hs1 : e1.g.sentTend = true := hsent1.symm.trans hs
        refine htend ?_
        by_cases hsuper2 : e2.g.stmode = .supertrace
        · rw [csbufloSlot_of_ne c r inp _ (by rw [hsuper2]; decide)] at h3
          rw [← Option.some.inj h3] at hs1
          exact hs1
        · exact (ne_supertrace_of_reflTransGen (ctl_csbufloSlot h3) hsuper2).2.symm.trans hs1
    | some item =>
      simp only [hplan] at h2
      obtain rfl := Option.some.inj h2
      have hsuper2 :=
        (stmode_scheduleItem r inp e0.pkt.outputLen item (planItem T r inp e0).2).trans
        ((stmode_planItem T r inp e0).trans hmode)
      rw [csbufloSlot_of_ne c r inp _ (by rw [hsuper2]; decide)] at h3
      have hstmode1 : e1.g.stmode = .supertrace := by
        rw [← Option.some.inj h3]
        exact hsuper2
      have hafter := afterPoll_accountSent r inp e0.pkt.outputLen e1.pkt.outputLen incoming e1 p
        (by rw [hframe.stmode, hstmode1]; decide)
      obtain rfl := Option.some.inj h3
      exact .item item g p hmode hplan hpoll ⟨hafter.g_eq, hafter.pkt_eq, hafter.time_eq,
        hafter.deadlock_eq, hafter.waiting_eq, hafter.item_eq⟩
  · rw [if_neg hmode] at h2
    obtain rfl := Option.some.inj h2
    obtain ⟨hcs, hcsw⟩ := sameScript_csbufloSlot h3 hw
    refine .shaped hmode ?_ (hcs.trans hsame1) ?_
    · intro hsuper
      exact (ne_supertrace_of_reflTransGen (ctl_csbufloSlot h3) hmode).1 (hmode1.symm.trans hsuper)
    · rw [haccw]
      exact hframe.nonneg hcsw

/-! ## The cursor -/

theorem ownItem_of_firstOwn {b : Bool} {i j : ℕ} {l : List StPair} {x : StPair}
    (h : firstOwn b i l = some (j, x)) : ownItem b x = true := by
  induction l generalizing i with
  | nil => cases h
  | cons y l ih =>
    unfold firstOwn at h
    split at h
    · cases h
      assumption
    · exact ih h

/-- The cursor stops at an own entry, or at the end. -/
theorem moveToNextStItem_spec (straces : ℤ → List StPair) (b : Bool) {g : Globals}
    (h : 0 < g.clusterId) :
    ((moveToNextStItem straces b g).curItem = none ∧ (moveToNextStItem straces b g).stIndex < 0) ∨
      ∃ x, (moveToNextStItem straces b g).curItem = some x ∧ ownItem b x = true := by
  unfold moveToNextStItem
  rw [if_neg (by omega)]
  dsimp only
  split
  · exact Or.inl ⟨rfl, neg_one_lt_zero⟩
  · split
    · rename_i i x hfirst
      exact Or.inr ⟨x, rfl, ownItem_of_firstOwn hfirst⟩
    · exact Or.inl ⟨rfl, neg_one_lt_zero⟩

/-- Nothing of the page is left to schedule: the cursor is at the end, or a load event came
and the peer is done. -/
def Script.Finished (k : Script) : Prop :=
  (k.curItem = none ∧ k.stIndex < 0) ∨ (k.onloadFlag = true ∧ k.transcriptEnd = true)

/-- What the states of an endpoint have in common: the budget is not negative, the cursor
stands on own entries, and once `TEND` is queued nothing is granted any more. -/
structure Reached (r : Role) (e : Endpoint σ β) : Prop where
  nonneg : 0 ≤ e.g.w2w
  own : ∀ item, e.g.curItem = some item → ownItem r.isPos item = true
  waiting : e.loop.waitingForAPacket = true → e.g.curItem ≠ none
  cluster : e.g.stmode = .supertrace → 0 < e.g.clusterId
  done : e.g.stmode = .supertrace → e.g.sentTend = true →
    e.g.w2w = 0 ∧ e.loop.waitingForAPacket = false ∧ e.g.script.Finished

/-- **What a slot plans in transcript mode**: the own entry under the cursor, or nothing, when
the page is finished. -/
theorem planItem_cases (T : Tables) (inp : SlotInput)
    (hown : ∀ item, e.g.curItem = some item → ownItem r.isPos item = true)
    (hwait : e.loop.waitingForAPacket = true → e.g.curItem ≠ none) (hcluster : 0 < e.g.clusterId) :
    (∀ item, (planItem T r inp e).2.g.curItem = some item → ownItem r.isPos item = true) ∧
    ((∃ item, (planItem T r inp e).1 = some item ∧ (planItem T r inp e).2.g.curItem = some item) ∨
     ((planItem T r inp e).1 = none ∧ (planItem T r inp e).2.g.script.Finished)) := by
  -- the cursor after it was moved, if it was
  have hadv : ((advanceCursor T r e).g.curItem = none ∧ (advanceCursor T r e).g.stIndex < 0) ∨
      ∃ x, (advanceCursor T r e).g.curItem = some x ∧ ownItem r.isPos x = true := by
    unfold advanceCursor
    dsimp only
    split
    · rename_i hw
      obtain ⟨x, hx⟩ := Option.ne_none_iff_exists'.mp (hwait hw)
      exact Or.inr ⟨x, hx, hown x hx⟩
    · exact moveToNextStItem_spec T.straces r.isPos hcluster
  have hcluster1 : 0 < (advanceCursor T r e).g.clusterId := by
    unfold advanceCursor
    dsimp only
    split
    · exact hcluster
    · rw [moveToNextStItem_eq]
      exact hcluster
  unfold planItem
  dsimp only
  generalize advanceCursor T r e = e1 at hadv hcluster1 ⊢
  rcases hadv with ⟨hnone, hidx⟩ | ⟨x, hx, hxown⟩
  · simp only [hnone]
    exact ⟨fun item h => (nomatch h), Or.inr ⟨trivial, Or.inl ⟨hnone, hidx⟩⟩⟩
  · have hown1 : ∀ item, e1.g.curItem = some item → ownItem r.isPos item = true := by
      intro item h
      rw [hx] at h
      cases h
      exact hxown
    simp only [hx]
    cases hload : e1.g.onloadFlag with
    | false => exact ⟨hown1, Or.inl ⟨x, rfl, hx⟩⟩
    | true =>
      unfold shouldJumpTransEnd
      rw [if_neg (by omega : ¬e1.g.clusterId < 0)]
      simp only [hx]
      cases hend : e1.g.transcriptEnd with
      | true => exact ⟨hown1, Or.inr ⟨rfl, Or.inr ⟨hload, hend⟩⟩⟩
      | false =>
        by_cases hdraw : inp.rand % 100 < x.sprob
        · simp only [if_pos hdraw]
          exact ⟨fun item h => (nomatch h), Or.inr ⟨rfl, Or.inl ⟨rfl, neg_one_lt_zero⟩⟩⟩
        · simp only [if_neg hdraw]
          exact ⟨hown1, Or.inl ⟨x, rfl, hx⟩⟩

theorem clusterId_planItem (T : Tables) (r : Role) (inp : SlotInput) (e : Endpoint σ β) :
    (planItem T r inp e).2.g.clusterId = e.g.clusterId := by
  rw [planItem_eq]

/-- A planned entry is the own one under the cursor. -/
theorem Reached.planned {item : StPair} (he : Reached r e) (hmode : e.g.stmode = .supertrace)
    (hplan : (planItem T r inp e).1 = some item) :
    (planItem T r inp e).2.g.curItem = some item ∧ ownItem r.isPos item = true := by
  obtain ⟨hown, hcase⟩ := planItem_cases T inp he.own he.waiting (he.cluster hmode)
  rcases hcase with ⟨item', hplan', hcur⟩ | ⟨hnone, -⟩
  · obtain rfl := Option.some.inj (hplan.symm.trans hplan')
    exact ⟨hcur, hown item hcur⟩
  · rw [hplan] at hnone
    cases hnone

/-- If no entry is planned, the page is finished. -/
theorem Reached.finished (he : Reached r e) (hmode : e.g.stmode = .supertrace)
    (hplan : (planItem T r inp e).1 = none) : (planItem T r inp e).2.g.script.Finished := by
  obtain ⟨-, ⟨item, hsome, -⟩ | ⟨-, hfin⟩⟩ :=
    planItem_cases T inp he.own he.waiting (he.cluster hmode)
  · rw [hplan] at hsome
    cases hsome
  · exact hfin

/-- When the peer is done the rest is always jumped over. -/
theorem shouldJumpTransEnd_of_end (rand : ℕ) {g : Globals} (h : g.transcriptEnd = true) :
    (shouldJumpTransEnd rand g).1 = true := by
  unfold shouldJumpTransEnd
  rw [h]
  split
  · rfl
  · split <;> rfl

/-- Once the page is finished, no slot plans an entry. -/
theorem planItem_of_finished (T : Tables) (r : Role) (inp : SlotInput) (h : e.g.script.Finished)
    (hwait : e.loop.waitingForAPacket = false) (hcluster : 0 < e.g.clusterId) :
    (planItem T r inp e).1 = none := by
  have hmove : (advanceCursor T r e).g = moveToNextStItem T.straces r.isPos e.g := by
    unfold advanceCursor
    dsimp only
    rw [if_neg (by rw [hwait]; decide)]
  unfold planItem
  dsimp only
  rw [hmove]
  rcases h with ⟨-, hidx⟩ | ⟨hload, hend⟩
  · have hnone : (moveToNextStItem T.straces r.isPos e.g).curItem = none := by
      have : e.g.stIndex < 0 := hidx
      unfold moveToNextStItem
      rw [if_neg (by omega)]
      dsimp only
      rw [if_pos (Or.inl this)]
    simp only [hnone]
  · have hload1 : (moveToNextStItem T.straces r.isPos e.g).onloadFlag = true := by
      rw [moveToNextStItem_eq]
      exact hload
    have hend1 : (moveToNextStItem T.straces r.isPos e.g).transcriptEnd = true := by
      rw [moveToNextStItem_eq]
      exact hend
    split
    · rfl
    · rw [if_neg (by rw [hload1]; decide)]
      dsimp only
      rw [shouldJumpTransEnd_of_end inp.rand hend1]
      rfl

/-! ## Invariants of the reachable states -/

/-- Flags may be set at any time. -/
theorem Reached.of_flags (h : Reached r e) (hw : e'.g.w2w = e.g.w2w)
    (hcur : e'.g.curItem = e.g.curItem) (hidx : e'.g.stIndex = e.g.stIndex)
    (hid : e'.g.clusterId = e.g.clusterId)
    (hwait : e'.loop.waitingForAPacket = e.loop.waitingForAPacket)
    (hmode : e'.g.stmode = e.g.stmode) (hsent : e'.g.sentTend = e.g.sentTend)
    (hload : e.g.onloadFlag = true → e'.g.onloadFlag = true)
    (hend : e.g.transcriptEnd = true → e'.g.transcriptEnd = true) : Reached r e' where
  nonneg := by rw [hw]; exact h.nonneg
  own := by rw [hcur]; exact h.own
  waiting := by rw [hwait, hcur]; exact h.waiting
  cluster := by rw [hmode, hid]; exact h.cluster
  done := by
    rw [hmode, hsent, hw, hwait]
    intro hm hs
    obtain ⟨hzero, hstill, hfin⟩ := h.done hm hs
    refine ⟨hzero, hstill, ?_⟩
    rcases hfin with ⟨hnone, hneg⟩ | ⟨hl, he⟩
    · exact Or.inl ⟨hcur.trans hnone, lt_of_eq_of_lt hidx hneg⟩
    · exact Or.inr ⟨hload hl, hend he⟩

/-- The start of a page in either of the shaped modes. -/
theorem Reached.of_page (h : Reached r e) (hw : e'.g.w2w = e.g.w2w)
    (hcur : e'.g.curItem = e.g.curItem)
    (hwait : e'.loop.waitingForAPacket = e.loop.waitingForAPacket) (hsent : e'.g.sentTend = false)
    (hcluster : e'.g.stmode = .supertrace → 0 < e'.g.clusterId) :
    Reached r e' where
  nonneg := by rw [hw]; exact h.nonneg
  own := by rw [hcur]; exact h.own
  waiting := by rw [hwait, hcur]; exact h.waiting
  cluster := hcluster
  done := by
    rw [hsent]
    intro _ hs
    cases hs

/-- Scheduling an entry leaves the cursor where it is. -/
theorem cursor_scheduleItem (r : Role) (inp : SlotInput) (n : ℕ) (item : StPair)
    (e : Endpoint σ β) :
    (scheduleItem r inp n item e).g.curItem = e.g.curItem ∧
      (scheduleItem r inp n item e).g.clusterId = e.g.clusterId ∧
      (scheduleItem r inp n item e).g.sentTend = e.g.sentTend := by
  rw [scheduleItem_eq]
  unfold treatItem
  dsimp only
  rw [admitItem_eq]
  cases itemVerdict r inp item e with
  | wait => exact ⟨rfl, rfl, rfl⟩
  | breaker => cases r <;> exact ⟨rfl, rfl, rfl⟩
  | go => exact ⟨rfl, rfl, rfl⟩

theorem reached_unloadStep (now : ℕ) (he : Reached r e) : Reached r (unloadStep now e) := by
  obtain ⟨hsame, hw, hmode, hsent⟩ := sameScript_unloadStep now e
  exact he.of_flags hw (congrArg Script.curItem hsame.script)
    (congrArg Script.stIndex hsame.script) (congrArg Script.clusterId hsame.script) hsame.waiting
    hmode hsent (fun hl => (congrArg Script.onloadFlag hsame.script).trans hl)
    (fun hl => (congrArg Script.transcriptEnd hsame.script).trans hl)

/-- **A slot keeps the invariants.** -/
theorem reached_slot (h : slot c T r inp e = .returned e') (he : Reached r e) : Reached r e' := by
  have he0 := reached_unloadStep inp.now he
  have hstep := slotStep_slot h he.nonneg
  generalize unloadStep inp.now e = e0 at he0 hstep
  cases hstep with
  | skip _ heq =>
    subst heq
    unfold skipSlot
    split
    · exact he0.of_flags rfl rfl rfl rfl rfl rfl rfl id id
    · exact he0
  | shaped _ hmode' hsame hw =>
    exact ⟨hw, fun item hi => he0.own item ((congrArg Script.curItem hsame.script).symm.trans hi),
      fun hwait hi => he0.waiting (hsame.waiting.symm.trans hwait)
        ((congrArg Script.curItem hsame.script).symm.trans hi),
      fun hsuper => absurd hsuper hmode', fun hsuper => absurd hsuper hmode'⟩
  | pause hmode hplan hsame hw hstay htend =>
    obtain ⟨hown, -⟩ := planItem_cases T inp he0.own he0.waiting (he0.cluster hmode)
    have hcur : e'.g.curItem = (planItem T r inp e0).2.g.curItem :=
      congrArg Script.curItem hsame.script
    have hid : e'.g.clusterId = e0.g.clusterId :=
      (congrArg Script.clusterId hsame.script).trans (clusterId_planItem T r inp e0)
    refine ⟨hw, by rw [hcur]; exact hown, ?_, fun _ => by rw [hid]; exact he0.cluster hmode, ?_⟩
    · intro hwait
      rw [hsame.waiting] at hwait
      cases hwait
    · intro hsuper hs
      have hzero : e0.g.w2w = 0 := by
        rcases htend hs with hs0 | hzero
        · exact (he0.done hmode hs0).1
        · exact hzero
      refine ⟨?_, hsame.waiting, ?_⟩
      · rcases hstay hsuper with heq | heq
        · rw [heq, hzero]
        · exact heq
      · rw [hsame.script]
        exact he0.finished hmode hplan
  | item item g p hmode hplan hpoll hafter =>
    obtain ⟨hplanned, hown⟩ := he0.planned hmode hplan
    obtain ⟨hcurS, hidS, hsentS⟩ :=
      cursor_scheduleItem r inp e0.pkt.outputLen item (planItem T r inp e0).2
    have hframe := writeFrame_packetWritePoll c inp.poll
      (scheduleItem r inp e0.pkt.outputLen item (planItem T r inp e0).2).g
      (scheduleItem r inp e0.pkt.outputLen item (planItem T r inp e0).2).pkt
    rw [hpoll] at hframe
    have hcur : e'.g.curItem = some item := by
      rw [hafter.g_eq]
      exact ((congrArg Script.curItem hframe.script).trans hcurS).trans hplanned
    have hid : e'.g.clusterId = e0.g.clusterId := by
      rw [hafter.g_eq]
      exact (congrArg Script.clusterId hframe.script).trans
        (hidS.trans (clusterId_planItem T r inp e0))
    refine ⟨?_, ?_, ?_, fun _ => by rw [hid]; exact he0.cluster hmode, ?_⟩
    · rw [hafter.g_eq]
      refine hframe.nonneg ?_
      rw [scheduleItem_eq]
      exact Globals.setW2w_nonneg _ _
    · intro item' hi
      obtain rfl := Option.some.inj (hcur.symm.trans hi)
      exact hown
    · intro _
      rw [hcur]
      exact Option.some_ne_none item
    · -- after the own `TEND` no entry is planned
      intro _ hs
      have hs0 : e0.g.sentTend = true := by
        rw [hafter.g_eq, hframe.sentTend, hsentS, sentTend_planItem] at hs
        exact hs
      obtain ⟨-, hwait, hfin⟩ := he0.done hmode hs0
      have hnone := planItem_of_finished T r inp hfin hwait (he0.cluster hmode)
      rw [hplan] at hnone
      cases hnone

/-! ## What the other events do -/

/-- The payload of a `URLACK`. -/
def isUrlack : EndpointEvent → Prop
  | .packet _ payload _ => Msg.ofPayload payload = some .urlack
  | _ => False

/-- What an event does that is no slot and starts no page: it sets flags. -/
structure FlagStep (ev : EndpointEvent) (e e' : Endpoint σ β) : Prop where
  page : e'.page = e.page
  stmode : e'.g.stmode = e.g.stmode
  sentTend : e'.g.sentTend = e.g.sentTend
  w2w : e'.g.w2w = e.g.w2w
  clusterId : e'.g.clusterId = e.g.clusterId
  stIndex : e'.g.stIndex = e.g.stIndex
  curItem : e'.g.curItem = e.g.curItem
  firstClient : e'.g.firstClient = e.g.firstClient
  secondClient : e'.g.secondClient = e.g.secondClient
  loop : e'.loop = e.loop
  junk : e'.g.paddedJunk = e.g.paddedJunk
  urlack : e'.g.urlack = e.g.urlack ∨ (e'.g.urlack = true ∧ isUrlack ev)
  onload : e.g.onloadFlag = true → e'.g.onloadFlag = true
  transcriptEnd : e.g.transcriptEnd = true → e'.g.transcriptEnd = true

/-- What the start of a page does. -/
structure PageStep (T : Tables) (ev : EndpointEvent) (e e' : Endpoint σ β) : Prop where
  page : e'.page = e.page + 1
  clusterId : e'.g.clusterId = hmLookup T.clusters e'.g.url
  stmode : e'.g.stmode = if hmLookup T.clusters e'.g.url ≠ -1 then .supertrace else .csbuflo
  stIndex : e'.g.stmode = .supertrace → e'.g.stIndex = 0
  request : ∀ p, ev = .socks p → p 1 = 6 ∧ e.g.stmode = .normal ∧ e'.g.url = setUrl p 3 ∧
    (e'.g.stmode = .supertrace → e'.g.firstClient = true)
  sentTend : e'.g.sentTend = false
  w2w : e'.g.w2w = e.g.w2w
  curItem : e'.g.curItem = e.g.curItem
  urlack : e'.g.urlack = e.g.urlack
  loop : e'.loop = e.loop
  junk : e'.g.paddedJunk = e.g.paddedJunk

/-- The bytes an event reads. -/
def EndpointEvent.bytesRead : EndpointEvent → ℕ
  | .received n => n
  | _ => 0

/-- **What every event but a slot leaves alone**: nothing is written, the time to write and the
rate stay, reads are counted unless a page starts, and only a packet sets timestamps. -/
structure OffSlot (ev : EndpointEvent) (e e' : Endpoint σ β) : Prop where
  wire : e'.pkt.wire = e.pkt.wire
  time : e'.pkt.packetTimeToWrite = e.pkt.packetTimeToWrite
  adapt : e'.adapt = e.adapt
  counted : e'.page = e.page → e'.g.receivedSofar = e.g.receivedSofar + ev.bytesRead
  marks : (e'.g.tstartSet = e.g.tstartSet ∧ e'.g.tendSet = e.g.tendSet ∧
      e'.g.tsStart = e.g.tsStart ∧ e'.g.tsEnd = e.g.tsEnd) ∨
    ∃ curTs payload beyond, ev = .packet curTs payload beyond ∧ e'.g = noteReceived curTs e.g

variable {ev : EndpointEvent}

theorem FlagStep.waiting (h : FlagStep ev e e') :
    e'.loop.waitingForAPacket = e.loop.waitingForAPacket := by rw [h.loop]

theorem FlagStep.deadlock (h : FlagStep ev e e') :
    e'.loop.deadlockStart = e.loop.deadlockStart := by rw [h.loop]

theorem PageStep.waiting (h : PageStep T ev e e') :
    e'.loop.waitingForAPacket = e.loop.waitingForAPacket := by rw [h.loop]

theorem PageStep.deadlock (h : PageStep T ev e e') :
    e'.loop.deadlockStart = e.loop.deadlockStart := by rw [h.loop]

/-- The page start of the server is a page step. -/
theorem pageStep_startServerPage {payload : List UInt8} {ts : ℕ} {beyond : ℕ → UInt8}
    (h : startServerPage c T payload beyond e = some e') :
    PageStep T (.packet ts payload beyond) e e' := by
  unfold startServerPage at h
  dsimp only at h
  split at h
  · rename_i hid
    have hid' : hmLookup T.clusters (setUrl (memory payload.tail beyond) 4) ≠ -1 := hid
    obtain ⟨pkt, -, rfl⟩ := Option.map_eq_some_iff.mp h
    rw [setFirstSent_eq]
    exact ⟨rfl, rfl, (if_pos hid').symm, fun _ => if_pos hid', fun _ hev => (nomatch hev), rfl, rfl,
      rfl, rfl, rfl, rfl⟩
  · rename_i hid
    rw [← Option.some.inj h]
    exact ⟨rfl, rfl, (if_neg hid).symm, fun hm => (nomatch hm), fun _ hev => (nomatch hev), rfl,
      rfl, rfl, rfl, rfl, rfl⟩

/-- The page start of the client is a page step: it comes from a SOCKS request with command 6. -/
theorem pageStep_startClientPage {p : ℕ → UInt8} (h : startClientPage c T p e = some e')
    (hp : p 1 = 6) (hmode : e.g.stmode = .normal) : PageStep T (.socks p) e e' := by
  obtain ⟨e1, h1, rfl⟩ := Option.map_eq_some_iff.mp h
  obtain ⟨pkt, -, rfl⟩ := Option.map_eq_some_iff.mp h1
  have hrequest : ∀ p', EndpointEvent.socks p = .socks p' → p' 1 = 6 ∧ e.g.stmode = .normal ∧
      setUrl p 3 = setUrl p' 3 := by
    rintro _ ⟨⟩
    exact ⟨hp, hmode, rfl⟩
  dsimp only [setClusterId]
  split
  · rename_i hid
    exact ⟨rfl, rfl, (if_pos hid).symm, fun _ => rfl,
      fun p' hev => ⟨(hrequest p' hev).1, hmode, (hrequest p' hev).2.2, fun _ => rfl⟩, rfl, rfl,
      rfl, rfl, rfl, rfl⟩
  · rename_i hid
    exact ⟨rfl, rfl, (if_neg hid).symm, fun hm => (nomatch hm),
      fun p' hev => ⟨(hrequest p' hev).1, hmode, (hrequest p' hev).2.2, fun hm => (nomatch hm)⟩,
      rfl, rfl, rfl, rfl, rfl, rfl⟩

/-- A received packet sets flags or starts a page. -/
theorem packetReadPollSeqnr_cases {ts : ℕ} {payload : List UInt8} {beyond : ℕ → UInt8}
    (h : packetReadPollSeqnr c T ts payload beyond e = some e') :
    FlagStep (.packet ts payload beyond) e e' ∨
      ((∃ u, Msg.ofPayload payload = some (.url u)) ∧
        PageStep T (.packet ts payload beyond) e e') := by
  have hrefl : FlagStep (.packet ts payload beyond) e e :=
    ⟨rfl, rfl, rfl, rfl, rfl, rfl, rfl, rfl, rfl, rfl, rfl, Or.inl rfl, id, id⟩
  unfold packetReadPollSeqnr at h
  split at h
  · rw [← Option.some.inj h]
    exact Or.inl hrefl
  · rename_i t data
    split at h
    · rename_i n hn
      cases n with
      | url =>
        refine Or.inr ⟨⟨setUrl (memory data fun _ => 0) 4, ?_⟩, pageStep_startServerPage h⟩
        show (Notify.ofMsg t).map (Msg.ofNotify data) = _
        rw [hn]
        rfl
      | normal =>
        unfold handleNotify at h
        dsimp only at h
        left
        split at h <;> rw [← Option.some.inj h] <;>
          exact ⟨rfl, rfl, rfl, rfl, rfl, rfl, rfl, rfl, rfl, rfl, rfl, Or.inl rfl, id, id⟩
      | urlack =>
        rw [← Option.some.inj h]
        have hack : isUrlack (.packet ts (t :: data) beyond) := by
          show (Notify.ofMsg t).map (Msg.ofNotify data) = _
          rw [hn]
          rfl
        exact Or.inl ⟨rfl, rfl, rfl, rfl, rfl, rfl, rfl, rfl, rfl, rfl, rfl, Or.inr ⟨rfl, hack⟩,
          id, id⟩
      | onload =>
        rw [← Option.some.inj h]
        exact Or.inl ⟨rfl, rfl, rfl, rfl, rfl, rfl, rfl, rfl, rfl, rfl, rfl, Or.inl rfl,
          fun _ => rfl, id⟩
      | tend =>
        rw [← Option.some.inj h]
        exact Or.inl ⟨rfl, rfl, rfl, rfl, rfl, rfl, rfl, rfl, rfl, rfl, rfl, Or.inl rfl, id,
          fun _ => rfl⟩
      | _ =>
        rw [← Option.some.inj h]
        exact Or.inl ⟨rfl, rfl, rfl, rfl, rfl, rfl, rfl, rfl, rfl, rfl, rfl, Or.inl rfl, id, id⟩
    · left
      split_ifs at h
      · rw [← Option.some.inj h]
        exact hrefl
      · rw [← Option.some.inj h]
        unfold noteReceived
        split <;>
          exact ⟨rfl, rfl, rfl, rfl, rfl, rfl, rfl, rfl, rfl, rfl, rfl, Or.inl rfl, id, id⟩

/-- **Every event** is a slot, sets flags or starts a page. -/
theorem endpointStep_cases (h : endpointStep c T r e ev = some e') :
    (∃ inp, ev = .slot inp ∧ slot c T r inp e = .returned e') ∨
      ((∀ inp, ev ≠ .slot inp) ∧ FlagStep ev e e') ∨
      (PageStep T ev e e' ∧ ((∃ p, r = .client ∧ ev = .socks p) ∨
        ∃ ts payload beyond u, ev = .packet ts payload beyond ∧
          Msg.ofPayload payload = some (.url u))) := by
  cases ev with
  | slot inp => exact Or.inl ⟨inp, rfl, endpointStep_slot.mp h⟩
  | data x payload =>
    unfold endpointStep at h
    dsimp only at h
    split at h
    · obtain ⟨pkt, -, rfl⟩ := Option.map_eq_some_iff.mp h
      exact Or.inr (Or.inl ⟨fun _ hev => (nomatch hev), rfl, rfl, rfl, rfl, rfl, rfl, rfl, rfl,
        rfl, rfl, rfl, Or.inl rfl, id, id⟩)
    · cases h
  | received n =>
    rw [← Option.some.inj h]
    exact Or.inr (Or.inl ⟨fun _ hev => (nomatch hev), rfl, rfl, rfl, rfl, rfl, rfl, rfl, rfl, rfl,
      rfl, rfl, Or.inl rfl, id, id⟩)
  | packet ts payload beyond =>
    rcases packetReadPollSeqnr_cases h with hflag | ⟨⟨u, hu⟩, hpage⟩
    · exact Or.inr (Or.inl ⟨fun _ hev => (nomatch hev), hflag⟩)
    · exact Or.inr (Or.inr ⟨hpage, Or.inr ⟨ts, payload, beyond, u, rfl, hu⟩⟩)
  | socks p =>
    cases r with
    | server => cases h
    | client =>
      have hflags : FlagStep (.socks p) e e :=
        ⟨rfl, rfl, rfl, rfl, rfl, rfl, rfl, rfl, rfl, rfl, rfl, Or.inl rfl, id, id⟩
      unfold endpointStep socksControl at h
      dsimp only at h
      split_ifs at h with hload hunload hurl hmode
      · obtain ⟨pkt, -, rfl⟩ := Option.map_eq_some_iff.mp h
        exact Or.inr (Or.inl ⟨fun _ hev => (nomatch hev), rfl, rfl, rfl, rfl, rfl, rfl, rfl,
          rfl, rfl, rfl, rfl, Or.inl rfl, fun _ => rfl, id⟩)
      · obtain ⟨pkt, -, rfl⟩ := Option.map_eq_some_iff.mp h
        exact Or.inr (Or.inl ⟨fun _ hev => (nomatch hev), rfl, rfl, rfl, rfl, rfl, rfl, rfl,
          rfl, rfl, rfl, rfl, Or.inl rfl, id, id⟩)
      · exact Or.inr (Or.inr ⟨pageStep_startClientPage h hurl hmode, Or.inl ⟨p, rfl, rfl⟩⟩)
      · rw [← Option.some.inj h]
        exact Or.inr (Or.inl ⟨fun _ hev => (nomatch hev), hflags⟩)
      · rw [← Option.some.inj h]
        exact Or.inr (Or.inl ⟨fun _ hev => (nomatch hev), hflags⟩)

/-- Queueing a packet does not concern the loop. -/
theorem withPkt_eq_some {b : Bool} {x : ℕ} {payload : List UInt8} {p : PacketState σ β}
    (h : e.withPkt (packetSend c b x payload p) = some e') :
    ∃ s out sent, e' = { e with pkt := { p with snd := s, output := out, sent := sent } } := by
  obtain ⟨pkt, hpkt, rfl⟩ := Option.map_eq_some_iff.mp h
  obtain ⟨bs, s, -, rfl⟩ := packetSend_eq_some hpkt
  exact ⟨s, _, _, rfl⟩

theorem offSlot_packetReadPollSeqnr {ts : ℕ} {payload : List UInt8} {beyond : ℕ → UInt8}
    (h : packetReadPollSeqnr c T ts payload beyond e = some e') :
    OffSlot (.packet ts payload beyond) e e' := by
  unfold packetReadPollSeqnr at h
  split at h
  · rw [← Option.some.inj h]
    exact ⟨rfl, rfl, rfl, fun _ => rfl, Or.inl ⟨rfl, rfl, rfl, rfl⟩⟩
  · split at h
    · rename_i n _
      unfold handleNotify at h
      cases n with
      | url =>
        -- the counter is set to the credit, but the page changes
        unfold startServerPage setClusterId at h
        dsimp only at h
        split at h
        · obtain ⟨s, out, sent, rfl⟩ := withPkt_eq_some h
          rw [setFirstSent_eq]
          exact ⟨rfl, rfl, rfl, fun hsame => absurd hsame (Nat.succ_ne_self _),
            Or.inl ⟨rfl, rfl, rfl, rfl⟩⟩
        · rw [← Option.some.inj h]
          exact ⟨rfl, rfl, rfl, fun hsame => absurd hsame (Nat.succ_ne_self _),
            Or.inl ⟨rfl, rfl, rfl, rfl⟩⟩
      | normal =>
        dsimp only at h
        split at h <;> rw [← Option.some.inj h] <;>
          exact ⟨rfl, rfl, rfl, fun _ => rfl, Or.inl ⟨rfl, rfl, rfl, rfl⟩⟩
      | _ =>
        rw [← Option.some.inj h]
        exact ⟨rfl, rfl, rfl, fun _ => rfl, Or.inl ⟨rfl, rfl, rfl, rfl⟩⟩
    · split_ifs at h
      · rw [← Option.some.inj h]
        exact ⟨rfl, rfl, rfl, fun _ => rfl, Or.inl ⟨rfl, rfl, rfl, rfl⟩⟩
      · rw [← Option.some.inj h]
        refine ⟨rfl, rfl, rfl, fun _ => ?_, Or.inr ⟨ts, _, beyond, rfl, rfl⟩⟩
        unfold noteReceived
        split <;> rfl

theorem offSlot_socksControl {p : ℕ → UInt8} (h : socksControl c T p e = some e') :
    OffSlot (.socks p) e e' := by
  unfold socksControl at h
  split_ifs at h
  · obtain ⟨s, out, sent, rfl⟩ := withPkt_eq_some h
    exact ⟨rfl, rfl, rfl, fun _ => rfl, Or.inl ⟨rfl, rfl, rfl, rfl⟩⟩
  · obtain ⟨s, out, sent, rfl⟩ := withPkt_eq_some h
    exact ⟨rfl, rfl, rfl, fun _ => rfl, Or.inl ⟨rfl, rfl, rfl, rfl⟩⟩
  · obtain ⟨e1, h1, rfl⟩ := Option.map_eq_some_iff.mp h
    obtain ⟨s, out, sent, rfl⟩ := withPkt_eq_some h1
    refine ⟨rfl, rfl, rfl, fun hsame => absurd hsame (Nat.succ_ne_self _), Or.inl ?_⟩
    unfold setClusterId
    dsimp only
    split <;> exact ⟨rfl, rfl, rfl, rfl⟩
  · rw [← Option.some.inj h]
    exact ⟨rfl, rfl, rfl, fun _ => rfl, Or.inl ⟨rfl, rfl, rfl, rfl⟩⟩
  · rw [← Option.some.inj h]
    exact ⟨rfl, rfl, rfl, fun _ => rfl, Or.inl ⟨rfl, rfl, rfl, rfl⟩⟩

/-- **Every event but a slot.** -/
theorem offSlot_endpointStep (h : endpointStep c T r e ev = some e')
    (hev : ∀ inp, ev ≠ .slot inp) : OffSlot ev e e' := by
  cases ev with
  | slot inp => exact absurd rfl (hev inp)
  | data x payload =>
    unfold endpointStep at h
    dsimp only at h
    split at h
    · obtain ⟨s, out, sent, rfl⟩ := withPkt_eq_some h
      exact ⟨rfl, rfl, rfl, fun _ => rfl, Or.inl ⟨rfl, rfl, rfl, rfl⟩⟩
    · cases h
  | received n =>
    rw [← Option.some.inj h]
    exact ⟨rfl, rfl, rfl, fun _ => rfl, Or.inl ⟨rfl, rfl, rfl, rfl⟩⟩
  | packet ts payload beyond => exact offSlot_packetReadPollSeqnr h
  | socks p =>
    cases r with
    | server => cases h
    | client => exact offSlot_socksControl h

/-! ## The invariants along a run -/

/-- **Every event keeps the invariants.** -/
theorem reached_endpointStep (h : endpointStep c T r e ev = some e') (he : Reached r e) :
    Reached r e' := by
  rcases endpointStep_cases h with ⟨inp, -, hslot⟩ | ⟨-, hflag⟩ | ⟨hpage, -⟩
  · exact reached_slot hslot he
  · exact he.of_flags hflag.w2w hflag.curItem hflag.stIndex hflag.clusterId hflag.waiting
      hflag.stmode hflag.sentTend hflag.onload hflag.transcriptEnd
  · refine he.of_page hpage.w2w hpage.curItem hpage.waiting hpage.sentTend fun hmode => ?_
    rw [hpage.stmode] at hmode
    rw [hpage.clusterId]
    rcases hmLookup_pos T.clusters e'.g.url with hneg | hpos
    · rw [if_neg fun hne => hne hneg] at hmode
      cases hmode
    · exact hpos

theorem reached_init (r : Role) (snd : σ) : Reached r ({ pkt := { snd := snd } } : Endpoint σ β) :=
  ⟨le_refl _, fun _ h => (nomatch h), fun h => (nomatch h), fun h => (nomatch h),
    fun h => (nomatch h)⟩

/-- Writes keep the invariants. -/
theorem Reached.of_writeFrame (h : Reached r e) (hframe : WriteFrame e.g e'.g)
    (hloop : e'.loop = e.loop) : Reached r e' := by
  have hcur : e'.g.curItem = e.g.curItem := congrArg Script.curItem hframe.script
  have hid : e'.g.clusterId = e.g.clusterId := congrArg Script.clusterId hframe.script
  refine ⟨hframe.nonneg h.nonneg, ?_, ?_, ?_, ?_⟩
  · rw [hcur]
    exact h.own
  · rw [hloop, hcur]
    exact h.waiting
  · rw [hframe.stmode, hid]
    exact h.cluster
  · rw [hframe.stmode, hframe.sentTend, hloop, hframe.script]
    intro hm hs
    obtain ⟨hzero, hstill, hfin⟩ := h.done hm hs
    refine ⟨?_, hstill, hfin⟩
    rcases hframe.w2w with heq | heq
    · rw [heq, hzero]
    · exact heq

/-- **Every event keeps the invariants**, also a handler that waits for its output. -/
theorem reached_loopStep {ev : LoopEvent} (h : loopStep c T r e ev = some e') (he : Reached r e) :
    Reached r e' := by
  cases ev with
  | endpoint ev => exact reached_endpointStep h he
  | writeWait polls =>
    obtain ⟨t, ht, rfl⟩ := Option.map_eq_some_iff.mp h
    exact he.of_writeFrame (writeFrame_packetWriteWait ht) rfl

/-- A state an endpoint can reach from the start of its process, whatever its peer and the
rest of the program do. -/
def Started (c : Codec σ β) (T : Tables) (r : Role) (e : Endpoint σ β) : Prop :=
  ∃ snd evs, Transition.run (loopStep c T r) { pkt := { snd := snd } } evs = some e

/-- **The invariants hold in every state an endpoint can reach.** -/
theorem Started.reached (h : Started c T r e) : Reached r e := by
  obtain ⟨snd, evs, hrun⟩ := h
  exact Transition.inv_run (I := Reached r) (fun e ev e' he hstep =>
    reached_loopStep hstep he) hrun (reached_init r snd)

/-- An endpoint at its start, without encryption. -/
def plainEndpoint : Endpoint (SendState Unit) UInt8 := { pkt := { snd := ⟨(), 0, 0, fun _ => 0⟩ } }

/-- A run without waits is a run. -/
theorem run_map_endpoint (c : Codec σ β) (T : Tables) (r : Role) (e : Endpoint σ β)
    (evs : List EndpointEvent) :
    Transition.run (loopStep c T r) e (evs.map .endpoint) =
      Transition.run (endpointStep c T r) e evs := by
  induction evs generalizing e with
  | nil => rfl
  | cons ev evs ih =>
    show (endpointStep c T r e ev).bind _ = (endpointStep c T r e ev).bind _
    exact congrArg _ (funext ih)

theorem started_of_run {c : Codec (SendState Unit) UInt8} {evs : List EndpointEvent}
    {e : Endpoint (SendState Unit) UInt8}
    (h : Transition.run (endpointStep c T r) plainEndpoint evs = some e) : Started c T r e :=
  ⟨_, evs.map .endpoint, (run_map_endpoint c T r _ evs).trans h⟩

/-- A notification from the peer. -/
def notified (n : Notify) : EndpointEvent := .packet 0 (notifyPayload n [0, 0, 0, 0]) fun _ => 0

end CSBuFLO
