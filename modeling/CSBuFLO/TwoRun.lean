/-
# Transcript mode hides the real traffic

Two runs of one endpoint that differ only in the data the rest of the program queues and
receives.  They stay in states the observer cannot tell apart (`Paired`), and step by step
they set the same times and write the same lengths (`Lockstep`).

There is one exception for the lengths.  If the poll of the slot that schedules the first
entry of a page comes before its time, the grant, which may have grown to all that is queued,
stays in the budget until a later poll writes it.  So the lengths agree from the first moment
on at which the first entry is gone and the budget is used up.
-/
import CSBuFLO.Observer

namespace CSBuFLO

variable {σ β : Type}

/-! ## Two endpoints in lockstep -/

/-- Two lists grew by the same elements. -/
def SameTail (l1 l1' l2 l2' : List ℕ) : Prop := ∃ t, l1' = l1 ++ t ∧ l2' = l2 ++ t

theorem SameTail.refl (l1 l2 : List ℕ) : SameTail l1 l1 l2 l2 := ⟨[], by simp, by simp⟩

theorem SameTail.trans {l1 l1' l1'' l2 l2' l2'' : List ℕ} (h : SameTail l1 l1' l2 l2')
    (h' : SameTail l1' l1'' l2' l2'') : SameTail l1 l1'' l2 l2'' := by
  obtain ⟨t, rfl, rfl⟩ := h
  obtain ⟨t', rfl, rfl⟩ := h'
  exact ⟨t ++ t', List.append_assoc _ _ _, List.append_assoc _ _ _⟩

/-- Two endpoints that replay the same page, in states the observer cannot tell apart. -/
structure Paired (r : Role) (e1 e2 : Endpoint σ β) : Prop where
  low : e1.low = e2.low
  mode : ReplayMode e1.g
  left : Reached r e1
  right : Reached r e2
  zero : e1.g.w2w = 0 ↔ e2.g.w2w = 0

variable {e1 e2 e1' e2' e e' : Endpoint σ β} {r : Role} {T : Tables} {c : Codec σ β}

theorem replayMode_of_low (h : e1.low = e2.low) (hmode : ReplayMode e1.g) : ReplayMode e2.g :=
  ⟨(congrArg (fun l => l.g.stmode) h).symm.trans hmode.stmode,
    (congrArg (fun l => l.g.sentTend) h).symm.trans hmode.sentTend⟩

/-- What two paired endpoints did in the same step: they are still paired, set the same times
and, once the first entry is gone and the budgets agree, handed over the same lengths. -/
structure Lockstep (e1 e1' e2 e2' : Endpoint σ β) : Prop where
  low : e1'.low = e2'.low
  zero : e1'.g.w2w = 0 ↔ e2'.g.w2w = 0
  updates : SameTail e1.pkt.updates e1'.pkt.updates e2.pkt.updates e2'.pkt.updates
  handed : e1.g.firstClient = false → e1.g.w2w = e2.g.w2w →
    e1'.g.firstClient = false ∧ e1'.g.w2w = e2'.g.w2w ∧
      SameTail e1.pkt.handed e1'.pkt.handed e2.pkt.handed e2'.pkt.handed

theorem Lockstep.trans {e1'' e2'' : Endpoint σ β} (h : Lockstep e1 e1' e2 e2')
    (h' : Lockstep e1' e1'' e2' e2'') : Lockstep e1 e1'' e2 e2'' := by
  refine ⟨h'.low, h'.zero, h.updates.trans h'.updates, fun hfirst hw => ?_⟩
  obtain ⟨hfirst1, hw1, hh⟩ := h.handed hfirst hw
  obtain ⟨hfirst2, hw2, hh'⟩ := h'.handed hfirst1 hw1
  exact ⟨hfirst2, hw2, hh.trans hh'⟩

/-- A step that neither writes nor touches the budget. -/
structure Quiet (e e' : Endpoint σ β) : Prop where
  w2w : e'.g.w2w = e.g.w2w
  firstClient : e'.g.firstClient = e.g.firstClient
  updates : e'.pkt.updates = e.pkt.updates
  handed : e'.pkt.handed = e.pkt.handed

theorem Paired.lockstep (hp : Paired r e1 e2) (h1 : Quiet e1 e1') (h2 : Quiet e2 e2')
    (hlow : e1'.low = e2'.low) : Lockstep e1 e1' e2 e2' := by
  refine ⟨hlow, ?_, ?_, fun hfirst hw => ⟨?_, ?_, ?_⟩⟩
  · rw [h1.w2w, h2.w2w]
    exact hp.zero
  · rw [h1.updates, h2.updates]
    exact .refl _ _
  · rw [h1.firstClient, hfirst]
  · rw [h1.w2w, h2.w2w, hw]
  · rw [h1.handed, h2.handed]
    exact .refl _ _

theorem Paired.low_unload (hp : Paired r e1 e2) (now : ℕ) :
    (unloadStep now e1).low = (unloadStep now e2).low := by
  have hmode2 := replayMode_of_low hp.low hp.mode
  have hne1 : e1.g.stmode ≠ .csbuflo := by rw [hp.mode.stmode]; decide
  have hne2 : e2.g.stmode ≠ .csbuflo := by rw [hmode2.stmode]; decide
  rw [low_unloadStep now hne1, low_unloadStep now hne2, hp.low]

/-- What two paired slots decide. -/
structure PairedPolls (c : Codec σ β) (T : Tables) (r : Role) (inp : SlotInput)
    (e1 d1 e1' e2 d2 e2' : Endpoint σ β) : Prop where
  left : Polled c T r inp e1 d1 e1'
  right : Polled c T r inp e2 d2 e2'
  low : d1.low = d2.low
  zero : d1.g.w2w = 0 ↔ d2.g.w2w = 0
  equal : e1.g.firstClient = false → e1.g.w2w = e2.g.w2w → d1.g.w2w = d2.g.w2w

/-- Both endpoints skip a slot, or both poll. -/
theorem Paired.slot {inp : SlotInput} (hp : Paired r e1 e2)
    (h1 : (CSBuFLO.slot c T r inp e1).seen = some e1')
    (h2 : (CSBuFLO.slot c T r inp e2).seen = some e2') (hsent : e1'.g.sentTend = false) :
    (e1' = skipSlot (unloadStep inp.now e1) ∧ e2' = skipSlot (unloadStep inp.now e2)) ∨
      ∃ d1 d2, PairedPolls c T r inp e1 d1 e1' e2 d2 e2' := by
  have hmode2 := replayMode_of_low hp.low hp.mode
  have hlow0 := hp.low_unload inp.now
  have hsend : shouldSend r inp (unloadStep inp.now e1) =
      shouldSend r inp (unloadStep inp.now e2) := by
    rw [← low_shouldSend r inp (unloadStep inp.now e1), hlow0, low_shouldSend]
  have hplan := (low_planItem T r inp (unloadStep inp.now e1)).symm.trans
    ((congrArg (planItem T r inp) hlow0).trans (low_planItem T r inp (unloadStep inp.now e2)))
  -- `TEND` is not queued in the second run either
  have hbudget1 := budget_of_slot hp.mode h1 hsent
  have hbudget2 : shouldSend r inp (unloadStep inp.now e2) = true →
      (planItem T r inp (unloadStep inp.now e2)).1 = none → e2.g.w2w ≠ 0 := by
    rw [← hsend, ← (Prod.mk.inj hplan).1, Ne, ← hp.zero]
    exact hbudget1
  rcases polled_of_slot hp.left hp.mode h1 hbudget1 with ⟨hs1, hskip1⟩ | ⟨hs1, d1, hd1⟩
  · rcases polled_of_slot hp.right hmode2 h2 hbudget2 with ⟨-, hskip2⟩ | ⟨hs2, -⟩
    · exact Or.inl ⟨hskip1, hskip2⟩
    · rw [← hsend, hs1] at hs2
      cases hs2
  · rcases polled_of_slot hp.right hmode2 h2 hbudget2 with ⟨hs2, -⟩ | ⟨-, d2, hd2⟩
    · rw [← hsend, hs1] at hs2
      cases hs2
    · obtain ⟨hmode0, -, -, -⟩ := unloadStep_replaying inp.now hp.mode
      have hr0 := reached_unloadStep inp.now hp.left
      have hr02 := reached_unloadStep inp.now hp.right
      obtain ⟨hmode02, -, -, -⟩ := unloadStep_replaying inp.now hmode2
      have hfirst0 : (unloadStep inp.now e1).g.firstClient = e1.g.firstClient :=
        congrArg Script.firstClient (sameScript_unloadStep inp.now e1).1.script
      obtain ⟨hgrant, heq⟩ := slotGrant_pair T inp hlow0 hr0 hmode0
      have hn1 := slotGrant_nonneg T inp hr0 hmode0
      have hn2 := slotGrant_nonneg T inp hr02 hmode02
      have hw1 := hp.left.nonneg
      have hw2 := hp.right.nonneg
      have hzero := hp.zero
      refine Or.inr ⟨d1, d2, hd1, hd2, ?_, ?_, fun hfirst hw => ?_⟩
      · rw [hd1.d_eq, hd2.d_eq]
        exact (low_decided T r inp _ _).trans
          ((congrArg (fun l => (decided T r inp 0 l).low) hlow0).trans
            (low_decided T r inp _ _).symm)
      · rw [hd1.budget, hd2.budget]
        omega
      · rw [hd1.budget, hd2.budget, hw, heq (hfirst0.trans hfirst)]

theorem low_skipSlot (e : Endpoint σ β) : (skipSlot e).low = e.low := by
  unfold skipSlot
  split <;> rfl

theorem quiet_skipSlot (now : ℕ) (he : ReplayMode e.g) : Quiet e (skipSlot (unloadStep now e)) := by
  obtain ⟨-, -, hw, hpkt⟩ := unloadStep_replaying now he
  have hfirst := congrArg Script.firstClient (sameScript_unloadStep now e).1.script
  have hskip : (skipSlot (unloadStep now e)).g = (unloadStep now e).g ∧
      (skipSlot (unloadStep now e)).pkt = (unloadStep now e).pkt := by
    unfold skipSlot
    split <;> exact ⟨rfl, rfl⟩
  rw [hpkt] at hskip
  refine ⟨?_, ?_, by rw [hskip.2], by rw [hskip.2]⟩
  · rw [hskip.1]
    exact hw
  · rw [hskip.1]
    exact hfirst

/-- **Two paired slots that return stay in lockstep.** -/
theorem Paired.lockstep_slot {inp : SlotInput} (hp : Paired r e1 e2)
    (h1 : CSBuFLO.slot c T r inp e1 = .returned e1')
    (h2 : CSBuFLO.slot c T r inp e2 = .returned e2') (hsent : e1'.g.sentTend = false) :
    Lockstep e1 e1' e2 e2' := by
  have hmode2 := replayMode_of_low hp.low hp.mode
  rcases hp.slot (Outcome.seen_eq_some.mpr (Or.inl h1)) (Outcome.seen_eq_some.mpr (Or.inl h2)) hsent
    with ⟨rfl, rfl⟩ | ⟨d1, d2, hpolls⟩
  · refine hp.lockstep (quiet_skipSlot inp.now hp.mode) (quiet_skipSlot inp.now hmode2) ?_
    rw [low_skipSlot, low_skipSlot]
    exact hp.low_unload inp.now
  · obtain ⟨hlow1, hfirst1, hcase1⟩ := hpolls.left.returned h1
    obtain ⟨hlow2, -, hcase2⟩ := hpolls.right.returned h2
    have htime : e1.pkt.packetTimeToWrite = e2.pkt.packetTimeToWrite :=
      congrArg (fun l => l.pkt.packetTimeToWrite) hp.low
    have htau : d1.pkt.packetTau = d2.pkt.packetTau :=
      congrArg (fun l => l.pkt.packetTau) hpolls.low
    have htimed : d1.pkt.packetTimeToWrite = d2.pkt.packetTimeToWrite :=
      congrArg (fun l => l.pkt.packetTimeToWrite) hpolls.low
    -- the time gate is the same in both runs
    have hboth : (e1'.g.w2w = 0 ↔ e2'.g.w2w = 0) ∧
        (d1.g.w2w = d2.g.w2w → e1'.g.w2w = e2'.g.w2w) ∧
        SameTail e1.pkt.updates e1'.pkt.updates e2.pkt.updates e2'.pkt.updates := by
      rcases hcase1 with ⟨hearly1, hw1, hu1, -⟩ | ⟨hgate1, hw1, hu1, -⟩
      · rcases hcase2 with ⟨-, hw2, hu2, -⟩ | ⟨hgate2, -⟩
        · rw [hw1, hw2, hu1, hu2]
          exact ⟨hpolls.zero, id, .refl _ _⟩
        · omega
      · rcases hcase2 with ⟨hearly2, -⟩ | ⟨-, hw2, hu2, -⟩
        · omega
        · rw [hw1, hw2, hu1, hu2, htau]
          exact ⟨Iff.rfl, fun _ => rfl, _, rfl, rfl⟩
    refine ⟨?_, hboth.1, hboth.2.2, fun hfirst hw => ⟨?_, hboth.2.1 (hpolls.equal hfirst hw), ?_⟩⟩
    · rw [hlow1, hlow2, hpolls.low]
    · rw [hfirst1, hpolls.left.d_eq]
      refine firstClient_decided T r inp _ ?_
      exact (congrArg Script.firstClient (sameScript_unloadStep inp.now e1).1.script).trans hfirst
    · rw [hpolls.left.handed, hpolls.right.handed, htimed, hpolls.equal hfirst hw]
      exact ⟨_, rfl, rfl⟩

/-- **Lengths of a slot that may still be looping.** -/
theorem Paired.handed_slot {inp : SlotInput} (hp : Paired r e1 e2)
    (h1 : (CSBuFLO.slot c T r inp e1).seen = some e1')
    (h2 : (CSBuFLO.slot c T r inp e2).seen = some e2') (hsent : e1'.g.sentTend = false)
    (hfirst : e1.g.firstClient = false) (hw : e1.g.w2w = e2.g.w2w) :
    SameTail e1.pkt.handed e1'.pkt.handed e2.pkt.handed e2'.pkt.handed := by
  have hmode2 := replayMode_of_low hp.low hp.mode
  rcases hp.slot h1 h2 hsent with ⟨rfl, rfl⟩ | ⟨d1, d2, hpolls⟩
  · rw [(quiet_skipSlot inp.now hp.mode).handed, (quiet_skipSlot inp.now hmode2).handed]
    exact .refl _ _
  · have htimed : d1.pkt.packetTimeToWrite = d2.pkt.packetTimeToWrite :=
      congrArg (fun l => l.pkt.packetTimeToWrite) hpolls.low
    rw [hpolls.left.handed, hpolls.right.handed, htimed, hpolls.equal hfirst hw]
    exact ⟨_, rfl, rfl⟩

/-! ## Events -/

/-- The events two runs share.  The others are the data the rest of the program queues and
the packets it receives. -/
def visible : EndpointEvent → Bool
  | .data _ _ => false
  | .packet _ payload _ => !plainPayload payload
  | _ => true

theorem packetSend_quiet {b : Bool} {x : ℕ} {payload : List UInt8} {p p' : PacketState σ β}
    (h : packetSend c b x payload p = some p') :
    p'.updates = p.updates ∧ p'.handed = p.handed ∧ p'.packetTau = p.packetTau ∧
      p'.packetTimeToWrite = p.packetTimeToWrite := by
  obtain ⟨bs, s, -, rfl⟩ := packetSend_eq_some h
  exact ⟨rfl, rfl, rfl, rfl⟩

/-- An event the runs need not share shows nothing. -/
theorem hidden_endpointStep {ev : EndpointEvent} (hv : visible ev = false)
    (h : endpointStep c T r e ev = some e') : e'.low = e.low ∧ Quiet e e' := by
  cases ev with
  | slot inp => cases hv
  | received n => cases hv
  | socks p => cases hv
  | data x payload =>
    unfold endpointStep at h
    dsimp only at h
    split at h
    · obtain ⟨pkt, hpkt, rfl⟩ := Option.map_eq_some_iff.mp h
      obtain ⟨hu, hh, htau, ht⟩ := packetSend_quiet hpkt
      refine ⟨?_, rfl, rfl, hu, hh⟩
      unfold Endpoint.low
      rw [htau, ht]
    · cases h
  | packet ts payload beyond =>
    have hplain : plainPayload payload = true := by simpa [visible] using hv
    unfold endpointStep packetReadPollSeqnr at h
    cases payload with
    | nil => cases hplain
    | cons t data =>
      have hn : Notify.ofMsg t = none := Option.isNone_iff_eq_none.mp hplain
      simp only [hn] at h
      split_ifs at h
      · obtain rfl := Option.some.inj h
        exact ⟨rfl, rfl, rfl, rfl, rfl⟩
      · obtain rfl := Option.some.inj h
        unfold noteReceived
        split <;> exact ⟨rfl, rfl, rfl, rfl, rfl⟩

theorem low_setFirstSent (straces : ℤ → List StPair) (g : Globals) :
    setFirstSent straces g.low = (setFirstSent straces g).low := by
  have hid : g.low.clusterId = g.clusterId := rfl
  have hidx : g.low.stIndex = g.stIndex := rfl
  unfold setFirstSent
  dsimp only
  rw [hid, hidx]
  by_cases hneg : g.clusterId = -1
  · rw [if_pos hneg, if_pos hneg]
  · rw [if_neg hneg, if_neg hneg]
    by_cases hend : g.stIndex < 0 ∨ g.stIndex ≥ (straces g.clusterId).length
    · rw [if_pos hend, if_pos hend]
    · rw [if_neg hend, if_neg hend]
      split <;> rfl

/-- The globals at the start of a page on the server, before its credit is set. -/
def serverPage (T : Tables) (url : List UInt8) (g : Globals) : Globals :=
  { setClusterId T { g with
      onloadFlag := false, transcriptEnd := false, sentTend := false, url := url } with
    transPadded := false, transPaddedRemaining := 0, stmode := .supertrace, stIdleStart := 0 }

/-- A notification, on what the observer knows, while a page is replayed. -/
def lowNotify (T : Tables) (n : Notify) (payload : List UInt8) (beyond : ℕ → UInt8) (g : Globals) :
    Globals :=
  match n with
  | .sync => g
  | .onload => { g with onloadFlag := true }
  | .unload => { g with paddingdoneFlag := false, unloadFlag := true }
  | .tend => { g with transcriptEnd := true }
  | .normal => { g with serverEnteringNormal := true }
  | .paddingdone => { g with paddingdoneFlag := true }
  | .urlack => { g with urlack := true }
  | .url =>
    let g := setFirstSent T.straces (serverPage T (setUrl (memory payload.tail beyond) 4) g)
    { g with receivedSofar := g.firstExpected }

/-- A URL after which a trace is replayed has a cluster. -/
theorem cluster_of_handleNotify {payload : List UInt8} {beyond : ℕ → UInt8} (he' : ReplayMode e'.g)
    (h : handleNotify c T .url payload beyond e = some e') :
    hmLookup T.clusters (setUrl (memory payload.tail beyond) 4) ≠ -1 := by
  intro hid
  unfold handleNotify startServerPage setClusterId at h
  dsimp only at h
  rw [if_neg (not_not.mpr hid)] at h
  rw [← Option.some.inj h] at he'
  cases he'.stmode

theorem low_handleNotify {n : Notify} {payload : List UInt8} {beyond : ℕ → UInt8}
    (he : ReplayMode e.g)
    (hurl : n = .url → hmLookup T.clusters (setUrl (memory payload.tail beyond) 4) ≠ -1)
    (h : handleNotify c T n payload beyond e = some e') :
    e'.low = { e.low with g := lowNotify T n payload beyond e.low.g } ∧ Quiet e e' := by
  cases n with
  | url =>
    unfold handleNotify startServerPage at h
    dsimp only at h
    split at h
    · obtain ⟨pkt, hpkt, rfl⟩ := Option.map_eq_some_iff.mp h
      obtain ⟨hu, hh, htau, ht⟩ := packetSend_quiet hpkt
      have hpage : setFirstSent T.straces
          (serverPage T (setUrl (memory payload.tail beyond) 4) e.low.g) = _ :=
        low_setFirstSent T.straces (serverPage T (setUrl (memory payload.tail beyond) 4) e.g)
      refine ⟨?_, ?_, ?_, hu, hh⟩
      · unfold lowNotify
        dsimp only
        rw [hpage]
        unfold Endpoint.low
        dsimp only
        rw [htau, ht]
        rfl
      · rw [setFirstSent_eq]
        rfl
      · rw [setFirstSent_eq]
        rfl
    · rename_i hid
      exact absurd (hurl rfl) hid
  | normal =>
    unfold handleNotify at h
    dsimp only at h
    rw [if_neg (by rw [he.stmode]; decide)] at h
    obtain rfl := Option.some.inj h
    exact ⟨rfl, rfl, rfl, rfl, rfl⟩
  | sync => obtain rfl := Option.some.inj h; exact ⟨rfl, rfl, rfl, rfl, rfl⟩
  | onload => obtain rfl := Option.some.inj h; exact ⟨rfl, rfl, rfl, rfl, rfl⟩
  | unload => obtain rfl := Option.some.inj h; exact ⟨rfl, rfl, rfl, rfl, rfl⟩
  | tend => obtain rfl := Option.some.inj h; exact ⟨rfl, rfl, rfl, rfl, rfl⟩
  | paddingdone => obtain rfl := Option.some.inj h; exact ⟨rfl, rfl, rfl, rfl, rfl⟩
  | urlack => obtain rfl := Option.some.inj h; exact ⟨rfl, rfl, rfl, rfl, rfl⟩

/-- A control request, on what the observer knows: a URL is not taken during a replay. -/
def lowSocks (p : ℕ → UInt8) (g : Globals) : Globals :=
  if p 1 = 4 then { g with onloadFlag := true }
  else if p 1 = 5 then { g with unloadFlag := true }
  else g

theorem low_socksControl {q : ℕ → UInt8} (he : ReplayMode e.g)
    (h : socksControl c T q e = some e') :
    e'.low = { e.low with g := lowSocks q e.low.g } ∧ Quiet e e' := by
  have hqueue : ∀ {n : Notify} {g : Globals} {e' : Endpoint σ β},
      ({ e with g := g } : Endpoint σ β).withPkt (packetSendNotify c n e.pkt) = some e' →
      e'.g = g ∧ e'.low = { e.low with g := g.low } ∧ e'.pkt.updates = e.pkt.updates ∧
        e'.pkt.handed = e.pkt.handed := by
    intro n g e' h
    obtain ⟨pkt, hpkt, rfl⟩ := Option.map_eq_some_iff.mp h
    obtain ⟨hu, hh, htau, ht⟩ := packetSend_quiet hpkt
    refine ⟨rfl, ?_, hu, hh⟩
    unfold Endpoint.low
    rw [htau, ht]
  unfold socksControl at h
  unfold lowSocks
  by_cases h4 : q 1 = 4
  · rw [if_pos h4] at h ⊢
    obtain ⟨hg, hlow, hu, hh⟩ := hqueue h
    exact ⟨hlow, by rw [hg], by rw [hg], hu, hh⟩
  · rw [if_neg h4] at h ⊢
    by_cases h5 : q 1 = 5
    · rw [if_pos h5] at h ⊢
      obtain ⟨hg, hlow, hu, hh⟩ := hqueue h
      exact ⟨hlow, by rw [hg], by rw [hg], hu, hh⟩
    · rw [if_neg h5] at h ⊢
      rw [if_neg (by rw [he.stmode]; decide : ¬e.g.stmode = .normal), ite_self] at h
      obtain rfl := Option.some.inj h
      exact ⟨rfl, rfl, rfl, rfl, rfl⟩

/-- **An event both runs share keeps them in lockstep.** -/
theorem Paired.lockstep_endpointStep {ev : EndpointEvent} (hp : Paired r e1 e2)
    (hv : visible ev = true) (h1 : endpointStep c T r e1 ev = some e1')
    (h2 : endpointStep c T r e2 ev = some e2') (hmode : ReplayMode e1'.g) :
    Lockstep e1 e1' e2 e2' := by
  have hmode2 := replayMode_of_low hp.low hp.mode
  cases ev with
  | slot inp =>
    exact hp.lockstep_slot (endpointStep_slot.mp h1) (endpointStep_slot.mp h2) hmode.sentTend
  | data x payload => cases hv
  | received n =>
    obtain rfl := Option.some.inj h1
    obtain rfl := Option.some.inj h2
    refine hp.lockstep ⟨rfl, rfl, rfl, rfl⟩ ⟨rfl, rfl, rfl, rfl⟩ ?_
    exact congrArg (fun l : Endpoint Unit Unit =>
      ({ l with g := { l.g with receivedSofar := l.g.receivedSofar + n } } : Endpoint Unit Unit))
      hp.low
  | packet ts payload beyond =>
    unfold endpointStep packetReadPollSeqnr at h1 h2
    cases payload with
    | nil =>
      obtain rfl := Option.some.inj h1
      obtain rfl := Option.some.inj h2
      exact hp.lockstep ⟨rfl, rfl, rfl, rfl⟩ ⟨rfl, rfl, rfl, rfl⟩ hp.low
    | cons t data =>
      cases hn : Notify.ofMsg t with
      | none => simp [visible, plainPayload, hn] at hv
      | some n =>
        simp only [hn] at h1 h2
        have hurl : n = .url →
            hmLookup T.clusters (setUrl (memory (t :: data).tail beyond) 4) ≠ -1 := by
          rintro rfl
          exact cluster_of_handleNotify hmode h1
        obtain ⟨hlow1, hq1⟩ := low_handleNotify hp.mode hurl h1
        obtain ⟨hlow2, hq2⟩ := low_handleNotify hmode2 hurl h2
        refine hp.lockstep hq1 hq2 ?_
        rw [hlow1, hlow2, hp.low]
  | socks p =>
    cases r with
    | server => cases h1
    | client =>
      obtain ⟨hlow1, hq1⟩ := low_socksControl hp.mode h1
      obtain ⟨hlow2, hq2⟩ := low_socksControl hmode2 h2
      refine hp.lockstep hq1 hq2 ?_
      rw [hlow1, hlow2, hp.low]

/-! ## Whole runs -/

/-- Hidden events in a row. -/
theorem hidden_run {evs : List EndpointEvent} (hv : ∀ ev ∈ evs, visible ev = false)
    (h : Transition.run (endpointStep c T r) e evs = some e') : e'.low = e.low ∧ Quiet e e' := by
  refine Transition.inv_run_of_along (I := fun x => x.low = e.low ∧ Quiet e x)
    (G := fun _ ev _ => visible ev = false) ?_
    (Transition.along_of_forall (fun ev hev _ _ => hv ev hev) e) h ⟨rfl, rfl, rfl, rfl, rfl⟩
  rintro x ev x' ⟨hlow, hq⟩ hvis hstep
  obtain ⟨hlow', hq'⟩ := hidden_endpointStep hvis hstep
  exact ⟨hlow'.trans hlow, hq'.w2w.trans hq.w2w, hq'.firstClient.trans hq.firstClient,
    hq'.updates.trans hq.updates, hq'.handed.trans hq.handed⟩

/-- Hidden events of either run keep them paired. -/
theorem Paired.hidden {pre1 pre2 : List EndpointEvent} (hp : Paired r e1 e2)
    (hv1 : ∀ ev ∈ pre1, visible ev = false) (hv2 : ∀ ev ∈ pre2, visible ev = false)
    (h1 : Transition.run (endpointStep c T r) e1 pre1 = some e1')
    (h2 : Transition.run (endpointStep c T r) e2 pre2 = some e2') :
    Lockstep e1 e1' e2 e2' ∧ Paired r e1' e2' := by
  obtain ⟨hlow1, hq1⟩ := hidden_run hv1 h1
  obtain ⟨hlow2, hq2⟩ := hidden_run hv2 h2
  have hlow : e1'.low = e2'.low := by rw [hlow1, hlow2, hp.low]
  have hstep := hp.lockstep hq1 hq2 hlow
  refine ⟨hstep, hlow, replayMode_of_low hlow1.symm hp.mode, ?_, ?_, hstep.zero⟩
  · exact Transition.inv_run (I := Reached r) (fun _ _ _ he hs => reached_endpointStep hs he)
      h1 hp.left
  · exact Transition.inv_run (I := Reached r) (fun _ _ _ he hs => reached_endpointStep hs he)
      h2 hp.right

/-- **Two runs that share their visible events stay in lockstep.**  The induction is on the
visible events; between two of them each run has hidden events of its own. -/
theorem Paired.lockstep_run {vs : List EndpointEvent} {evs1 evs2 : List EndpointEvent}
    {f1 f2 : Endpoint σ β} (hp : Paired r e1 e2) (hv1 : evs1.filter visible = vs)
    (hv2 : evs2.filter visible = vs)
    (hwin : Transition.Along (endpointStep c T r) (fun _ _ e' => ReplayMode e'.g) e1 evs1)
    (h1 : Transition.run (endpointStep c T r) e1 evs1 = some f1)
    (h2 : Transition.run (endpointStep c T r) e2 evs2 = some f2) :
    Lockstep e1 f1 e2 f2 ∧ Paired r f1 f2 := by
  induction vs generalizing evs1 evs2 e1 e2 with
  | nil =>
    have hh1 : ∀ ev ∈ evs1, visible ev = false := by simpa using List.filter_eq_nil_iff.mp hv1
    have hh2 : ∀ ev ∈ evs2, visible ev = false := by simpa using List.filter_eq_nil_iff.mp hv2
    exact hp.hidden hh1 hh2 h1 h2
  | cons v vs ih =>
    obtain ⟨pre1, post1, rfl, hpre1, hvis, hpost1⟩ := List.filter_eq_cons_iff.mp hv1
    obtain ⟨pre2, post2, rfl, hpre2, -, hpost2⟩ := List.filter_eq_cons_iff.mp hv2
    rw [Transition.run_append] at h1 h2
    obtain ⟨m1, hm1, h1⟩ := Option.bind_eq_some_iff.mp h1
    obtain ⟨m2, hm2, h2⟩ := Option.bind_eq_some_iff.mp h2
    obtain ⟨k1, hk1, h1⟩ := Transition.run_cons_eq_some.mp h1
    obtain ⟨k2, hk2, h2⟩ := Transition.run_cons_eq_some.mp h2
    obtain ⟨hmode, hwin1⟩ := hwin.drop hm1 k1 hk1
    obtain ⟨hstep0, hp0⟩ := hp.hidden (by simpa using hpre1) (by simpa using hpre2) hm1 hm2
    have hstep1 := hp0.lockstep_endpointStep hvis hk1 hk2 hmode
    have hp1 : Paired r k1 k2 := ⟨hstep1.low, hmode, reached_endpointStep hk1 hp0.left,
      reached_endpointStep hk2 hp0.right, hstep1.zero⟩
    obtain ⟨hstep2, hp2⟩ := ih hp1 hpost1 hpost2 hwin1 h1 h2
    exact ⟨(hstep0.trans hstep1).trans hstep2, hp2⟩

/-! ## The budget over a slot -/

/-- What a slot does with the budget: what was granted is accepted or still granted; before
its time nothing is accepted, and a poll past its time leaves nothing. -/
structure Budgeted (T : Tables) (r : Role) (inp : SlotInput) (e e' : Endpoint σ β) : Prop where
  conserved : (e'.pkt.wire.length : ℤ) + e'.g.w2w = e.pkt.wire.length + e.g.w2w +
    if shouldSend r inp (unloadStep inp.now e) then slotGrant T r inp (unloadStep inp.now e) else 0
  early : inp.poll.now < e.pkt.packetTimeToWrite → e'.pkt.wire = e.pkt.wire
  past : shouldSend r inp (unloadStep inp.now e) = true → e.pkt.packetTimeToWrite ≤ inp.poll.now →
    e'.g.w2w = 0

/-- **A slot of the replay that returns loses no grant.** -/
theorem budgeted_slot {inp : SlotInput} (hr : Reached r e) (he : ReplayMode e.g)
    (h : slot c T r inp e = .returned e') (hsent : e'.g.sentTend = false) :
    Budgeted T r inp e e' := by
  have hseen : (slot c T r inp e).seen = some e' := Outcome.seen_eq_some.mpr (Or.inl h)
  rcases polled_of_slot hr he hseen (budget_of_slot he hseen hsent) with ⟨hs, rfl⟩ | ⟨hs, d, hd⟩
  · have hskip : (skipSlot (unloadStep inp.now e)).pkt = e.pkt := by
      obtain ⟨-, -, -, hpkt⟩ := unloadStep_replaying inp.now he
      unfold skipSlot
      split <;> exact hpkt
    refine ⟨?_, fun _ => by rw [hskip], fun hc => ?_⟩
    · rw [hskip, (quiet_skipSlot inp.now he).w2w, hs]
      simp
    · rw [hs] at hc
      cases hc
  · have hbudget := hd.budget
    have hnonneg := hd.nonneg
    obtain ⟨-, -, hcase⟩ := hd.returned h
    rcases hcase with ⟨hearly, hw, -, hwire⟩ | ⟨hgate, hw, -, hwire⟩
    · refine ⟨?_, fun _ => hwire, fun _ hg => by omega⟩
      rw [hwire, hw, if_pos hs, hbudget]
      omega
    · refine ⟨?_, fun hg => by omega, fun _ _ => hw⟩
      rw [hw, if_pos hs, hwire]
      push_cast
      omega

/-! ## Transcript mode hides the real traffic -/

/-- Two pages: one entry of the client in the first, three in the second. -/
def twoPages : Tables where
  clusters := ⟨fun _ => [([97], 1), ([98], 2)], Hashmap.pos_pagesAB⟩
  straces id :=
    if id = 1 then [⟨-400, 50, 0, 0⟩]
    else [⟨-100, 50, 0, 0⟩, ⟨-100, 50, 0, 0⟩, ⟨-200, 50, 0, 0⟩]

/-- The first page, up to the return to normal mode.  Its `URLACK` is never used, and the last
slot sets the next time to write 81920 microseconds ahead. -/
def firstPage : List EndpointEvent :=
  [.socks (urlRequest 97), .slot (openSlot 1000), notified .urlack, .slot (openSlot 2000),
    notified .tend, .slot (openSlot 100000),
    .slot { openSlot 3000000 with poll := ⟨3000000, 100, [⟨0, .accepted 16384⟩]⟩ }]

/-- A packet with `n` bytes of data. -/
def dataPacket (n : ℕ) : EndpointEvent := .data 0 (94 :: List.replicate n 0)

/-- The first page, then the reply to a global request.  The handler waits until it is written, at
3090000 microseconds, which moves the time of the packet layer to 3171920 and leaves the one of the
loop at 3081920. -/
def repliedPage : List LoopEvent :=
  firstPage.map .endpoint ++
    [.endpoint (.data 0 [82]), .writeWait [⟨3090000, 100, [⟨0, .accepted 16384⟩]⟩]]

/-- The second page up to its first slot, with `n` bytes of data queued before. -/
def grownFirst (n : ℕ) : List EndpointEvent :=
  [dataPacket n, .socks (urlRequest 98), .slot (openSlot 3100000)]

end CSBuFLO
