/-
# The transcript slot, step by step

What a send slot does in transcript mode, cut into pieces that later proofs use by name:

* `planItem` moves the cursor and says which entry, if any, is to be scheduled;
* `scheduleItem` grants its bytes, or finds that it has to wait;
* without an entry (`noItem`) the slot is a pause, in which `TEND` is queued as soon as the
  budget is used up.

`slot_replaying` lists all a slot can do that stays in the replay of a page, before the own
`TEND`.
-/
import CSBuFLO.Control
import CSBuFLO.TranscriptWrite
import CSBuFLO.Transition

namespace CSBuFLO

variable {σ β : Type}

/-! ## Which entry comes next -/

/-- The entry a slot is to schedule, if any, and the endpoint with its cursor moved. -/
def planItem (T : Tables) (r : Role) (inp : SlotInput) (e : Endpoint σ β) :
    Option StPair × Endpoint σ β :=
  let e := advanceCursor T r e
  match e.g.curItem with
  | none => (none, e)
  | some item =>
    if e.g.onloadFlag = false then (some item, e)
    else
      let j := shouldJumpTransEnd inp.rand e.g
      (if j.1 then none else some item, { e with g := j.2 })

/-- A slot without an entry pauses. -/
def noItem (e : Endpoint σ β) : Endpoint σ β :=
  { e with
    pkt := e.pkt.setPacketTau (10 * initialTau)
    loop := { e.loop with waitingForAPacket := false } }

theorem transcriptSlot_eq (c : Codec σ β) (T : Tables) (r : Role) (inp : SlotInput) (n : ℕ)
    (e : Endpoint σ β) :
    transcriptSlot c T r inp n e =
      match (planItem T r inp e).1 with
      | none => endTranscript c r inp n (planItem T r inp e).2
      | some item => some (scheduleItem r inp n item (planItem T r inp e).2) := by
  unfold transcriptSlot planItem
  dsimp only
  cases (advanceCursor T r e).g.curItem with
  | none => rfl
  | some item =>
    dsimp only
    by_cases hload : (advanceCursor T r e).g.onloadFlag = false
    · rw [if_pos hload, if_pos hload]
    · rw [if_neg hload, if_neg hload]
      cases (shouldJumpTransEnd inp.rand (advanceCursor T r e).g).1 with
      | true => rfl
      | false => rfl

/-- Planning only moves the cursor. -/
theorem planItem_eq (T : Tables) (r : Role) (inp : SlotInput) (e : Endpoint σ β) :
    (planItem T r inp e).2 = { e with
      g := { e.g with
        curItem := (planItem T r inp e).2.g.curItem
        stIndex := (planItem T r inp e).2.g.stIndex }
      loop := { e.loop with item := (planItem T r inp e).2.loop.item } } := by
  have hadv : advanceCursor T r e = { e with
      g := { e.g with
        curItem := (advanceCursor T r e).g.curItem
        stIndex := (advanceCursor T r e).g.stIndex }
      loop := { e.loop with item := (advanceCursor T r e).loop.item } } := by
    unfold advanceCursor
    dsimp only
    split
    · rfl
    · rw [moveToNextStItem_eq]
  unfold planItem
  dsimp only
  split
  · exact hadv
  · split
    · exact hadv
    · dsimp only
      rw [shouldJumpTransEnd_eq, hadv]

variable {e : Endpoint σ β} {c : Codec σ β} {inp : SlotInput} {r : Role}

/-- With a budget left nothing is queued at the end of the transcript. -/
theorem endTranscript_of_budget (c : Codec σ β) (r : Role) (inp : SlotInput) (n : ℕ)
    (h : e.g.w2w ≠ 0) : endTranscript c r inp n e = some (noItem e) := by
  unfold endTranscript queueTend leaveTranscript
  dsimp only
  rw [if_neg (fun hc => h hc.2), Option.bind_some, if_neg (fun hc => h hc.2)]
  rfl

/-- Without a budget the own `TEND` is queued, or was. -/
theorem sentTend_endTranscript {n : ℕ} {e' : Endpoint σ β} (h : endTranscript c r inp n e = some e')
    (hw : e.g.w2w = 0) : e'.g.sentTend = true := by
  obtain ⟨e1, h1, h2⟩ := Option.bind_eq_some_iff.mp h
  have hsent : e1.g.sentTend = true := by
    unfold queueTend at h1
    split at h1
    · obtain ⟨e2, -, rfl⟩ := Option.map_eq_some_iff.mp h1
      rfl
    · rename_i hcond
      rw [← Option.some.inj h1]
      by_contra hs
      exact hcond ⟨Bool.eq_false_iff.mpr hs, hw⟩
  rcases leaveTranscript_cases h2 with hnormal | rfl | ⟨idle, rfl⟩
  · obtain ⟨_, _, _, _, rfl⟩ := switchToNormal_eq_some hnormal
    exact hsent
  · exact hsent
  · exact hsent

/-! ## Slots in the replay -/

/-- What a slot of the replay decides before it writes. -/
def decided (T : Tables) (r : Role) (inp : SlotInput) (n : ℕ) (e : Endpoint σ β) : Endpoint σ β :=
  let e1 := match (planItem T r inp e).1 with
    | none => noItem (planItem T r inp e).2
    | some item => scheduleItem r inp n item (planItem T r inp e).2
  { e1 with loop := { e1.loop with trulyIdle := false } }

/-! ### The budget -/

/-- Whether an entry may be sent now. -/
def itemVerdict (r : Role) (inp : SlotInput) (item : StPair) (e : Endpoint σ β) : Verdict :=
  waitVerdict (admitItem r 0 item e.g).2.1 e.g.receivedSofar e.loop.deadlockStart inp.deadlockNow

theorem waitVerdict_eq_go {expected received start now : ℕ} :
    waitVerdict expected received start now = .go ↔ expected ≤ received := by
  unfold waitVerdict
  by_cases h : expected > received
  · rw [if_pos h]
    dsimp only
    split_ifs <;> simp <;> omega
  · rw [if_neg h]
    simpa using h

/-- The breaker lets a blocked entry go five seconds after the noted start of the wait. -/
theorem waitVerdict_eq_breaker {expected received start now : ℕ} :
    waitVerdict expected received start now = .breaker ↔
      received < expected ∧ start ≠ 0 ∧ start + 5000000 ≤ now := by
  unfold waitVerdict
  by_cases h : expected > received
  · rw [if_pos h]
    dsimp only
    split_ifs <;> simp <;> omega
  · rw [if_neg h]
    simp
    omega

/-- The bytes a slot grants to an entry when `n` bytes are queued. -/
def itemGrant (r : Role) (inp : SlotInput) (n : ℕ) (item : StPair) (e : Endpoint σ β) : ℤ :=
  if itemVerdict r inp item e = .wait then 0 else (admitItem r n item e.g).1

/-- The size of an own entry, as the number of bytes to send. -/
def Role.itemSize (r : Role) (item : StPair) : ℤ :=
  match r with
  | .client => 0 - item.size
  | .server => item.size

theorem itemSize_pos {item : StPair} (h : ownItem r.isPos item = true) : 0 < r.itemSize item := by
  cases r with
  | client =>
    have : item.size < 0 := of_decide_eq_true h
    show 0 < 0 - item.size
    omega
  | server => exact of_decide_eq_true h

/-- The first entry may grow to all that is queued, every other one has its own size. -/
theorem admitItem_size (r : Role) (n : ℕ) (item : StPair) (g : Globals) :
    (admitItem r n item g).1 =
      if g.firstClient then max (r.itemSize item) n else r.itemSize item := by
  unfold admitItem
  by_cases hfirst : g.firstClient = true
  · rw [if_pos hfirst, if_pos hfirst]
    show (if (n : ℤ) > r.itemSize item then (n : ℤ) else r.itemSize item) = _
    split <;> omega
  · rw [if_neg hfirst, if_neg hfirst]
    cases r with
    | client =>
      dsimp only
      split
      · split <;> rfl
      · rfl
    | server => rfl

theorem itemGrant_nonneg (inp : SlotInput) (n : ℕ) {item : StPair} (e : Endpoint σ β)
    (h : ownItem r.isPos item = true) : 0 ≤ itemGrant r inp n item e := by
  have hpos := itemSize_pos h
  unfold itemGrant
  rw [admitItem_size]
  split_ifs <;> omega

/-- What an entry expects does not depend on what is queued. -/
theorem admitItem_expected (r : Role) (n n' : ℕ) (item : StPair) (g : Globals) :
    (admitItem r n item g).2 = (admitItem r n' item g).2 := by
  unfold admitItem
  by_cases hfirst : g.firstClient = true
  · rw [if_pos hfirst, if_pos hfirst]
  · rw [if_neg hfirst, if_neg hfirst]

theorem receivedSofar_admitItem (r : Role) (n : ℕ) (item : StPair) (g : Globals) :
    (admitItem r n item g).2.2.receivedSofar = g.receivedSofar := by
  rw [admitItem_eq]

theorem w2w_admitItem (r : Role) (n : ℕ) (item : StPair) (g : Globals) :
    (admitItem r n item g).2.2.w2w = g.w2w := by
  rw [admitItem_eq]

/-- No entry is the first one any more once an entry was admitted. -/
theorem firstClient_admitItem (r : Role) (n : ℕ) (item : StPair) (g : Globals) :
    (admitItem r n item g).2.2.firstClient = false := by
  unfold admitItem
  cases hf : g.firstClient with
  | true => rfl
  | false =>
    rw [if_neg Bool.false_ne_true]
    cases r with
    | client =>
      dsimp only
      split
      · split
        · rfl
        · exact hf
      · exact hf
    | server => exact hf

/-- The globals after an entry was treated, up to the budget. -/
def treatItem (r : Role) (inp : SlotInput) (item : StPair) (e : Endpoint σ β) : Globals :=
  let a := (admitItem r 0 item e.g).2
  match itemVerdict r inp item e with
  | .wait => a.2
  | .breaker =>
    match r with
    | .client => { a.2 with secondClient := false }
    | .server => a.2
  | .go => { a.2 with receivedSofar := e.g.receivedSofar - a.1 }

/-- When the wait for an entry began. -/
def waitStart (r : Role) (inp : SlotInput) (item : StPair) (e : Endpoint σ β) : ℕ :=
  if itemVerdict r inp item e = .wait then
    if e.loop.deadlockStart = 0 then inp.deadlockNow else e.loop.deadlockStart
  else 0

/-- **Scheduling an entry**: its grant is added to the budget, and its delay is the next
period, unless it has to wait. -/
theorem scheduleItem_eq (r : Role) (inp : SlotInput) (n : ℕ) (item : StPair) (e : Endpoint σ β) :
    scheduleItem r inp n item e = { e with
      g := (treatItem r inp item e).setW2w (e.g.w2w + itemGrant r inp n item e)
      pkt := e.pkt.setPacketTau (if itemVerdict r inp item e = .wait then 0 else item.time)
      loop := { e.loop with
        waitingForAPacket := decide (itemVerdict r inp item e = .wait)
        deadlockStart := waitStart r inp item e } } := by
  have hexp := admitItem_expected r n 0 item e.g
  have hrec := receivedSofar_admitItem r 0 item e.g
  have hw2w := w2w_admitItem r 0 item e.g
  have hverdict : waitVerdict (admitItem r n item e.g).2.1
      (admitItem r n item e.g).2.2.receivedSofar e.loop.deadlockStart inp.deadlockNow =
        itemVerdict r inp item e := by
    rw [hexp, hrec]
    rfl
  unfold scheduleItem treatItem itemGrant waitStart
  dsimp only
  rw [hverdict, hexp]
  cases itemVerdict r inp item e with
  | wait => simp [hw2w]
  | breaker => cases r <;> simp [hw2w]
  | go => simp [hw2w, hrec]

/-! ### The decision -/

theorem stmode_scheduleItem (r : Role) (inp : SlotInput) (n : ℕ) (item : StPair)
    (e : Endpoint σ β) : (scheduleItem r inp n item e).g.stmode = e.g.stmode :=
  congrArg Ctl.stmode (ctl_scheduleItem r inp n item e)

theorem sentTend_scheduleItem (r : Role) (inp : SlotInput) (n : ℕ) (item : StPair)
    (e : Endpoint σ β) : (scheduleItem r inp n item e).g.sentTend = e.g.sentTend :=
  congrArg Ctl.sentTend (ctl_scheduleItem r inp n item e)

theorem stmode_planItem (T : Tables) (r : Role) (inp : SlotInput) (e : Endpoint σ β) :
    (planItem T r inp e).2.g.stmode = e.g.stmode := by
  rw [planItem_eq]

theorem sentTend_planItem (T : Tables) (r : Role) (inp : SlotInput) (e : Endpoint σ β) :
    (planItem T r inp e).2.g.sentTend = e.g.sentTend := by
  rw [planItem_eq]

theorem w2w_planItem (T : Tables) (r : Role) (inp : SlotInput) (e : Endpoint σ β) :
    (planItem T r inp e).2.g.w2w = e.g.w2w := by
  rw [planItem_eq]

/-- In transcript mode the csbuflo part of a slot only notes that it is not idle. -/
theorem csbufloSlot_of_ne (c : Codec σ β) (r : Role) (inp : SlotInput) (n : ℕ)
    (h : e.g.stmode ≠ .csbuflo) :
    csbufloSlot c r inp n e = some { e with loop := { e.loop with trulyIdle := false } } := by
  unfold csbufloSlot
  exact if_neg h

theorem ctl_decided (T : Tables) (r : Role) (inp : SlotInput) (n : ℕ) (e : Endpoint σ β) :
    (decided T r inp n e).g.stmode = e.g.stmode ∧
      (decided T r inp n e).g.sentTend = e.g.sentTend := by
  unfold decided
  dsimp only
  split
  · exact ⟨stmode_planItem T r inp e, sentTend_planItem T r inp e⟩
  · rename_i item _
    exact ⟨(stmode_scheduleItem r inp n item _).trans (stmode_planItem T r inp e),
      (sentTend_scheduleItem r inp n item _).trans (sentTend_planItem T r inp e)⟩

/-- A slot of the replay decides as `decided` says, unless there is no entry and no budget
left. -/
theorem decideSlot_eq_decided (c : Codec σ β) {T : Tables} (hmode : e.g.stmode = .supertrace)
    (hplan : (planItem T r inp e).1 = none → e.g.w2w ≠ 0) :
    decideSlot c T r inp e = some (decided T r inp e.pkt.outputLen e) := by
  have hstay := (ctl_decided T r inp e.pkt.outputLen e).1
  unfold decideSlot decided at *
  dsimp only at hstay ⊢
  rw [if_pos hmode, transcriptSlot_eq]
  cases hitem : (planItem T r inp e).1 with
  | none =>
    simp only [hitem] at hstay ⊢
    rw [endTranscript_of_budget c r inp _ (by rw [w2w_planItem]; exact hplan hitem),
      Option.bind_some, csbufloSlot_of_ne c r inp _ (by rw [hstay, hmode]; decide)]
  | some item =>
    simp only [hitem] at hstay ⊢
    rw [Option.bind_some, csbufloSlot_of_ne c r inp _ (by rw [hstay, hmode]; decide)]

theorem sentTend_of_reflTransGen {k k' : Ctl} (h : Relation.ReflTransGen (CtlStep r) k k')
    (hk : k.sentTend = true) : k'.sentTend = true := by
  refine Transition.inv_reflTransGen (I := fun k => k.sentTend = true) ?_ h hk
  intro k k' hk hstep
  cases hstep with
  | tend => rfl
  | toCsbuflo => exact hk
  | toNormal =>
    cases r with
    | client =>
      unfold Ctl.enterNormal Ctl.releaseLock
      dsimp only
      split <;> exact hk
    | server => exact hk
  | paddingdone => exact hk

/-- A slot that does not queue `TEND` has an entry or a budget. -/
theorem budget_of_decideSlot {T : Tables} {e1 : Endpoint σ β} (hmode : e.g.stmode = .supertrace)
    (h : decideSlot c T r inp e = some e1) (hsent : e1.g.sentTend = false) :
    (planItem T r inp e).1 = none → e.g.w2w ≠ 0 := by
  intro hitem hw
  unfold decideSlot at h
  dsimp only at h
  rw [if_pos hmode, transcriptSlot_eq] at h
  simp only [hitem] at h
  obtain ⟨e2, h2, h3⟩ := Option.bind_eq_some_iff.mp h
  have hsent2 := sentTend_endTranscript h2 (by rw [w2w_planItem]; exact hw)
  have hlast : e1.g.sentTend = true := sentTend_of_reflTransGen (ctl_csbufloSlot h3) hsent2
  rw [hsent] at hlast
  cases hlast

/-! ### The whole slot -/

theorem unloadStep_of_ne (now : ℕ) (h : e.g.stmode ≠ .csbuflo) :
    unloadStep now e = if e.g.unloadFlag then
      { e with g := { e.g with unloadFlag := false, transPaddedRemaining := 2560 } } else e := by
  unfold unloadStep
  rw [if_neg h]

/-- In the replay the unload event leaves the mode, the budget and the buffer alone. -/
theorem unloadStep_replaying (now : ℕ) (he : ReplayMode e.g) :
    (unloadStep now e).g.stmode = .supertrace ∧ (unloadStep now e).g.sentTend = false ∧
      (unloadStep now e).g.w2w = e.g.w2w ∧ (unloadStep now e).pkt = e.pkt := by
  rw [unloadStep_of_ne now (by rw [he.stmode]; decide)]
  split <;> exact ⟨he.stmode, he.sentTend, rfl, rfl⟩

/-- What a slot of the replay leaves after it has written: the globals and the sending side
of the poll, and the next time to write. -/
structure AfterPoll (e1 : Endpoint σ β) (g : Globals) (p : PacketState σ β) (e' : Endpoint σ β) :
    Prop where
  g_eq : e'.g = g
  pkt_eq : e'.pkt = p
  time_eq : e'.loop.timeToWrite = p.packetTimeToWrite
  deadlock_eq : e'.loop.deadlockStart = e1.loop.deadlockStart
  waiting_eq : e'.loop.waitingForAPacket = e1.loop.waitingForAPacket
  item_eq : e'.loop.item = e1.loop.item

theorem afterPoll_accountSent (r : Role) (inp : SlotInput) (n before : ℕ) (incoming : ℤ)
    (e1 : Endpoint σ β) {g : Globals} (p : PacketState σ β) (hmode : g.stmode ≠ .csbuflo) :
    AfterPoll e1 g p (accountSent r inp n incoming before { e1 with g := g, pkt := p }) := by
  unfold accountSent
  dsimp only
  split
  · rename_i hcs
    exact absurd hcs hmode
  · exact ⟨rfl, rfl, rfl, rfl, rfl, rfl⟩

/-- The decision of a slot of the replay, after the unload event. -/
theorem decideSlot_replaying {T : Tables} {e1 : Endpoint σ β} (he : ReplayMode e.g)
    (hplan : (planItem T r inp (unloadStep inp.now e)).1 = none → e.g.w2w ≠ 0)
    (h : decideSlot c T r inp (unloadStep inp.now e) = some e1) :
    e1 = decided T r inp e.pkt.outputLen (unloadStep inp.now e) ∧ ReplayMode e1.g := by
  obtain ⟨hmode0, hsent0, hw0, hpkt0⟩ := unloadStep_replaying inp.now he
  have heq := decideSlot_eq_decided c hmode0 (by rw [hw0]; exact hplan)
  rw [hpkt0] at heq
  obtain rfl := Option.some.inj (h.symm.trans heq)
  obtain ⟨hm, hs⟩ := ctl_decided T r inp e.pkt.outputLen (unloadStep inp.now e)
  exact ⟨rfl, hm.trans hmode0, hs.trans hsent0⟩

/-- **A slot of the replay.**  It does nothing, or it decides and polls, unless there is no
entry and no budget left. -/
theorem slot_replaying {T : Tables} {e' : Endpoint σ β} (he : ReplayMode e.g)
    (h : (slot c T r inp e).seen = some e')
    (hplan : shouldSend r inp (unloadStep inp.now e) = true →
      (planItem T r inp (unloadStep inp.now e)).1 = none → e.g.w2w ≠ 0) :
    (shouldSend r inp (unloadStep inp.now e) = false ∧ e' = skipSlot (unloadStep inp.now e)) ∨
    (shouldSend r inp (unloadStep inp.now e) = true ∧
      ∃ d g p, d = decided T r inp e.pkt.outputLen (unloadStep inp.now e) ∧ ReplayMode d.g ∧
        ((packetWritePoll c inp.poll d.g d.pkt = .returned (g, p) ∧
            slot c T r inp e = .returned e' ∧ AfterPoll d g p e') ∨
         (packetWritePoll c inp.poll d.g d.pkt = .looping (g, p) ∧
            slot c T r inp e = .looping e' ∧ e' = { d with g := g, pkt := p }))) := by
  rcases Outcome.seen_eq_some.mp h with hret | hloop
  · rcases slot_eq_returned hret with ⟨hsend, rfl⟩ | ⟨hsend, e1, g, p, incoming, hdec, hpoll, rfl⟩
    · exact Or.inl ⟨hsend, rfl⟩
    · obtain ⟨he1, hmode1⟩ := decideSlot_replaying he (hplan hsend) hdec
      have hframe := writeFrame_packetWritePoll c inp.poll e1.g e1.pkt
      rw [hpoll] at hframe
      refine Or.inr ⟨hsend, e1, g, p, he1, hmode1, Or.inl ⟨hpoll, hret, ?_⟩⟩
      refine afterPoll_accountSent r inp _ _ incoming e1 p ?_
      rw [hframe.stmode, hmode1.stmode]
      decide
  · obtain ⟨hsend, e1, g, p, hdec, hpoll, rfl⟩ := slot_eq_looping hloop
    obtain ⟨he1, hmode1⟩ := decideSlot_replaying he (hplan hsend) hdec
    exact Or.inr ⟨hsend, e1, g, p, he1, hmode1, Or.inr ⟨hpoll, hloop, rfl⟩⟩

/-- A slot that sends and does not queue `TEND` has an entry or a budget. -/
theorem budget_of_slot {T : Tables} {e' : Endpoint σ β} (he : ReplayMode e.g)
    (h : (slot c T r inp e).seen = some e') (hsent : e'.g.sentTend = false)
    (hsend : shouldSend r inp (unloadStep inp.now e) = true) :
    (planItem T r inp (unloadStep inp.now e)).1 = none → e.g.w2w ≠ 0 := by
  obtain ⟨hmode0, -, hw0, -⟩ := unloadStep_replaying inp.now he
  rw [← hw0]
  rcases Outcome.seen_eq_some.mp h with hret | hloop
  · rcases slot_eq_returned hret with ⟨hskip, -⟩ | ⟨-, e1, g, p, incoming, hdec, hpoll, rfl⟩
    · rw [hsend] at hskip
      cases hskip
    · have hframe := writeFrame_packetWritePoll c inp.poll e1.g e1.pkt
      rw [hpoll] at hframe
      have hctl := congrArg Ctl.sentTend (ctl_accountSent r inp
        (unloadStep inp.now e).pkt.outputLen incoming e1.pkt.outputLen { e1 with g := g, pkt := p })
      exact budget_of_decideSlot hmode0 hdec
        (hframe.sentTend.symm.trans (hctl.symm.trans hsent))
  · obtain ⟨-, e1, g, p, hdec, hpoll, rfl⟩ := slot_eq_looping hloop
    have hframe := writeFrame_packetWritePoll c inp.poll e1.g e1.pkt
    rw [hpoll] at hframe
    exact budget_of_decideSlot hmode0 hdec (hframe.sentTend.symm.trans hsent)

end CSBuFLO
