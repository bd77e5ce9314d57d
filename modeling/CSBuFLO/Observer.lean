/-
# What an observer sees of the replay

`Endpoint.low` keeps of an endpoint what an observer may know: modes, flags, the cursor, the
counters of received bytes and the clock settings, but neither buffered data nor the budget.
The decisions of a slot commute with it (`low_decided`): which entry comes next, whether it
has to wait and when the next slot is do not depend on the data.  The bytes it grants do, but
only for the first entry of a page, which may grow to all that is queued.

`Polled.handed` and `Polled.returned` say what one slot shows to the outside.
-/
import CSBuFLO.Reach

namespace CSBuFLO

variable {σ β : Type}

/-! ## What an observer may know -/

/-- The globals without the budget, the junk counter and the marks of csbuflo mode. -/
def Globals.low (g : Globals) : Globals :=
  { g with paddedJunk := 0, tsEnd := 0, tsStart := 0, tstartSet := false, tendSet := false,
           w2w := 0 }

/-- The endpoint without its data, as an endpoint that has none. -/
def Endpoint.low (e : Endpoint σ β) : Endpoint Unit Unit where
  g := e.g.low
  pkt := { snd := (), packetTau := e.pkt.packetTau, packetTimeToWrite := e.pkt.packetTimeToWrite }
  loop :=
    { timeToWrite := e.loop.timeToWrite
      deadlockStart := e.loop.deadlockStart
      waitingForAPacket := e.loop.waitingForAPacket
      item := e.loop.item }

variable {e : Endpoint σ β}

theorem low_unloadStep (now : ℕ) (h : e.g.stmode ≠ .csbuflo) :
    (unloadStep now e).low = (unloadStep now e.low).low := by
  rw [unloadStep_of_ne now h, unloadStep_of_ne now (show e.low.g.stmode ≠ .csbuflo from h)]
  show (if e.g.unloadFlag then _ else e).low = (if e.g.unloadFlag then _ else e.low).low
  split <;> rfl

theorem low_shouldSend (r : Role) (inp : SlotInput) (e : Endpoint σ β) :
    shouldSend r inp e.low = shouldSend r inp e := rfl

theorem low_moveToNextStItem (straces : ℤ → List StPair) (b : Bool) (g : Globals) :
    moveToNextStItem straces b g.low = (moveToNextStItem straces b g).low := by
  have hid : g.low.clusterId = g.clusterId := rfl
  have hidx : g.low.stIndex = g.stIndex := rfl
  unfold moveToNextStItem
  dsimp only
  rw [hid, hidx]
  by_cases hneg : g.clusterId < 0
  · rw [if_pos hneg, if_pos hneg]
  · rw [if_neg hneg, if_neg hneg]
    by_cases hend : g.stIndex < 0 ∨ g.stIndex ≥ (straces g.clusterId).length
    · rw [if_pos hend, if_pos hend]
      rfl
    · rw [if_neg hend, if_neg hend]
      cases firstOwn b g.stIndex.toNat ((straces g.clusterId).drop g.stIndex.toNat) with
      | none => rfl
      | some t => rfl

theorem low_shouldJumpTransEnd (rand : ℕ) (g : Globals) :
    shouldJumpTransEnd rand g.low =
      ((shouldJumpTransEnd rand g).1, (shouldJumpTransEnd rand g).2.low) := by
  have hid : g.low.clusterId = g.clusterId := rfl
  have hcur : g.low.curItem = g.curItem := rfl
  have hend : g.low.transcriptEnd = g.transcriptEnd := rfl
  unfold shouldJumpTransEnd
  rw [hid, hcur, hend]
  by_cases hneg : g.clusterId < 0
  · rw [if_pos hneg, if_pos hneg]
  · rw [if_neg hneg, if_neg hneg]
    cases g.curItem with
    | none => rfl
    | some item =>
      dsimp only
      by_cases hpeer : g.transcriptEnd = true
      · rw [if_pos hpeer, if_pos hpeer]
      · rw [if_neg hpeer, if_neg hpeer]
        by_cases hdraw : rand % 100 < item.sprob
        · rw [if_pos hdraw, if_pos hdraw]
          rfl
        · rw [if_neg hdraw, if_neg hdraw]

theorem low_advanceCursor (T : Tables) (r : Role) (e : Endpoint σ β) :
    advanceCursor T r e.low = (advanceCursor T r e).low := by
  have hwait : e.low.loop.waitingForAPacket = e.loop.waitingForAPacket := rfl
  have hmove : moveToNextStItem T.straces r.isPos e.low.g = _ :=
    low_moveToNextStItem T.straces r.isPos e.g
  unfold advanceCursor
  dsimp only
  rw [hwait]
  by_cases hw : e.loop.waitingForAPacket = true
  · rw [if_pos hw, if_pos hw]
    rfl
  · rw [if_neg hw, if_neg hw, hmove]
    rfl

/-- Which entry comes next is known to the observer. -/
theorem low_planItem (T : Tables) (r : Role) (inp : SlotInput) (e : Endpoint σ β) :
    planItem T r inp e.low = ((planItem T r inp e).1, (planItem T r inp e).2.low) := by
  unfold planItem
  rw [low_advanceCursor]
  generalize advanceCursor T r e = e1
  have hcur : e1.low.g.curItem = e1.g.curItem := rfl
  have hload : e1.low.g.onloadFlag = e1.g.onloadFlag := rfl
  have hjump : shouldJumpTransEnd inp.rand e1.low.g = _ := low_shouldJumpTransEnd inp.rand e1.g
  dsimp only
  rw [hcur, hload, hjump]
  cases e1.g.curItem with
  | none => rfl
  | some item =>
    dsimp only
    by_cases hl : e1.g.onloadFlag = false
    · rw [if_pos hl, if_pos hl]
    · rw [if_neg hl, if_neg hl]
      rfl

/-! ### Scheduling -/

theorem low_admitItem (r : Role) (item : StPair) (g : Globals) :
    (admitItem r 0 item g.low).2 =
      ((admitItem r 0 item g).2.1, (admitItem r 0 item g).2.2.low) := by
  have hfirst : g.low.firstClient = g.firstClient := rfl
  have hsecond : g.low.secondClient = g.secondClient := rfl
  have hack : g.low.urlack = g.urlack := rfl
  unfold admitItem
  rw [hfirst]
  by_cases hf : g.firstClient = true
  · rw [if_pos hf, if_pos hf]
    cases r <;> rfl
  · rw [if_neg hf, if_neg hf]
    cases r with
    | server => rfl
    | client =>
      dsimp only
      rw [hsecond, hack]
      by_cases hs : g.secondClient = true
      · rw [if_pos hs, if_pos hs]
        by_cases ha : g.urlack = true
        · rw [if_pos ha, if_pos ha]
          rfl
        · rw [if_neg ha, if_neg ha]
      · rw [if_neg hs, if_neg hs]

theorem low_itemVerdict (r : Role) (inp : SlotInput) (item : StPair) (e : Endpoint σ β) :
    itemVerdict r inp item e.low = itemVerdict r inp item e := by
  unfold itemVerdict
  rw [show e.low.g = e.g.low from rfl, low_admitItem]
  rfl

theorem low_treatItem (r : Role) (inp : SlotInput) (item : StPair) (e : Endpoint σ β) :
    treatItem r inp item e.low = (treatItem r inp item e).low := by
  unfold treatItem
  rw [low_itemVerdict, show e.low.g = e.g.low from rfl, low_admitItem]
  cases itemVerdict r inp item e with
  | wait => rfl
  | breaker => cases r <;> rfl
  | go => rfl

/-- Whatever is queued, the observer knows all of a scheduled entry but its size. -/
theorem low_scheduleItem (r : Role) (inp : SlotInput) (n : ℕ) (item : StPair) (e : Endpoint σ β) :
    (scheduleItem r inp n item e).low = (scheduleItem r inp 0 item e.low).low := by
  rw [scheduleItem_eq, scheduleItem_eq]
  unfold waitStart
  rw [low_itemVerdict, low_treatItem]
  rfl

theorem low_decided (T : Tables) (r : Role) (inp : SlotInput) (n : ℕ) (e : Endpoint σ β) :
    (decided T r inp n e).low = (decided T r inp 0 e.low).low := by
  unfold decided
  rw [low_planItem]
  dsimp only
  cases (planItem T r inp e).1 with
  | none => rfl
  | some item => exact low_scheduleItem r inp n item (planItem T r inp e).2

/-! ## The budget of a slot -/

/-- The bytes a slot of the replay grants. -/
def slotGrant (T : Tables) (r : Role) (inp : SlotInput) (e : Endpoint σ β) : ℤ :=
  match (planItem T r inp e).1 with
  | none => 0
  | some item => itemGrant r inp e.pkt.outputLen item (planItem T r inp e).2

/-- Deciding sets the next period and leaves the rest of the sending side alone. -/
theorem pkt_decided (T : Tables) (r : Role) (inp : SlotInput) (n : ℕ) (e : Endpoint σ β) :
    ∃ tau, (decided T r inp n e).pkt = e.pkt.setPacketTau tau := by
  have hplan : (planItem T r inp e).2.pkt = e.pkt := by rw [planItem_eq]
  unfold decided
  dsimp only
  cases (planItem T r inp e).1 with
  | none =>
    refine ⟨10 * initialTau, ?_⟩
    rw [← hplan]
    rfl
  | some item =>
    dsimp only
    rw [scheduleItem_eq, ← hplan]
    exact ⟨_, rfl⟩

theorem slotGrant_nonneg (T : Tables) {r : Role} (inp : SlotInput) (he : Reached r e)
    (hmode : e.g.stmode = .supertrace) : 0 ≤ slotGrant T r inp e := by
  obtain ⟨hown, hcase⟩ := planItem_cases T inp he.own he.waiting (he.cluster hmode)
  unfold slotGrant
  rcases hcase with ⟨item, hitem, hcur⟩ | ⟨hnone, -⟩
  · rw [hitem]
    exact itemGrant_nonneg inp _ _ (hown item hcur)
  · rw [hnone]

theorem firstClient_treatItem (r : Role) (inp : SlotInput) (item : StPair) (e : Endpoint σ β) :
    (treatItem r inp item e).firstClient = false := by
  have hadmit := firstClient_admitItem r 0 item e.g
  unfold treatItem
  cases itemVerdict r inp item e with
  | wait => exact hadmit
  | breaker => cases r <;> exact hadmit
  | go => exact hadmit

/-- **A slot adds its grant to the budget.** -/
theorem w2w_decided (T : Tables) {r : Role} (inp : SlotInput) (he : Reached r e)
    (hmode : e.g.stmode = .supertrace) :
    (decided T r inp e.pkt.outputLen e).g.w2w = e.g.w2w + slotGrant T r inp e := by
  have hgrant := slotGrant_nonneg T inp he hmode
  have hw := he.nonneg
  unfold decided
  unfold slotGrant at hgrant ⊢
  dsimp only
  cases hitem : (planItem T r inp e).1 with
  | none =>
    rw [add_zero]
    exact w2w_planItem T r inp e
  | some item =>
    simp only [hitem] at hgrant
    dsimp only
    rw [scheduleItem_eq]
    show (if _ < 0 then 0 else _) = _
    rw [w2w_planItem, if_neg (by omega)]

/-- The first entry of a page is never scheduled twice. -/
theorem firstClient_decided (T : Tables) (r : Role) (inp : SlotInput) (n : ℕ)
    (h : e.g.firstClient = false) : (decided T r inp n e).g.firstClient = false := by
  have hplan : (planItem T r inp e).2.g.firstClient = false := by
    rw [planItem_eq]
    exact h
  unfold decided
  dsimp only
  cases (planItem T r inp e).1 with
  | none => exact hplan
  | some item =>
    dsimp only
    rw [scheduleItem_eq]
    exact firstClient_treatItem r inp item _

/-- The grants of two low-equal endpoints are both zero or both positive; without the growth
of the first entry they are equal. -/
theorem slotGrant_pair (T : Tables) {r : Role} (inp : SlotInput) {e1 e2 : Endpoint σ β}
    (hlow : e1.low = e2.low) (he : Reached r e1) (hmode : e1.g.stmode = .supertrace) :
    (slotGrant T r inp e1 = 0 ↔ slotGrant T r inp e2 = 0) ∧
      (e1.g.firstClient = false → slotGrant T r inp e1 = slotGrant T r inp e2) := by
  obtain ⟨hown, hcase⟩ := planItem_cases T inp he.own he.waiting (he.cluster hmode)
  have hplan := (low_planItem T r inp e1).symm.trans
    ((congrArg (planItem T r inp) hlow).trans (low_planItem T r inp e2))
  obtain ⟨hsame, hlow'⟩ := Prod.mk.inj hplan
  have hfirst : (planItem T r inp e1).2.g.firstClient = e1.g.firstClient := by rw [planItem_eq]
  unfold slotGrant
  rcases hcase with ⟨item, hitem, hcur⟩ | ⟨hnone, -⟩
  · rw [← hsame, hitem]
    have hpos := itemSize_pos (hown item hcur)
    have hverdict : itemVerdict r inp item (planItem T r inp e1).2 =
        itemVerdict r inp item (planItem T r inp e2).2 := by
      rw [← low_itemVerdict, hlow', low_itemVerdict]
    have hfirst2 : (planItem T r inp e2).2.g.firstClient = (planItem T r inp e1).2.g.firstClient :=
      (congrArg (fun e => e.g.firstClient) hlow').symm
    dsimp only
    unfold itemGrant
    rw [hverdict, admitItem_size, admitItem_size, hfirst2, hfirst]
    constructor
    · split_ifs <;> omega
    · intro hf
      rw [hf]
      rfl
  · rw [← hsame, hnone]
    exact ⟨Iff.rfl, fun _ => rfl⟩

/-! ## What one slot shows -/

/-- A slot that decides `d` and polls, leaving `e'`. -/
structure Polled (c : Codec σ β) (T : Tables) (r : Role) (inp : SlotInput)
    (e d e' : Endpoint σ β) : Prop where
  d_eq : d = decided T r inp e.pkt.outputLen (unloadStep inp.now e)
  mode : ReplayMode d.g
  budget : d.g.w2w = e.g.w2w + slotGrant T r inp (unloadStep inp.now e)
  nonneg : 0 ≤ d.g.w2w
  pkt : ∃ tau, d.pkt = e.pkt.setPacketTau tau
  poll : ∃ g p, (packetWritePoll c inp.poll d.g d.pkt = .returned (g, p) ∧
      slot c T r inp e = .returned e' ∧ AfterPoll d g p e') ∨
    (packetWritePoll c inp.poll d.g d.pkt = .looping (g, p) ∧
      slot c T r inp e = .looping e' ∧ e' = { d with g := g, pkt := p })

/-- A slot of the replay does nothing or polls. -/
theorem polled_of_slot {c : Codec σ β} {T : Tables} {r : Role} {inp : SlotInput} {e' : Endpoint σ β}
    (hr : Reached r e) (he : ReplayMode e.g) (h : (slot c T r inp e).seen = some e')
    (hplan : shouldSend r inp (unloadStep inp.now e) = true →
      (planItem T r inp (unloadStep inp.now e)).1 = none → e.g.w2w ≠ 0) :
    (shouldSend r inp (unloadStep inp.now e) = false ∧ e' = skipSlot (unloadStep inp.now e)) ∨
    (shouldSend r inp (unloadStep inp.now e) = true ∧ ∃ d, Polled c T r inp e d e') := by
  rcases slot_replaying he h hplan with hskip | ⟨hsend, d, g, p, hd, hmode, hpoll⟩
  · exact Or.inl hskip
  · obtain ⟨hmode0, -, hw0, hpkt0⟩ := unloadStep_replaying inp.now he
    have hr0 := reached_unloadStep inp.now hr
    have hbudget : d.g.w2w = e.g.w2w + slotGrant T r inp (unloadStep inp.now e) := by
      have := w2w_decided T inp hr0 hmode0
      rw [hpkt0, hw0] at this
      rw [hd]
      exact this
    refine Or.inr ⟨hsend, d, hd, hmode, hbudget, ?_, ?_, g, p, hpoll⟩
    · have := slotGrant_nonneg T inp hr0 hmode0
      have := hr.nonneg
      omega
    · obtain ⟨tau, htau⟩ := pkt_decided T r inp e.pkt.outputLen (unloadStep inp.now e)
      rw [hpkt0] at htau
      exact ⟨tau, by rw [hd]; exact htau⟩

/-- What the observer knows after a poll. -/
def lowAfter (inp : PollInput) (l : Endpoint Unit Unit) : Endpoint Unit Unit :=
  let t := if inp.now < l.pkt.packetTimeToWrite then l.pkt.packetTimeToWrite
    else addTime inp.now l.pkt.packetTau
  { l with
    pkt := { l.pkt with packetTimeToWrite := t }
    loop := { l.loop with timeToWrite := t } }

/-- **Lengths.**  A poll that is not early hands over what its budget says, whether it has
returned or not. -/
theorem Polled.handed {c : Codec σ β} {T : Tables} {r : Role} {inp : SlotInput}
    {d e' : Endpoint σ β} (h : Polled c T r inp e d e') :
    e'.pkt.handed = e.pkt.handed ++ (if inp.poll.now < d.pkt.packetTimeToWrite then []
      else writeSizes inp.poll.kernel d.g.w2w) := by
  obtain ⟨tau, htau⟩ := h.pkt
  have hhanded : d.pkt.handed = e.pkt.handed := by rw [htau]; rfl
  obtain ⟨g, p, hpoll⟩ := h.poll
  have hp : e'.pkt = p := by
    rcases hpoll with ⟨-, -, hafter⟩ | ⟨-, -, rfl⟩
    · exact hafter.pkt_eq
    · rfl
  have hseen : (packetWritePoll c inp.poll d.g d.pkt).seen = some (g, p) := by
    rcases hpoll with ⟨hret, -⟩ | ⟨hloop, -⟩
    · rw [hret]; rfl
    · rw [hloop]; rfl
  rw [hp, ← hhanded]
  rcases packetWritePoll_replaying h.mode h.nonneg hseen with ⟨hearly, -, rfl⟩ | ⟨hgate, -, hh, -⟩
  · rw [if_pos hearly, List.append_nil]
  · rw [if_neg (by omega)]
    exact hh

/-- **Times and budget.**  A poll that returns keeps the budget if it was early; otherwise
exactly the budget was accepted, and the next time is set from what the observer knows. -/
theorem Polled.returned {c : Codec σ β} {T : Tables} {r : Role} {inp : SlotInput}
    {d e' : Endpoint σ β} (h : Polled c T r inp e d e') (hret : slot c T r inp e = .returned e') :
    e'.low = lowAfter inp.poll d.low ∧
    e'.g.firstClient = d.g.firstClient ∧
    ((inp.poll.now < e.pkt.packetTimeToWrite ∧ e'.g.w2w = d.g.w2w ∧
        e'.pkt.updates = e.pkt.updates ∧ e'.pkt.wire = e.pkt.wire) ∨
     (e.pkt.packetTimeToWrite ≤ inp.poll.now ∧ e'.g.w2w = 0 ∧
        e'.pkt.updates = e.pkt.updates ++ [addTime inp.poll.now d.pkt.packetTau] ∧
        e'.pkt.wire.length = e.pkt.wire.length + d.g.w2w.toNat)) := by
  obtain ⟨tau, htau⟩ := h.pkt
  have htime : d.pkt.packetTimeToWrite = e.pkt.packetTimeToWrite := by rw [htau]; rfl
  have hupdates : d.pkt.updates = e.pkt.updates := by rw [htau]; rfl
  have hwire : d.pkt.wire = e.pkt.wire := by rw [htau]; rfl
  obtain ⟨g, p, ⟨hpoll, -, hafter⟩ | ⟨-, hloop, -⟩⟩ := h.poll
  · have hseen : (packetWritePoll c inp.poll d.g d.pkt).seen = some (g, p) := by rw [hpoll]; rfl
    have hlow : e'.low =
        { g := g.low
          pkt := { snd := (), packetTau := p.packetTau, packetTimeToWrite := p.packetTimeToWrite }
          loop := { d.low.loop with timeToWrite := p.packetTimeToWrite } } := by
      unfold Endpoint.low
      rw [hafter.g_eq, hafter.pkt_eq, hafter.time_eq, hafter.deadlock_eq, hafter.waiting_eq,
        hafter.item_eq]
    rw [hlow, hafter.g_eq, hafter.pkt_eq, ← htime, ← hupdates, ← hwire]
    unfold lowAfter
    dsimp only
    rcases packetWritePoll_replaying h.mode h.nonneg hseen with
      ⟨hearly, rfl, rfl⟩ | ⟨hgate, htau', -, ⟨-, hg, ht, hu, hw⟩ | ⟨hloop, -⟩⟩
    · rw [if_pos (show inp.poll.now < d.low.pkt.packetTimeToWrite from hearly)]
      exact ⟨rfl, rfl, Or.inl ⟨hearly, rfl, rfl, rfl⟩⟩
    · rw [if_neg (show ¬inp.poll.now < d.low.pkt.packetTimeToWrite from by
        exact not_lt.mpr hgate), ht, htau']
      refine ⟨?_, by rw [hg], Or.inr ⟨hgate, by rw [hg], hu, hw⟩⟩
      rw [hg]
      rfl
    · rw [hpoll] at hloop
      cases hloop
  · rw [hret] at hloop
    cases hloop

end CSBuFLO
