/-
# The entries an endpoint has replayed

The cursor of an endpoint is spread over `cluster_id`, `st_index`, `cur_item` and the flag
`waiting_for_a_packet` of its loop.  `behind` reads it as the list of own entries of the
page that the endpoint is done with, and `slotPlan` says which entry a slot treats next:
its place in the page, the bytes granted to it and whether it had to wait.

`CursorInv` ties the parts of the cursor together.  It survives everything but the start
of a page while an entry is waiting, which `startsPage` singles out.
-/
import CSBuFLO.Reach

namespace CSBuFLO

variable {σ β : Type}

/-! ## Entries up to the cursor -/

/-- The own entries of a page. -/
def ownItems (T : Tables) (r : Role) (id : ℤ) : List StPair :=
  (T.straces id).filter (ownItem r.isPos)

/-- The own entries up to the cursor: all of them once it is past the end. -/
def Globals.upto (T : Tables) (r : Role) (g : Globals) : List StPair :=
  if g.stIndex < 0 then ownItems T r g.clusterId
  else ((T.straces g.clusterId).take g.stIndex.toNat).filter (ownItem r.isPos)

/-- The own entries an endpoint is done with: those up to the cursor, without the one it is
still waiting with. -/
def Endpoint.behind (T : Tables) (r : Role) (e : Endpoint σ β) : List StPair :=
  if e.loop.waitingForAPacket then (e.g.upto T r).dropLast else e.g.upto T r

/-- The entries up to the cursor are the first ones of the own direction. -/
theorem upto_isPrefix (T : Tables) (r : Role) (g : Globals) :
    g.upto T r <+: ownItems T r g.clusterId := by
  unfold Globals.upto ownItems
  split
  · exact List.prefix_refl _
  · exact (List.take_prefix _ _).filter _

/-- So are the entries behind the cursor. -/
theorem behind_prefix (T : Tables) (r : Role) (e : Endpoint σ β) :
    e.behind T r <+: ownItems T r e.g.clusterId := by
  unfold Endpoint.behind
  split
  · exact (List.dropLast_prefix _).trans (upto_isPrefix T r e.g)
  · exact upto_isPrefix T r e.g

/-- Only the first own entry of the list is passed on the way to it. -/
theorem filter_take_of_firstOwn {b : Bool} {i j : ℕ} {l : List StPair} {x : StPair}
    (h : firstOwn b i l = some (j, x)) :
    ∃ k, j = i + k ∧ (l.take (k + 1)).filter (ownItem b) = [x] := by
  induction l generalizing i with
  | nil => cases h
  | cons y l ih =>
    unfold firstOwn at h
    split at h
    · rename_i hown
      cases h
      exact ⟨0, rfl, by simp [hown]⟩
    · rename_i hown
      obtain ⟨k, rfl, hk⟩ := ih h
      refine ⟨k + 1, by omega, ?_⟩
      rw [List.take_succ_cons, List.filter_cons, if_neg hown]
      exact hk

/-- A search that finds nothing has seen no entry of its direction. -/
theorem filter_of_firstOwn_eq_none {b : Bool} {i : ℕ} {l : List StPair}
    (h : firstOwn b i l = none) : l.filter (ownItem b) = [] := by
  induction l generalizing i with
  | nil => rfl
  | cons y l ih =>
    unfold firstOwn at h
    split at h
    · cases h
    · rename_i hown
      rw [List.filter_cons, if_neg hown]
      exact ih h

/-- **Moving the cursor** passes one more own entry, or all that are left. -/
theorem upto_moveToNextStItem (T : Tables) (r : Role) {g : Globals} (h : 0 < g.clusterId) :
    (∀ x, (moveToNextStItem T.straces r.isPos g).curItem = some x →
      (moveToNextStItem T.straces r.isPos g).upto T r = g.upto T r ++ [x]) ∧
    ((moveToNextStItem T.straces r.isPos g).curItem = none →
      (moveToNextStItem T.straces r.isPos g).upto T r = ownItems T r g.clusterId ∧
        g.upto T r = ownItems T r g.clusterId) := by
  have hsplit : ∀ n, (T.straces g.clusterId).filter (ownItem r.isPos) =
      ((T.straces g.clusterId).take n).filter (ownItem r.isPos) ++
        ((T.straces g.clusterId).drop n).filter (ownItem r.isPos) := by
    intro n
    rw [← List.filter_append, List.take_append_drop]
  unfold moveToNextStItem
  rw [if_neg (by omega)]
  dsimp only
  split
  · rename_i hout
    refine ⟨fun x hx => (nomatch hx), fun _ => ⟨rfl, ?_⟩⟩
    unfold Globals.upto
    split
    · rfl
    · rw [List.take_of_length_le (by omega)]
      rfl
  · rename_i hin
    have hpos : ¬g.stIndex < 0 := by omega
    split
    · rename_i i y hfirst
      refine ⟨fun x hx => ?_, fun hx => (nomatch hx)⟩
      obtain rfl := Option.some.inj hx
      obtain ⟨k, rfl, hk⟩ := filter_take_of_firstOwn hfirst
      unfold Globals.upto
      dsimp only
      rw [if_neg (by omega), if_neg hpos,
        show ((g.stIndex.toNat + k : ℕ) + 1 : ℤ).toNat = g.stIndex.toNat + (k + 1) by omega,
        List.take_add, List.filter_append, hk]
    · rename_i hnone
      refine ⟨fun x hx => (nomatch hx), fun _ => ⟨rfl, ?_⟩⟩
      unfold Globals.upto ownItems
      rw [if_neg hpos, hsplit g.stIndex.toNat, filter_of_firstOwn_eq_none hnone, List.append_nil]

/-- A waiting entry is the last one up to the cursor. -/
def AtCursor (T : Tables) (r : Role) (e : Endpoint σ β) : Prop :=
  e.loop.waitingForAPacket = true → ∃ x, e.g.curItem = some x ∧ e.g.upto T r = e.behind T r ++ [x]

variable {e e' : Endpoint σ β} {r : Role} {T : Tables} {inp : SlotInput} {c : Codec σ β}
  {ev : EndpointEvent}

/-- **What a slot plans comes directly after what is behind.** -/
theorem upto_planItem (T : Tables) (inp : SlotInput) (hat : AtCursor T r e)
    (hcluster : 0 < e.g.clusterId) :
    (∀ x, (planItem T r inp e).1 = some x →
      (planItem T r inp e).2.g.curItem = some x ∧
        (planItem T r inp e).2.g.upto T r = e.behind T r ++ [x]) ∧
    ((planItem T r inp e).1 = none →
      e.behind T r <+: (planItem T r inp e).2.g.upto T r) := by
  -- the cursor after it was moved, if it was
  have hadv : (∀ x, (advanceCursor T r e).g.curItem = some x →
        (advanceCursor T r e).g.upto T r = e.behind T r ++ [x]) ∧
      ((advanceCursor T r e).g.curItem = none →
        (advanceCursor T r e).g.upto T r = ownItems T r e.g.clusterId) := by
    unfold advanceCursor
    dsimp only
    split
    · rename_i hw
      obtain ⟨y, hy, hupto⟩ := hat hw
      refine ⟨fun x hx => ?_, fun hx => ?_⟩
      · rw [hupto]
        obtain rfl := Option.some.inj (hy.symm.trans hx)
        rfl
      · rw [hy] at hx
        cases hx
    · rename_i hw
      have hmove := upto_moveToNextStItem T r hcluster
      have hbehind : e.behind T r = e.g.upto T r := by
        unfold Endpoint.behind
        rw [if_neg hw]
      rw [hbehind]
      exact ⟨hmove.1, fun hx => (hmove.2 hx).1⟩
  have hid : (advanceCursor T r e).g.clusterId = e.g.clusterId := by
    unfold advanceCursor
    dsimp only
    split
    · rfl
    · rw [moveToNextStItem_eq]
  have hbehind := behind_prefix T r e
  unfold planItem
  dsimp only
  generalize advanceCursor T r e = e1 at hadv hid ⊢
  cases hcur : e1.g.curItem with
  | none =>
    refine ⟨fun x hx => (nomatch hx), fun _ => ?_⟩
    rw [hadv.2 hcur]
    exact hbehind
  | some y =>
    have hupto := hadv.1 y hcur
    have hprefix : e.behind T r <+: e1.g.upto T r := ⟨[y], hupto.symm⟩
    dsimp only
    split
    · refine ⟨fun x hx => ?_, fun hx => (nomatch hx)⟩
      obtain rfl := Option.some.inj hx
      exact ⟨hcur, hupto⟩
    · dsimp only
      unfold shouldJumpTransEnd
      rw [if_neg (by omega : ¬e1.g.clusterId < 0)]
      simp only [hcur]
      split
      · exact ⟨fun x hx => (nomatch hx), fun _ => hprefix⟩
      · split
        · refine ⟨fun x hx => (nomatch hx), fun _ => ?_⟩
          unfold Globals.upto
          dsimp only
          rw [if_pos (by omega), hid]
          exact hbehind
        · refine ⟨fun x hx => ?_, fun hx => (nomatch hx)⟩
          obtain rfl := Option.some.inj hx
          exact ⟨hcur, hupto⟩

/-! ## What a slot plans -/

/-- An entry a slot treats: its number among the own entries of the page, counted from 1, the
bytes it schedules, 0 while the entry has to wait, and the outcome of the wait test. -/
structure Planned where
  item : StPair
  number : ℕ
  size : ℤ
  verdict : Verdict
  deriving DecidableEq

/-- What a slot does with the transcript. -/
inductive Plan where
  /-- Nothing: the slot does not send, or the mode is another one. -/
  | nothing
  /-- The end of the transcript. -/
  | ends
  /-- It treats an entry. -/
  | entry (x : Planned)
  deriving DecidableEq

/-- The plan of a slot. -/
def slotPlan (T : Tables) (r : Role) (inp : SlotInput) (e : Endpoint σ β) : Plan :=
  let e := unloadStep inp.now e
  if e.g.stmode = .supertrace ∧ shouldSend r inp e = true then
    match (planItem T r inp e).1 with
    | none => .ends
    | some item =>
      .entry
        { item := item
          number := (e.behind T r).length + 1
          size := itemGrant r inp e.pkt.outputLen item (planItem T r inp e).2
          verdict := itemVerdict r inp item (planItem T r inp e).2 }
  else .nothing

/-- What an entry grants, expects and changes only depends on three flags. -/
theorem admitItem_congr (r : Role) (n : ℕ) (item : StPair) (g g' : Globals)
    (hfirst : g'.firstClient = g.firstClient) (hsecond : g'.secondClient = g.secondClient)
    (hack : g'.urlack = g.urlack) :
    (admitItem r n item g').1 = (admitItem r n item g).1 ∧
      (admitItem r n item g').2.1 = (admitItem r n item g).2.1 ∧
      (admitItem r n item g').2.2.firstClient = (admitItem r n item g).2.2.firstClient ∧
      (admitItem r n item g').2.2.secondClient = (admitItem r n item g).2.2.secondClient ∧
      (admitItem r n item g').2.2.urlack = (admitItem r n item g).2.2.urlack := by
  unfold admitItem
  rw [hfirst, hsecond, hack]
  cases hf : g.firstClient with
  | true => cases r <;> simp
  | false =>
    cases r with
    | server => simp [hfirst, hsecond, hack, hf]
    | client =>
      cases hs : g.secondClient with
      | false => simp [hfirst, hsecond, hack, hf, hs]
      | true =>
        cases hu : g.urlack with
        | true => simp
        | false => simp [hfirst, hsecond, hack, hf, hs, hu]

/-- What a slot does that treats the entry `x`. -/
structure ItemSlot (T : Tables) (r : Role) (inp : SlotInput) (e e' : Endpoint σ β) (x : Planned) :
    Prop where
  mode : e.g.stmode = .supertrace
  mode' : e'.g.stmode = .supertrace
  sentTend : e'.g.sentTend = e.g.sentTend
  cluster : e'.g.clusterId = e.g.clusterId
  unfinished : e.loop.waitingForAPacket = false → ¬e.g.script.Finished
  own : ownItem r.isPos x.item = true
  number : x.number = (e.behind T r).length + 1
  cursor : e'.g.curItem = some x.item
  same : e.loop.waitingForAPacket = true → e.g.curItem = some x.item
  upto : AtCursor T r e → e'.g.upto T r = e.behind T r ++ [x.item]
  waiting : e'.loop.waitingForAPacket = decide (x.verdict = .wait)
  verdict : x.verdict = waitVerdict (admitItem r 0 x.item e.g).2.1 e.g.receivedSofar
    e.loop.deadlockStart inp.deadlockNow
  size : x.size = if x.verdict = .wait then 0 else (admitItem r e.pkt.outputLen x.item e.g).1
  w2w : e'.g.w2w = e.g.w2w + x.size ∨ e'.g.w2w = 0
  firstClient : e'.g.firstClient = false
  secondClient : e'.g.secondClient = if r = .client ∧ x.verdict = .breaker then false
    else (admitItem r 0 x.item e.g).2.2.secondClient
  urlack : e'.g.urlack = (admitItem r 0 x.item e.g).2.2.urlack
  received : e'.g.receivedSofar = if x.verdict = .go then
    e.g.receivedSofar - (admitItem r 0 x.item e.g).2.1 else e.g.receivedSofar
  deadlock : e'.loop.deadlockStart = if x.verdict = .wait then
    if e.loop.deadlockStart = 0 then inp.deadlockNow else e.loop.deadlockStart else 0

/-- What a slot does that ends the transcript. -/
structure EndSlot (T : Tables) (r : Role) (e e' : Endpoint σ β) : Prop where
  mode : e.g.stmode = .supertrace
  cluster : e'.g.clusterId = e.g.clusterId
  behind : AtCursor T r e → e.behind T r <+: e'.g.upto T r
  waiting : e'.loop.waitingForAPacket = false
  finished : e'.g.script.Finished
  stay : e'.g.stmode = .supertrace → e'.g.w2w = e.g.w2w ∨ e'.g.w2w = 0
  firstClient : e'.g.firstClient = e.g.firstClient
  secondClient : e'.g.secondClient = e.g.secondClient
  urlack : e'.g.urlack = e.g.urlack
  received : e'.g.receivedSofar = e.g.receivedSofar
  deadlock : e'.loop.deadlockStart = e.loop.deadlockStart

/-- What a slot does that leaves the transcript alone. -/
structure OtherSlot (e e' : Endpoint σ β) : Prop where
  same : SameScript e e'
  mode : e'.g.stmode = .supertrace ↔ e.g.stmode = .supertrace
  stay : e.g.stmode = .supertrace → e'.g.w2w = e.g.w2w ∧ e'.g.sentTend = e.g.sentTend

/-- What leaves the script alone leaves the entries behind the cursor alone. -/
theorem behind_of_sameScript (T : Tables) (r : Role) (h : SameScript e e') :
    e'.g.upto T r = e.g.upto T r ∧ e'.behind T r = e.behind T r := by
  have hid : e'.g.clusterId = e.g.clusterId := congrArg Script.clusterId h.script
  have hidx : e'.g.stIndex = e.g.stIndex := congrArg Script.stIndex h.script
  have hupto : e'.g.upto T r = e.g.upto T r := by
    unfold Globals.upto
    rw [hid, hidx]
  refine ⟨hupto, ?_⟩
  unfold Endpoint.behind
  rw [h.waiting, hupto]

theorem atCursor_of_sameScript (h : SameScript e e') (hat : AtCursor T r e) : AtCursor T r e' := by
  intro hw
  obtain ⟨x, hx, hupto⟩ := hat (h.waiting.symm.trans hw)
  obtain ⟨hsame, hbehind⟩ := behind_of_sameScript T r h
  exact ⟨x, (congrArg Script.curItem h.script).trans hx, by rw [hsame, hbehind]; exact hupto⟩

/-- A slot that is skipped leaves the script alone. -/
theorem skipSlot_sameScript (e : Endpoint σ β) :
    SameScript e (skipSlot e) ∧ (skipSlot e).g = e.g := by
  unfold skipSlot
  split <;> exact ⟨⟨rfl, rfl, rfl⟩, rfl⟩

/-- The script after an entry was treated. -/
theorem script_treatItem (r : Role) (inp : SlotInput) (item : StPair) (e : Endpoint σ β) :
    (treatItem r inp item e).script = { e.g.script with
      firstClient := false
      secondClient := if r = .client ∧ itemVerdict r inp item e = .breaker then false
        else (admitItem r 0 item e.g).2.2.secondClient
      urlack := (admitItem r 0 item e.g).2.2.urlack
      receivedSofar := if itemVerdict r inp item e = .go then
        e.g.receivedSofar - (admitItem r 0 item e.g).2.1 else e.g.receivedSofar } := by
  have hadmit : (admitItem r 0 item e.g).2.2.script = { e.g.script with
      firstClient := false
      secondClient := (admitItem r 0 item e.g).2.2.secondClient
      urlack := (admitItem r 0 item e.g).2.2.urlack } := by
    rw [← firstClient_admitItem r 0 item e.g]
    exact congrArg Globals.script (admitItem_eq r 0 item e.g)
  unfold treatItem
  dsimp only
  cases itemVerdict r inp item e with
  | wait =>
    simp only [reduceCtorEq, and_false, if_false]
    exact hadmit
  | breaker =>
    cases r with
    | client =>
      simp only [reduceCtorEq, and_self, if_true, if_false]
      exact congrArg (fun k : Script => { k with secondClient := false }) hadmit
    | server =>
      simp only [reduceCtorEq, false_and, if_false]
      exact hadmit
  | go =>
    simp only [reduceCtorEq, and_false, if_true, if_false]
    exact congrArg (fun k : Script => { k with
      receivedSofar := e.g.receivedSofar - (admitItem r 0 item e.g).2.1 }) hadmit

/-- An end that waits stays with its entry. -/
theorem curItem_of_waiting {item : StPair} (hw : e.loop.waitingForAPacket = true)
    (h : (planItem T r inp e).1 = some item) : e.g.curItem = some item := by
  have hadv : (advanceCursor T r e).g = e.g := by
    unfold advanceCursor
    exact if_pos hw
  unfold planItem at h
  dsimp only at h
  rw [hadv] at h
  cases hcur : e.g.curItem with
  | none =>
    rw [hcur] at h
    cases h
  | some y =>
    rw [hcur] at h
    dsimp only at h
    split_ifs at h <;> exact h

/-- A slot that treats an entry, from the state after the unload event. -/
theorem itemSlot_of_planItem {item : StPair} {g : Globals} {p : PacketState σ β} (he : Reached r e)
    (hmode : e.g.stmode = .supertrace) (hplan : (planItem T r inp e).1 = some item)
    (hpoll : packetWritePoll c inp.poll
      (scheduleItem r inp e.pkt.outputLen item (planItem T r inp e).2).g
      (scheduleItem r inp e.pkt.outputLen item (planItem T r inp e).2).pkt = .returned (g, p))
    (hafter : AfterPoll (scheduleItem r inp e.pkt.outputLen item (planItem T r inp e).2) g p e') :
    ItemSlot T r inp e e'
      { item := item
        number := (e.behind T r).length + 1
        size := itemGrant r inp e.pkt.outputLen item (planItem T r inp e).2
        verdict := itemVerdict r inp item (planItem T r inp e).2 } := by
  have hcluster := he.cluster hmode
  obtain ⟨hcur, hown⟩ := he.planned hmode hplan
  have hframe := writeFrame_packetWritePoll c inp.poll
    (scheduleItem r inp e.pkt.outputLen item (planItem T r inp e).2).g
    (scheduleItem r inp e.pkt.outputLen item (planItem T r inp e).2).pkt
  rw [hpoll] at hframe
  -- planning leaves the flags alone
  have hplanned := planItem_eq T r inp e
  have hreceived : (planItem T r inp e).2.g.receivedSofar = e.g.receivedSofar := by rw [hplanned]
  have hstart : (planItem T r inp e).2.loop.deadlockStart = e.loop.deadlockStart := by rw [hplanned]
  have hflags : ∀ n, _ := fun n => admitItem_congr r n item e.g (planItem T r inp e).2.g
    (by rw [hplanned]) (by rw [hplanned]) (by rw [hplanned])
  have hverdict : itemVerdict r inp item (planItem T r inp e).2 =
      waitVerdict (admitItem r 0 item e.g).2.1 e.g.receivedSofar e.loop.deadlockStart
        inp.deadlockNow := by
    unfold itemVerdict
    rw [(hflags 0).2.1, hplanned]
  have hgrant : itemGrant r inp e.pkt.outputLen item (planItem T r inp e).2 =
      if itemVerdict r inp item (planItem T r inp e).2 = .wait then 0
        else (admitItem r e.pkt.outputLen item e.g).1 := by
    unfold itemGrant
    rw [(hflags e.pkt.outputLen).1]
  have hnonneg := itemGrant_nonneg inp e.pkt.outputLen (planItem T r inp e).2 hown
  -- the script is what treating the entry leaves: the poll does not touch it
  have hscript := hframe.script
  have hmode1 := hframe.stmode.trans (stmode_scheduleItem r inp e.pkt.outputLen item _)
  have hsent1 := hframe.sentTend.trans (sentTend_scheduleItem r inp e.pkt.outputLen item _)
  rw [scheduleItem_eq] at hscript hframe hafter
  have hsched : e'.g.script = (treatItem r inp item (planItem T r inp e).2).script := by
    rw [hafter.g_eq]
    exact hscript
  rw [script_treatItem] at hsched
  have hid : e'.g.clusterId = (planItem T r inp e).2.g.clusterId := congrArg Script.clusterId hsched
  have hidx : e'.g.stIndex = (planItem T r inp e).2.g.stIndex := congrArg Script.stIndex hsched
  constructor
  case mode => exact hmode
  case mode' =>
    rw [hafter.g_eq]
    exact hmode1.trans ((stmode_planItem T r inp e).trans hmode)
  case sentTend =>
    rw [hafter.g_eq]
    exact hsent1.trans (sentTend_planItem T r inp e)
  case cluster => rw [hid, hplanned]
  case unfinished =>
    intro hwait hfin
    have hnone := planItem_of_finished T r inp hfin hwait hcluster
    rw [hplan] at hnone
    cases hnone
  case own => exact hown
  case number => rfl
  case cursor => exact (congrArg Script.curItem hsched).trans hcur
  case same => exact fun hwait => curItem_of_waiting hwait hplan
  case upto =>
    intro hat
    rw [← ((upto_planItem T inp hat hcluster).1 item hplan).2]
    unfold Globals.upto
    rw [hid, hidx]
  case waiting => exact hafter.waiting_eq
  case verdict => exact hverdict
  case size => exact hgrant
  case w2w =>
    rw [hafter.g_eq]
    rcases hframe.w2w with heq | hzero
    · left
      have hw := he.nonneg
      rw [heq]
      show (if _ < 0 then 0 else _) = _
      rw [w2w_planItem, if_neg (by omega)]
    · exact Or.inr hzero
  case firstClient => exact congrArg Script.firstClient hsched
  case secondClient =>
    rw [← (hflags 0).2.2.2.1]
    exact congrArg Script.secondClient hsched
  case urlack =>
    rw [← (hflags 0).2.2.2.2]
    exact congrArg Script.urlack hsched
  case received =>
    rw [← (hflags 0).2.1, ← hreceived]
    exact congrArg Script.receivedSofar hsched
  case deadlock =>
    rw [← hstart]
    exact hafter.deadlock_eq

theorem pkt_unloadStep (now : ℕ) (e : Endpoint σ β) :
    (unloadStep now e).pkt.outputLen = e.pkt.outputLen := by
  unfold unloadStep
  split_ifs <;> rfl

/-- The handling of the unload flag may be left out in front of an entry. -/
theorem ItemSlot.of_unloadStep {x : Planned} (h : ItemSlot T r inp (unloadStep inp.now e) e' x) :
    ItemSlot T r inp e e' x := by
  obtain ⟨hsame, hw, hmode, hsent⟩ := sameScript_unloadStep inp.now e
  have hbehind := (behind_of_sameScript T r hsame).2
  have hreceived : (unloadStep inp.now e).g.receivedSofar = e.g.receivedSofar :=
    congrArg Script.receivedSofar hsame.script
  have hflags : ∀ n, _ := fun n => admitItem_congr r n x.item e.g (unloadStep inp.now e).g
    (congrArg Script.firstClient hsame.script) (congrArg Script.secondClient hsame.script)
    (congrArg Script.urlack hsame.script)
  obtain ⟨hsize, hexpected, -, hsecond, hack⟩ := hflags 0
  exact
    { mode := hmode.symm.trans h.mode
      mode' := h.mode'
      sentTend := h.sentTend.trans hsent
      cluster := h.cluster.trans (congrArg Script.clusterId hsame.script)
      unfinished := fun hwait hfin => h.unfinished (hsame.waiting.trans hwait) (hsame.script ▸ hfin)
      own := h.own
      number := by rw [← hbehind]; exact h.number
      cursor := h.cursor
      same := fun hwait => (congrArg Script.curItem hsame.script).symm.trans
        (h.same (hsame.waiting.trans hwait))
      upto := fun hat => by rw [← hbehind]; exact h.upto (atCursor_of_sameScript hsame hat)
      waiting := h.waiting
      verdict := by rw [← hexpected, ← hreceived, ← hsame.deadlock]; exact h.verdict
      size := by rw [← (hflags _).1, ← pkt_unloadStep inp.now e]; exact h.size
      w2w := by rw [← hw]; exact h.w2w
      firstClient := h.firstClient
      secondClient := by rw [← hsecond]; exact h.secondClient
      urlack := by rw [← hack]; exact h.urlack
      received := by rw [← hexpected, ← hreceived]; exact h.received
      deadlock := by rw [← hsame.deadlock]; exact h.deadlock }

/-- A slot that plans no entry, from the state after the unload event. -/
theorem endSlot_of_planItem (he : Reached r e) (hmode : e.g.stmode = .supertrace)
    (hplan : (planItem T r inp e).1 = none) (hend : SameScript (noItem (planItem T r inp e).2) e')
    (hstay : e'.g.stmode = .supertrace → e'.g.w2w = e.g.w2w ∨ e'.g.w2w = 0) : EndSlot T r e e' := by
  have hplanned := planItem_eq T r inp e
  have hupto : e'.g.upto T r = (planItem T r inp e).2.g.upto T r :=
    (behind_of_sameScript T r hend).1
  constructor
  case mode => exact hmode
  case cluster => exact (congrArg Script.clusterId hend.script).trans (by rw [hplanned]; rfl)
  case behind =>
    intro hat
    rw [hupto]
    exact (upto_planItem T inp hat (he.cluster hmode)).2 hplan
  case waiting => exact hend.waiting
  case finished =>
    rw [hend.script]
    exact he.finished hmode hplan
  case stay => exact hstay
  case firstClient => exact (congrArg Script.firstClient hend.script).trans (by rw [hplanned]; rfl)
  case secondClient =>
    exact (congrArg Script.secondClient hend.script).trans (by rw [hplanned]; rfl)
  case urlack => exact (congrArg Script.urlack hend.script).trans (by rw [hplanned]; rfl)
  case received =>
    exact (congrArg Script.receivedSofar hend.script).trans (by rw [hplanned]; rfl)
  case deadlock =>
    rw [hend.deadlock]
    show (planItem T r inp e).2.loop.deadlockStart = _
    rw [hplanned]

/-- It may be left out in front of the end of a transcript, too. -/
theorem EndSlot.of_unloadStep {now : ℕ} (h : EndSlot T r (unloadStep now e) e') :
    EndSlot T r e e' := by
  obtain ⟨hsame, hw, hmode, -⟩ := sameScript_unloadStep now e
  have hbehind := (behind_of_sameScript T r hsame).2
  exact
    { mode := hmode.symm.trans h.mode
      cluster := h.cluster.trans (congrArg Script.clusterId hsame.script)
      behind := fun hat => by rw [← hbehind]; exact h.behind (atCursor_of_sameScript hsame hat)
      waiting := h.waiting
      finished := h.finished
      stay := fun hsuper => by rw [← hw]; exact h.stay hsuper
      firstClient := h.firstClient.trans (congrArg Script.firstClient hsame.script)
      secondClient := h.secondClient.trans (congrArg Script.secondClient hsame.script)
      urlack := h.urlack.trans (congrArg Script.urlack hsame.script)
      received := h.received.trans (congrArg Script.receivedSofar hsame.script)
      deadlock := h.deadlock.trans hsame.deadlock }

/-- **Every slot follows its plan.** -/
theorem slot_cursor (h : slot c T r inp e = .returned e') (he : Reached r e) :
    match slotPlan T r inp e with
    | .nothing => OtherSlot e e'
    | .ends => EndSlot T r e e'
    | .entry x => ItemSlot T r inp e e' x := by
  have hstep := slotStep_slot h he.nonneg
  have he0 := reached_unloadStep inp.now he
  obtain ⟨hsame, hw, hmode0, hsent0⟩ := sameScript_unloadStep inp.now e
  have hunload : ∀ x, ItemSlot T r inp (unloadStep inp.now e) e' x → ItemSlot T r inp e e' x :=
    fun x hx => hx.of_unloadStep
  have hunloadEnd : EndSlot T r (unloadStep inp.now e) e' → EndSlot T r e e' :=
    fun hx => hx.of_unloadStep
  have hskip : shouldSend r inp (unloadStep inp.now e) = false →
      e' = skipSlot (unloadStep inp.now e) := by
    intro hsend
    rcases slot_eq_returned h with ⟨-, rfl⟩ | ⟨hsend', -⟩
    · rfl
    · rw [hsend] at hsend'
      cases hsend'
  unfold slotPlan
  dsimp only
  generalize unloadStep inp.now e = e0 at *
  -- the slot replays, or it is skipped or of another mode
  by_cases hrun : e0.g.stmode = .supertrace ∧ shouldSend r inp e0 = true
  · rw [if_pos hrun]
    cases hstep with
    | skip hsend => rw [hrun.2] at hsend; cases hsend
    | shaped hmode => exact absurd hrun.1 hmode
    | pause hmode hplan hend hnonneg hstay htend =>
      have hends := endSlot_of_planItem he0 hmode hplan hend hstay
      rw [hplan]
      exact hunloadEnd hends
    | item item g p hmode hplan hpoll hafter =>
      have hitem := itemSlot_of_planItem he0 hmode hplan hpoll hafter
      rw [hplan]
      exact hunload _ hitem
  · rw [if_neg hrun]
    dsimp only
    cases hsend : shouldSend r inp e0 with
    | false =>
      obtain ⟨hskipped, hg⟩ := skipSlot_sameScript e0
      rw [hskip hsend]
      refine ⟨hsame.trans hskipped, ?_, fun _ => ?_⟩
      · rw [hg, hmode0]
      · rw [hg, hw, hsent0]
        exact ⟨rfl, rfl⟩
    | true =>
      have hne : e0.g.stmode ≠ .supertrace := fun hm => hrun ⟨hm, hsend⟩
      cases hstep with
      | skip hsend' => rw [hsend] at hsend'; cases hsend'
      | shaped _ hmode' hother =>
        rw [hmode0] at hne
        exact ⟨hsame.trans hother, iff_of_false hmode' hne, fun hm => absurd hm hne⟩
      | pause hmode => exact absurd hmode hne
      | item _ _ _ hmode => exact absurd hmode hne

/-- Slots do not count pages. -/
theorem page_slot (h : slot c T r inp e = .returned e') : e'.page = e.page := by
  refine Transition.inv_reflTransGen (I := fun k => k.page = e.ctl.page) ?_ (slot_ctl h) rfl
  intro k k' hk hstep
  cases hstep with
  | toNormal =>
    cases r with
    | client =>
      unfold Ctl.enterNormal Ctl.releaseLock
      dsimp only
      split <;> exact hk
    | server => exact hk
  | _ => exact hk

/-! ## The invariant -/

/-- The parts of the cursor fit together: a waiting entry is the last one up to the cursor,
there is none outside transcript mode, and as long as no entry was treated since the flag
`first_client` was set, the cursor is at the start of the page or the page is finished. -/
structure CursorInv (T : Tables) (r : Role) (e : Endpoint σ β) : Prop where
  reached : Reached r e
  cursor : AtCursor T r e
  idle : e.g.stmode ≠ .supertrace → e.loop.waitingForAPacket = false
  first : e.g.stmode = .supertrace → e.g.firstClient = true →
    e.loop.waitingForAPacket = false ∧ (e.behind T r = [] ∨ e.g.script.Finished)

/-- An end that is not waiting for a packet has sent the entry at its cursor. -/
theorem behind_of_not_waiting (T : Tables) (r : Role) (h : e.loop.waitingForAPacket = false) :
    e.behind T r = e.g.upto T r := by
  unfold Endpoint.behind
  rw [if_neg (by rw [h]; decide)]

/-- **One entry.**  A slot puts its entry behind the cursor, unless it has to wait for the peer. -/
theorem ItemSlot.behind_eq {x : Planned} (h : ItemSlot T r inp e e' x) (hat : AtCursor T r e) :
    e'.behind T r = if x.verdict = .wait then e.behind T r else e.behind T r ++ [x.item] := by
  have hdef : e'.behind T r =
      if e'.loop.waitingForAPacket then (e'.g.upto T r).dropLast else e'.g.upto T r := rfl
  rw [hdef, h.waiting, h.upto hat]
  by_cases hv : x.verdict = .wait <;> simp [hv]

/-- As long as `first_client` is set, a slot that treats an entry treats the first one. -/
theorem number_eq_one {x : Planned} (he : CursorInv T r e) (h : ItemSlot T r inp e e' x)
    (hfirst : e.g.firstClient = true) : x.number = 1 := by
  obtain ⟨hwait, hnil | hfin⟩ := he.first h.mode hfirst
  · rw [h.number, hnil]
    rfl
  · exact absurd hfin (h.unfinished hwait)

theorem Script.Finished.of_flagStep (h : e.g.script.Finished) (hs : FlagStep ev e e') :
    e'.g.script.Finished := by
  rcases h with ⟨hnone, hneg⟩ | ⟨hload, hend⟩
  · exact Or.inl ⟨hs.curItem.trans hnone, lt_of_eq_of_lt hs.stIndex hneg⟩
  · exact Or.inr ⟨hs.onload hload, hs.transcriptEnd hend⟩

/-- A step that only sets flags leaves the entries behind the cursor alone. -/
theorem FlagStep.behind (h : FlagStep ev e e') (T : Tables) (r : Role) :
    e'.g.upto T r = e.g.upto T r ∧ e'.behind T r = e.behind T r := by
  have hupto : e'.g.upto T r = e.g.upto T r := by
    unfold Globals.upto
    rw [h.clusterId, h.stIndex]
  refine ⟨hupto, ?_⟩
  unfold Endpoint.behind
  rw [h.waiting, hupto]

/-- A page starts with no entry behind the cursor. -/
theorem PageStep.behind (h : PageStep T ev e e') (r : Role) (hmode : e'.g.stmode = .supertrace)
    (hwait : e.loop.waitingForAPacket = false) : e'.behind T r = [] := by
  rw [behind_of_not_waiting T r (h.waiting.trans hwait)]
  unfold Globals.upto
  rw [h.stIndex hmode]
  rfl

/-- **A slot keeps the invariant.** -/
theorem cursorInv_slot (h : slot c T r inp e = .returned e') (he : CursorInv T r e) :
    CursorInv T r e' := by
  have hplan := slot_cursor h he.reached
  have hreached := reached_slot h he.reached
  cases hp : slotPlan T r inp e with
  | nothing =>
    rw [hp] at hplan
    obtain ⟨hupto, hbehind⟩ := behind_of_sameScript T r hplan.same
    refine ⟨hreached, atCursor_of_sameScript hplan.same he.cursor, fun hmode => ?_,
      fun hmode hfirst => ?_⟩
    · rw [hplan.same.waiting]
      exact he.idle fun hm => hmode (hplan.mode.mpr hm)
    · have hfirst0 : e.g.firstClient = true :=
        (congrArg Script.firstClient hplan.same.script).symm.trans hfirst
      obtain ⟨hwait, hcase⟩ := he.first (hplan.mode.mp hmode) hfirst0
      rw [hplan.same.waiting, hbehind, hplan.same.script]
      exact ⟨hwait, hcase⟩
  | ends =>
    rw [hp] at hplan
    refine ⟨hreached, fun hw => ?_, fun _ => hplan.waiting,
      fun _ _ => ⟨hplan.waiting, Or.inr hplan.finished⟩⟩
    rw [hplan.waiting] at hw
    cases hw
  | entry x =>
    rw [hp] at hplan
    refine ⟨hreached, fun hw => ⟨x.item, hplan.cursor, ?_⟩,
      fun hmode => absurd hplan.mode' hmode, fun _ hfirst => ?_⟩
    · rw [hplan.waiting] at hw
      rw [hplan.upto he.cursor, hplan.behind_eq he.cursor, if_pos (of_decide_eq_true hw)]
    · rw [hplan.firstClient] at hfirst
      cases hfirst

/-- **Every event keeps the invariant**, if no page starts while an entry is waiting. -/
theorem cursorInv_endpointStep (h : endpointStep c T r e ev = some e') (he : CursorInv T r e)
    (hstart : e'.page ≠ e.page → e.loop.waitingForAPacket = false) : CursorInv T r e' := by
  have hreached := reached_endpointStep h he.reached
  rcases endpointStep_cases h with ⟨inp, -, hslot⟩ | ⟨-, hflag⟩ | ⟨hpage, -⟩
  · exact cursorInv_slot hslot he
  · obtain ⟨hupto, hbehind⟩ := hflag.behind T r
    refine ⟨hreached, fun hw => ?_, fun hmode => ?_, fun hmode hfirst => ?_⟩
    · obtain ⟨x, hx, hcur⟩ := he.cursor (hflag.waiting.symm.trans hw)
      exact ⟨x, hflag.curItem.trans hx, by rw [hupto, hbehind]; exact hcur⟩
    · rw [hflag.waiting]
      exact he.idle fun hm => hmode (hflag.stmode.trans hm)
    · obtain ⟨hwait, hcase⟩ := he.first (hflag.stmode.symm.trans hmode)
        (hflag.firstClient.symm.trans hfirst)
      rw [hflag.waiting, hbehind]
      exact ⟨hwait, hcase.imp id fun hfin => hfin.of_flagStep hflag⟩
  · have hwait : e.loop.waitingForAPacket = false := hstart (by rw [hpage.page]; omega)
    refine ⟨hreached, fun hw => ?_, fun _ => hpage.waiting.trans hwait, fun hmode _ => ?_⟩
    · rw [hpage.waiting, hwait] at hw
      cases hw
    · exact ⟨hpage.waiting.trans hwait, Or.inl (hpage.behind r hmode hwait)⟩

theorem cursorInv_init (T : Tables) (r : Role) (snd : σ) :
    CursorInv T r ({ pkt := { snd := snd } } : Endpoint σ β) where
  reached := reached_init r snd
  cursor := fun h => (nomatch h)
  idle := fun _ => rfl
  first := fun h => (nomatch h)

end CSBuFLO
