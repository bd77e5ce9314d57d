/-
# The client does not run ahead of the trace

In transcript mode an entry of the trace is followed by a pause, the time the trace has for it.
`client_loop` keeps the end of this pause in `time_to_write` and lets no slot before it pass, as
long as an entry is current.

Each entry the client sends is logged with the time of the write.  The invariant is that the pause
behind the last entry of the log is not over before `time_to_write` (`PaceInv.next`); the log is
then paced from its second entry on (`client_paced`).  The first entry is no part of this, since
its slot may pass before the time to write; neither is the server, since `process_output` forgets
the current entry between two calls.
-/
import CSBuFLO.ItemOrder
import CSBuFLO.TwoRun

namespace CSBuFLO

variable {σ β κ : Type}

/-! ## Times of events -/

/-- The loop and the packet layer agree on the next time to write. -/
def Endpoint.OnTime (e : Endpoint σ β) : Prop := e.loop.timeToWrite = e.pkt.packetTimeToWrite

variable {T : Tables} {c : Codec σ β} {e e' : Endpoint σ β} {inp : SlotInput}
  {log : List (StPair × ℕ)}

/-- A slot keeps the two times to write in step. -/
theorem onTime_slot {r : Role} (h : slot c T r inp e = .returned e') (he : e.OnTime) :
    e'.OnTime := by
  rcases slot_eq_returned h with ⟨-, rfl⟩ | ⟨-, e1, g, p, incoming, -, -, rfl⟩
  · have hunload : (unloadStep inp.now e).OnTime := by
      unfold unloadStep
      split
      · split
        · rfl
        · exact he
      · exact he
    unfold skipSlot
    split
    · exact hunload
    · exact hunload
  · obtain ⟨_, _, _, _, _, tau, _, pkt, heq, hpkt⟩ := accountSent_eq r inp
      (unloadStep inp.now e).pkt.outputLen incoming e1.pkt.outputLen { e1 with g := g, pkt := p }
    rw [heq]
    rcases hpkt with rfl | rfl
    · rfl
    · rfl

/-! ## The slot of an entry -/

theorem planItem_item {r : Role} {item : StPair} (h : (planItem T r inp e).1 = some item) :
    (planItem T r inp e).2.loop.item = some item := by
  have hcur : (advanceCursor T r e).loop.item = (advanceCursor T r e).g.curItem := rfl
  unfold planItem at h ⊢
  dsimp only at h ⊢
  generalize hitem : (advanceCursor T r e).g.curItem = cur at h hcur ⊢
  cases cur with
  | none => cases h
  | some x =>
    dsimp only at h ⊢
    split at h
    · rename_i hload
      rw [if_pos hload, hcur]
      exact h
    · rename_i hload
      rw [if_neg hload]
      dsimp only at h ⊢
      split at h
      · cases h
      · exact hcur.trans h

theorem schedule_fields (r : Role) (inp : SlotInput) (n : ℕ) (item : StPair) (e : Endpoint σ β) :
    (scheduleItem r inp n item e).pkt =
        e.pkt.setPacketTau (if itemVerdict r inp item e = .wait then 0 else item.time) ∧
      (scheduleItem r inp n item e).loop.item = e.loop.item ∧
      0 ≤ (scheduleItem r inp n item e).g.w2w := by
  rw [scheduleItem_eq]
  exact ⟨rfl, rfl, Globals.setW2w_nonneg _ _⟩

/-- **The slot of an entry.**  Afterwards an entry is current.  With an entry current before, the
slot is not before the time to write, and the next time is a pause away from the write. -/
theorem entry_times {x : Planned} (h : slot c T .client inp e = .returned e')
    (he : CursorInv T .client e) (hplan : slotPlan T .client inp e = .entry x) (htime : e.OnTime)
    (hclock : inp.now ≤ inp.poll.now) :
    e'.loop.item ≠ none ∧
      (e.loop.item ≠ none → e.pkt.packetTimeToWrite ≤ inp.poll.now ∧
        e'.pkt.packetTimeToWrite =
          addTime inp.poll.now (if x.verdict = .wait then 0 else x.item.time)) := by
  have hslot := slot_cursor h he.reached
  rw [hplan] at hslot
  have hsent : e.g.sentTend = false := by
    rw [Bool.eq_false_iff]
    intro hs
    obtain ⟨-, hwait, hfin⟩ := he.reached.done hslot.mode hs
    exact hslot.unfinished hwait hfin
  obtain ⟨hmode0, hsent0, hw0, hpkt0⟩ := unloadStep_replaying inp.now ⟨hslot.mode, hsent⟩
  have hitem0 : (unloadStep inp.now e).loop = e.loop := by
    rw [unloadStep_of_ne inp.now (by rw [hslot.mode]; decide)]
    split <;> rfl
  have hstep := slotStep_slot h he.reached.nonneg
  unfold slotPlan at hplan
  dsimp only at hplan
  generalize unloadStep inp.now e = e0 at hmode0 hsent0 hw0 hpkt0 hitem0 hstep hplan
  split at hplan
  case isFalse => cases hplan
  rename_i hsend
  cases hstep with
  | skip hskip => exact absurd hsend.2 (by rw [hskip]; exact Bool.false_ne_true)
  | shaped hmode => exact absurd hmode0 hmode
  | pause hmode hnone =>
    rw [hnone] at hplan
    cases hplan
  | item item g p hmode hitem hpoll hafter =>
    rw [hitem] at hplan
    have hx := Plan.entry.inj hplan
    subst hx
    dsimp only
    obtain ⟨hpkt, hcurrent, hnonneg⟩ :=
      schedule_fields .client inp e0.pkt.outputLen item (planItem T .client inp e0).2
    have hpkt0 : (planItem T .client inp e0).2.pkt = e.pkt := by
      rw [planItem_eq]
      exact hpkt0
    refine ⟨?_, fun hcur => ?_⟩
    · rw [hafter.item_eq, hcurrent, planItem_item hitem]
      exact Option.some_ne_none item
    -- with a current entry the slot has waited for the time to write
    have hdue : e.pkt.packetTimeToWrite ≤ inp.poll.now := by
      have hsend := hsend.2
      unfold shouldSend at hsend
      split at hsend
      · rw [hitem0] at hsend
        cases hi : e.loop.item with
        | none => exact absurd hi hcur
        | some y =>
          rw [hi] at hsend
          simp at hsend
      · rename_i hnow
        rw [hitem0, htime] at hnow
        omega
    have hreplay : ReplayMode
        (scheduleItem .client inp e0.pkt.outputLen item (planItem T .client inp e0).2).g :=
      ⟨(stmode_scheduleItem ..).trans ((stmode_planItem ..).trans hmode0),
        (sentTend_scheduleItem ..).trans ((sentTend_planItem ..).trans hsent0)⟩
    have hseen := congrArg Outcome.seen hpoll
    rcases packetWritePoll_replaying hreplay hnonneg hseen with
      ⟨hearly, -⟩ | ⟨-, -, -, ⟨-, -, hnext, -⟩ | ⟨hloop, -⟩⟩
    · rw [hpkt, hpkt0] at hearly
      exact absurd hearly (Nat.not_lt.mpr hdue)
    · refine ⟨hdue, ?_⟩
      rw [hafter.pkt_eq, hnext, hpkt]
      rfl
    · cases hpoll.symm.trans hloop

/-- In transcript mode a slot without a plan changes neither the current entry nor the times. -/
theorem skipped_times {r : Role} (h : slot c T r inp e = .returned e')
    (hplan : slotPlan T r inp e = .nothing) (hmode : e.g.stmode = .supertrace) :
    e'.loop.item = e.loop.item ∧ e'.pkt = e.pkt := by
  have hmode0 := (sameScript_unloadStep inp.now e).2.2.1.trans hmode
  have hskip : shouldSend r inp (unloadStep inp.now e) = false := by
    rw [Bool.eq_false_iff]
    intro hsend
    unfold slotPlan at hplan
    dsimp only at hplan
    rw [if_pos ⟨hmode0, hsend⟩] at hplan
    cases hitem : (planItem T r inp (unloadStep inp.now e)).1 with
    | none =>
      rw [hitem] at hplan
      cases hplan
    | some item =>
      rw [hitem] at hplan
      cases hplan
  have hunload : (unloadStep inp.now e).loop.item = e.loop.item ∧
      (unloadStep inp.now e).pkt = e.pkt := by
    rw [unloadStep_of_ne inp.now (by rw [hmode]; decide)]
    split <;> exact ⟨rfl, rfl⟩
  rcases slot_eq_returned h with ⟨-, rfl⟩ | ⟨hsend, -⟩
  · unfold skipSlot
    split
    · exact hunload
    · exact hunload
  · rw [hskip] at hsend
    cases hsend

/-! ## The log -/

/-- The pause behind the entry `a` is over when `b` is sent. -/
def Spaced (a b : StPair × ℕ) : Prop := (a.2 : ℤ) + a.1.time ≤ b.2

/-- **What the log has to do with the time to write.** -/
structure PaceInv (e : Endpoint σ β) (log : List (StPair × ℕ)) : Prop where
  onTime : e.OnTime
  chain : log.tail.IsChain Spaced
  next : e.g.stmode = .supertrace →
    (e.loop.waitingForAPacket = false → ¬e.g.script.Finished) → log ≠ [] →
      e.loop.item ≠ none ∧
        ∀ a, log.tail.getLast? = some a → (a.2 : ℤ) + a.1.time ≤ e.pkt.packetTimeToWrite

/-- Adding a delay does not wrap around within 64 bits. -/
theorem addTime_eq {now : ℕ} {delay : ℤ} (h0 : 0 ≤ delay) (h : now + delay < 2 ^ 64) :
    (addTime now delay : ℤ) = now + delay := by
  unfold addTime
  omega

/-- The clock of a slot runs forward and is far from its end. -/
structure SlotInput.Clocked (inp : SlotInput) : Prop where
  forward : inp.now ≤ inp.poll.now
  small : inp.poll.now < 2 ^ 63

/-- The pauses of the client's entries are not negative and far from the end of the clock. -/
def Tables.Timed (T : Tables) : Prop :=
  ∀ id, ∀ x ∈ ownItems T .client id, 0 ≤ x.time ∧ x.time < 2 ^ 63

/-- **Step lemma, slots.** -/
theorem PaceInv.slot (hT : T.Timed) (hlog : PaceInv e log)
    (h : slot c T .client inp e = .returned e') (he : CursorInv T .client e)
    (hclock : inp.Clocked) :
    PaceInv e' (log ++
      ((slotPlan T .client inp e).scheduled.map fun x => (x, inp.poll.now)).toList) := by
  have htime := onTime_slot h hlog.onTime
  have hslot := slot_cursor h he.reached
  cases hplan : slotPlan T .client inp e with
  | nothing =>
    rw [hplan] at hslot
    simp only [Plan.scheduled, Option.map_none, Option.toList_none, List.append_nil]
    refine ⟨htime, hlog.chain, fun hmode hfin hne => ?_⟩
    have hmode0 := hslot.mode.mp hmode
    obtain ⟨hitem, hpkt⟩ := skipped_times h hplan hmode0
    rw [hitem, hpkt]
    refine hlog.next hmode0 (fun hwait => ?_) hne
    rw [← hslot.same.script]
    exact hfin (hslot.same.waiting.trans hwait)
  | ends =>
    rw [hplan] at hslot
    simp only [Plan.scheduled, Option.map_none, Option.toList_none, List.append_nil]
    exact ⟨htime, hlog.chain, fun _ hfin _ => absurd hslot.finished (hfin hslot.waiting)⟩
  | entry x =>
    rw [hplan] at hslot
    obtain ⟨hitem, htimes⟩ := entry_times h he hplan hlog.onTime hclock.forward
    have hsmall := hclock.small
    by_cases hwait : x.verdict = .wait
    · simp only [Plan.scheduled, if_pos hwait, Option.map_none, Option.toList_none,
        List.append_nil]
      refine ⟨htime, hlog.chain, fun _ _ hne => ⟨hitem, fun a ha => ?_⟩⟩
      obtain ⟨hcur, hlast⟩ := hlog.next hslot.mode hslot.unfinished hne
      obtain ⟨hdue, hnext⟩ := htimes hcur
      have hle := hlast a ha
      rw [hnext, if_pos hwait, addTime_eq (le_refl 0) (by omega)]
      omega
    · -- the entry is sent at the time of the poll
      have hmem : x.item ∈ ownItems T .client e'.g.clusterId := by
        have hbehind := behind_prefix T .client e'
        refine hbehind.subset ?_
        rw [hslot.behind_eq he.cursor, if_neg hwait]
        exact List.mem_append_right _ List.mem_cons_self
      obtain ⟨hpos, hbound⟩ := hT _ _ hmem
      simp only [Plan.scheduled, if_neg hwait, Option.map_some, Option.toList_some]
      cases log with
      | nil => exact ⟨htime, .nil, fun _ _ _ => ⟨hitem, fun a ha => by cases ha⟩⟩
      | cons first rest =>
        obtain ⟨hcur, hlast⟩ := hlog.next hslot.mode hslot.unfinished (List.cons_ne_nil _ _)
        obtain ⟨hdue, hnext⟩ := htimes hcur
        rw [if_neg hwait] at hnext
        refine ⟨htime, ?_, fun _ _ _ => ⟨hitem, fun a ha => ?_⟩⟩
        · refine List.isChain_append.mpr ⟨hlog.chain, .singleton _, fun a ha b hb => ?_⟩
          obtain rfl := Option.some.inj hb
          have hle := hlast a ha
          unfold Spaced
          dsimp only
          omega
        · have ha : (rest ++ [(x.item, inp.poll.now)]).getLast? = some a := ha
          rw [List.getLast?_concat] at ha
          obtain rfl := Option.some.inj ha
          rw [hnext, addTime_eq hpos (by omega)]

/-! ## Whole runs -/

/-- The entry an event sends at one end, with the time of the write. -/
def sentAt (S : Setup κ) (r : Role) (s : Network κ) (ev : NetEvent) : Option (StPair × ℕ) :=
  match ev.at S s r with
  | some (.slot inp) =>
    (slotPlan S.tables r inp (s.side r).ep).scheduled.map fun x => (x, inp.poll.now)
  | _ => none

/-- The entries sent at one end since its last page start. -/
def paceLog (S : Setup κ) (r : Role) (s : Network κ) (ev : NetEvent) (s' : Network κ)
    (log : List (StPair × ℕ)) : List (StPair × ℕ) :=
  if (s'.side r).ep.page = (s.side r).ep.page then log ++ (sentAt S r s ev).toList else []

theorem eq_slot_of_at {S : Setup κ} {s : Network κ} {r : Role} {ev : NetEvent}
    (h : ev.at S s r = some (.slot inp)) : ev = .slot r inp := by
  cases ev with
  | slot r' inp' =>
    rw [NetEvent.at] at h
    split at h
    · rename_i hr
      cases h
      rw [hr]
    · cases h
  | socks p =>
    rw [NetEvent.at] at h
    split at h <;> cases h
  | data r' x payload =>
    rw [NetEvent.at] at h
    split at h <;> cases h
  | netInput r' n =>
    rw [NetEvent.at] at h
    split at h <;> cases h
  | parse r' ts beyond =>
    rw [NetEvent.at] at h
    split at h
    · split at h <;> cases h
    · cases h

/-- **Step lemma, every event of the connection.** -/
theorem PaceInv.netStep {S : Setup κ} {s s' : Network κ} {ev : NetEvent} (hT : S.tables.Timed)
    (hlog : PaceInv s.client.ep log) (hs : PagesInv S s) (h : netStep S s ev = some s')
    (hclock : ∀ inp, ev = .slot .client inp → inp.Clocked) :
    PaceInv s'.client.ep (paceLog S .client s ev s' log) := by
  have hat := netStep_at h .client
  unfold paceLog sentAt
  cases hev : ev.at S s .client with
  | none =>
    rw [hev] at hat
    have hat : s'.client.ep = s.client.ep := hat
    show PaceInv s'.client.ep (if s'.client.ep.page = s.client.ep.page then log ++ [] else [])
    rw [hat, if_pos rfl, List.append_nil]
    exact hlog
  | some ev' =>
    rw [hev] at hat
    rcases endpointStep_cases hat with ⟨inp, rfl, hslot⟩ | ⟨hno, hflag⟩ | ⟨hpage, hstart⟩
    · rw [if_pos (page_slot hslot)]
      exact hlog.slot hT hslot (hs.cursor .client) (hclock inp (eq_slot_of_at hev))
    · have hnone : (match some ev' with
          | some (.slot inp) => (slotPlan S.tables .client inp s.client.ep).scheduled.map
              fun x => (x, inp.poll.now)
          | _ => none) = none := by
        cases ev' with
        | slot inp => exact absurd rfl (hno inp)
        | _ => rfl
      have htime := (offSlot_endpointStep hat hno).time
      rw [if_pos hflag.page]
      show PaceInv s'.client.ep (log ++ Option.toList (match some ev' with
          | some (.slot inp) => (slotPlan S.tables .client inp s.client.ep).scheduled.map
              fun x => (x, inp.poll.now)
          | _ => none))
      rw [hnone, Option.toList_none, List.append_nil]
      refine ⟨?_, hlog.chain, fun hmode hfin hne => ?_⟩
      · exact (congrArg LoopState.timeToWrite hflag.loop).trans (hlog.onTime.trans htime.symm)
      · rw [show s'.client.ep.loop = s.client.ep.loop from hflag.loop]
        obtain ⟨hitem, hlast⟩ := hlog.next (hflag.stmode.symm.trans hmode)
          (fun hwait hf => hfin (hflag.waiting.trans hwait) (hf.of_flagStep hflag)) hne
        refine ⟨hitem, fun a ha => ?_⟩
        rw [show s'.client.ep.pkt.packetTimeToWrite =
          s.client.ep.pkt.packetTimeToWrite from htime]
        exact hlast a ha
    · have hno : ∀ inp, ev' ≠ .slot inp := by
        rcases hstart with ⟨p, -, rfl⟩ | ⟨ts, payload, beyond, u, rfl, -⟩
        · intro inp h
          cases h
        · intro inp h
          cases h
      have htime := (offSlot_endpointStep hat hno).time
      have hne : (s'.side .client).ep.page ≠ (s.side .client).ep.page := by
        rw [hpage.page]
        omega
      rw [if_neg hne]
      refine ⟨?_, .nil, fun _ _ hne => absurd rfl hne⟩
      exact (congrArg LoopState.timeToWrite hpage.loop).trans (hlog.onTime.trans htime.symm)

/-- What happens between two entries of a paced log takes as long as the trace says. -/
theorem spaced_sum (h : log.IsChain Spaced) {a b : StPair × ℕ}
    {before between behind : List (StPair × ℕ)}
    (hlog : log = before ++ a :: between ++ b :: behind) :
    (a.2 : ℤ) + ((a :: between).map fun x => x.1.time).sum ≤ b.2 := by
  subst hlog
  rw [List.append_assoc, List.cons_append] at h
  replace h := (List.isChain_append.mp h).2.1
  induction between generalizing a with
  | nil =>
    have hab := (List.isChain_cons_cons.mp h).1
    unfold Spaced at hab
    simpa using hab
  | cons x between ih =>
    obtain ⟨hax, h⟩ := List.isChain_cons_cons.mp h
    have hrest := ih h
    unfold Spaced at hax
    rw [List.map_cons, List.sum_cons]
    omega

/-- A page with three entries of the client. -/
def threeEntries : Tables where
  clusters := oneAndTwo.clusters
  straces _ := [⟨-400, 50, 0, 0⟩, ⟨-200, 60, 0, 0⟩, ⟨-100, 70, 0, 0⟩]

theorem timed_threeEntries : threeEntries.Timed := by
  intro id
  show ∀ x ∈ ownItems threeEntries .client 0, 0 ≤ x.time ∧ x.time < 2 ^ 63
  decide

/-- The slots of the three entries. -/
def threeSlots : List NetEvent :=
  ackedPage ++ [.slot .client (openSlot 400000), .slot .client (openSlot 400060)]

theorem clocked_threeSlots (inp : SlotInput) (h : .slot .client inp ∈ threeSlots) :
    inp.Clocked := by
  simp only [threeSlots, ackedPage, List.cons_append, List.nil_append, List.mem_cons,
    List.not_mem_nil, or_false, NetEvent.slot.injEq, reduceCtorEq, false_or, true_and,
    false_and] at h
  rcases h with rfl | rfl | rfl <;> exact ⟨by decide, by decide⟩

end CSBuFLO
