/-
# The bytes of a page

While a trace is replayed, an end writes what its entries grant, and counts what it reads against
what its entries expect.  Two numbers follow this over a whole page:

* `committed`, the bytes written or granted, grows by at least the size of every entry that is
  scheduled;
* `tally`, the bytes counted plus those already used up by the entries behind, grows by at least
  the number of bytes read.

`Advance` is what one event of an endpoint does to them (`advance_slot`, `advance_flag`).
-/
import CSBuFLO.PageBudget
import CSBuFLO.Split

namespace CSBuFLO

variable {σ β : Type}

/-! ## Written or granted bytes -/

/-- The bytes an end has written, and those it is granted and has not written yet. -/
def Endpoint.committed (e : Endpoint σ β) : ℤ := e.pkt.wire.length + e.g.w2w

/-- The bytes a plan grants. -/
def Plan.size : Plan → ℤ
  | .entry x => x.size
  | _ => 0

/-- Nothing that was written is taken back. -/
theorem sendInv_wire (c : Codec σ β) (n : ℕ) :
    SendInv c (fun _ _ => True) (fun p => n ≤ p.wire.length) where
  notify _ hp h := by
    obtain ⟨bs, s, -, rfl⟩ := packetSend_eq_some h
    exact hp
  url _ hp h := by
    obtain ⟨bs, s, -, rfl⟩ := packetSend_eq_some h
    exact hp
  data _ _ hp h := by
    obtain ⟨bs, s, -, rfl⟩ := packetSend_eq_some h
    exact hp
  pad _ _ _ _ hp h := by
    obtain ⟨bs, s, -, rfl⟩ := packetSend_eq_some h
    exact hp
  write n' acc p hp _ _ := hp.trans (by simp [PacketState.consume, PacketState.handOver])
  time _ _ hp := hp
  tau _ _ hp := hp

variable {c : Codec σ β} {e e' : Endpoint σ β} {r : Role} {T : Tables} {inp : SlotInput}

/-- A poll of the replay turns what is granted into what is written. -/
theorem committed_poll {inp : PollInput} {g g' : Globals} {p p' : PacketState σ β}
    (hg : ReplayMode g) (hw : 0 ≤ g.w2w) (h : packetWritePoll c inp g p = .returned (g', p')) :
    (p'.wire.length : ℤ) + g'.w2w = p.wire.length + g.w2w := by
  have hseen : (packetWritePoll c inp g p).seen = some (g', p') := by rw [h]; rfl
  rcases packetWritePoll_replaying hg hw hseen with ⟨-, rfl, rfl⟩ | ⟨-, -, -, hcase⟩
  · rfl
  · rcases hcase with ⟨-, hg', -, -, hwire⟩ | ⟨hloop, -⟩
    · have hzero : g'.w2w = 0 := by rw [hg']
      rw [hwire, hzero]
      push_cast
      rw [Int.toNat_of_nonneg hw]
      omega
    · rw [h] at hloop
      cases hloop

/-- What a slot of the replay decides adds its grant to what is committed. -/
theorem committed_decided (T : Tables) (inp : SlotInput) (he : Reached r e)
    (hmode : e.g.stmode = .supertrace) (n : ℕ) :
    (decided T r inp n e).committed = e.committed +
        (match (planItem T r inp e).1 with
          | none => 0
          | some item => itemGrant r inp n item (planItem T r inp e).2) ∧
      0 ≤ (decided T r inp n e).g.w2w := by
  have hw := he.nonneg
  have hplanned := planItem_eq T r inp e
  have hpkt : (planItem T r inp e).2.pkt = e.pkt := by rw [hplanned]
  have hw2w := w2w_planItem T r inp e
  unfold decided Endpoint.committed
  cases hitem : (planItem T r inp e).1 with
  | none =>
    dsimp only [noItem, PacketState.setPacketTau]
    rw [hpkt, hw2w]
    exact ⟨by omega, hw⟩
  | some item =>
    have hnonneg := itemGrant_nonneg inp n (planItem T r inp e).2 (he.planned hmode hitem).2
    have hsum : ¬e.g.w2w + itemGrant r inp n item (planItem T r inp e).2 < 0 := by omega
    dsimp only
    rw [scheduleItem_eq]
    dsimp only [PacketState.setPacketTau, Globals.setW2w]
    rw [hpkt, hw2w, if_neg hsum]
    exact ⟨by omega, by omega⟩

/-- **A slot of the replay commits what it plans**, unless it finds neither an entry nor a
budget. -/
theorem committed_replay (h : slot c T r inp e = .returned e') (he : Reached r e)
    (hreplay : ReplayMode e.g)
    (hbudget : shouldSend r inp (unloadStep inp.now e) = true →
      (planItem T r inp (unloadStep inp.now e)).1 = none → e.g.w2w ≠ 0) :
    e'.committed = e.committed + (slotPlan T r inp e).size := by
  have he0 := reached_unloadStep inp.now he
  obtain ⟨hmode0, -, hw0, hpkt0⟩ := unloadStep_replaying inp.now hreplay
  have hseen : (slot c T r inp e).seen = some e' := by rw [h]; rfl
  unfold slotPlan
  dsimp only
  rcases slot_replaying hreplay hseen hbudget with
    ⟨hskip, rfl⟩ | ⟨hsend, d, g, p, hd, hmode, hcase⟩
  · have hpkt : (skipSlot (unloadStep inp.now e)).pkt = (unloadStep inp.now e).pkt := by
      unfold skipSlot
      split <;> rfl
    rw [if_neg fun hc => absurd hc.2 (by rw [hskip]; exact Bool.false_ne_true)]
    unfold Endpoint.committed
    rw [hpkt, (skipSlot_sameScript _).2, hpkt0, hw0]
    exact (add_zero _).symm
  · rw [if_pos ⟨hmode0, hsend⟩]
    obtain ⟨hcommitted, hdw⟩ := committed_decided T inp he0 hmode0 e.pkt.outputLen
    rw [← hd] at hcommitted hdw
    rcases hcase with ⟨hpoll, -, hafter⟩ | ⟨-, hloop, -⟩
    · have hpaid := committed_poll hmode hdw hpoll
      unfold Endpoint.committed at hcommitted ⊢
      rw [hafter.g_eq, hafter.pkt_eq, hpaid, hcommitted, hw0, hpkt0]
      cases (planItem T r inp (unloadStep inp.now e)).1 with
      | none => rfl
      | some item => rfl
    · cases h.symm.trans hloop

/-- **A slot of the replay commits at least what it plans.** -/
theorem committed_slot (h : slot c T r inp e = .returned e') (he : Reached r e)
    (hmode : e.g.stmode = .supertrace) :
    e.committed + (slotPlan T r inp e).size ≤ e'.committed := by
  have he0 := reached_unloadStep inp.now he
  obtain ⟨-, hw0, hmode0, hsent0⟩ := sameScript_unloadStep inp.now e
  -- a slot that finds neither an entry nor a budget writes what it writes
  have hrest : e.g.w2w = 0 → (planItem T r inp (unloadStep inp.now e)).1 = none →
      e.committed + (slotPlan T r inp e).size ≤ e'.committed := by
    intro hzero hnone
    have hwire : e.pkt.wire.length ≤ e'.pkt.wire.length :=
      (sendInv_wire c e.pkt.wire.length).slot h le_rfl
    have hw' := (reached_slot h he).nonneg
    have hsize : (slotPlan T r inp e).size = 0 := by
      unfold slotPlan
      dsimp only
      rw [hnone]
      split <;> rfl
    unfold Endpoint.committed
    rw [hzero, hsize]
    omega
  cases hs : e.g.sentTend with
  | true =>
    obtain ⟨hzero, hwait, hfin⟩ := he0.done (hmode0.trans hmode) (hsent0.trans hs)
    exact hrest (hw0.symm.trans hzero) (planItem_of_finished T r inp hfin hwait
      (he0.cluster (hmode0.trans hmode)))
  | false =>
    by_cases hend : (planItem T r inp (unloadStep inp.now e)).1 = none ∧ e.g.w2w = 0
    · exact hrest hend.2 hend.1
    · exact (committed_replay h he ⟨hmode, hs⟩ fun _ hnone hzero => hend ⟨hnone, hzero⟩).ge

/-- A slot that lets the first entry go commits all that is queued. -/
theorem committed_first {x : Planned} (h : slot c T r inp e = .returned e') (he : Reached r e)
    (hplan : slotPlan T r inp e = .entry x) (hgo : x.verdict ≠ .wait)
    (hfirst : e.g.firstClient = true) :
    (e.pkt.wire.length : ℤ) + e.pkt.outputLen ≤ e'.committed := by
  have hslot := slot_cursor h he
  rw [hplan] at hslot
  have hcommitted := committed_slot h he hslot.mode
  have hsize : x.size = max (r.itemSize x.item) e.pkt.outputLen := by
    rw [hslot.size, if_neg hgo, admitItem_size, if_pos hfirst]
  have hw := he.nonneg
  rw [hplan] at hcommitted
  have hplanned : (Plan.entry x).size = x.size := rfl
  rw [hplanned, hsize] at hcommitted
  unfold Endpoint.committed at hcommitted ⊢
  omega

/-! ## Counted bytes -/

/-- The bytes an end has counted, with those its entries have used up. -/
def Endpoint.tally (T : Tables) (r : Role) (e : Endpoint σ β) : ℕ :=
  e.g.receivedSofar + expectedBytes (e.behind T r)

/-- The second entry of a client waits for an acknowledgement that has not arrived. -/
def Globals.gateClosed (g : Globals) : Bool := !g.firstClient && g.secondClient && !g.urlack

/-- An entry expects what the trace says, unless the gate is closed. -/
theorem admitItem_of_open {g : Globals} (h : r = .client → g.gateClosed = false) (n : ℕ)
    (item : StPair) : (admitItem r n item g).2.1 = item.expected := by
  unfold admitItem
  cases hfirst : g.firstClient with
  | true => rfl
  | false =>
    cases r with
    | server => rfl
    | client =>
      have hopen := h rfl
      unfold Globals.gateClosed at hopen
      rw [hfirst] at hopen
      cases hsecond : g.secondClient with
      | false => rfl
      | true =>
        rw [hsecond] at hopen
        cases hack : g.urlack with
        | true => rfl
        | false =>
          rw [hack] at hopen
          cases hopen

theorem admitItem_of_closed {g : Globals} (h : g.gateClosed = true) (n : ℕ) (item : StPair) :
    (admitItem .client n item g).2.1 = intMax := by
  unfold Globals.gateClosed at h
  simp only [Bool.and_eq_true, Bool.not_eq_true'] at h
  simp [admitItem, h.1.1, h.1.2, h.2]

/-- **An event of the replay that reads `n` bytes**: entries are only added to those behind, what
they send is committed, and what is read is counted. -/
structure Advance (T : Tables) (r : Role) (n : ℕ) (e e' : Endpoint σ β) : Prop where
  cluster : e'.g.clusterId = e.g.clusterId
  behind : e.behind T r <+: e'.behind T r
  committed : e.committed + bytes r.isPos (e'.behind T r) ≤
    e'.committed + bytes r.isPos (e.behind T r)
  tally : e.tally T r + n ≤ e'.tally T r

/-- Without a load event the transcript only ends behind the last entry. -/
theorem behind_of_planItem_eq_none (hat : AtCursor T r e) (hcluster : 0 < e.g.clusterId)
    (hload : e.g.onloadFlag = false) (hnone : (planItem T r inp e).1 = none) :
    e.behind T r = ownItems T r e.g.clusterId := by
  -- without a load event nothing but the cursor can have ended the transcript
  have hmoved : (advanceCursor T r e).g.curItem = none := by
    have hload' : (advanceCursor T r e).g.onloadFlag = false := by
      unfold advanceCursor
      dsimp only
      split
      · exact hload
      · rw [moveToNextStItem_eq]
        exact hload
    unfold planItem at hnone
    dsimp only at hnone
    cases hcur : (advanceCursor T r e).g.curItem with
    | none => rfl
    | some item =>
      rw [hcur] at hnone
      dsimp only at hnone
      rw [if_pos hload'] at hnone
      cases hnone
  unfold advanceCursor at hmoved
  dsimp only at hmoved
  split at hmoved
  · rename_i hwait
    obtain ⟨x, hx, -⟩ := hat hwait
    rw [hmoved] at hx
    cases hx
  · rename_i hwait
    rw [behind_of_not_waiting T r (Bool.eq_false_iff.mpr hwait)]
    exact ((upto_moveToNextStItem T r hcluster).2 hmoved).2

/-- A slot that ends the transcript without a load event passes no entry. -/
theorem behind_of_ends (he : CursorInv T r e) (hp : slotPlan T r inp e = .ends)
    (hload : e.g.onloadFlag = false) (h : EndSlot T r e e') : e'.behind T r = e.behind T r := by
  have hall : e.behind T r = ownItems T r e.g.clusterId := by
    obtain ⟨hsame, -, -, -⟩ := sameScript_unloadStep inp.now e
    have hload0 : (unloadStep inp.now e).g.onloadFlag = false :=
      (congrArg Script.onloadFlag hsame.script).trans hload
    have hid0 : (unloadStep inp.now e).g.clusterId = e.g.clusterId :=
      congrArg Script.clusterId hsame.script
    have hnone : (planItem T r inp (unloadStep inp.now e)).1 = none := by
      unfold slotPlan at hp
      dsimp only at hp
      split at hp
      · split at hp
        · assumption
        · cases hp
      · cases hp
    rw [← (behind_of_sameScript T r hsame).2, ← hid0]
    exact behind_of_planItem_eq_none (atCursor_of_sameScript hsame he.cursor)
      (by rw [hid0]; exact he.reached.cluster h.mode) hload0 hnone
  -- nothing is left behind which the cursor could move
  have hprefix := behind_prefix T r e'
  rw [h.cluster, ← hall] at hprefix
  have hsub := h.behind he.cursor
  rw [← behind_of_not_waiting T r h.waiting] at hsub
  exact hprefix.eq_of_length_le hsub.length_le

/-- An event that passes no entry and counts nothing. -/
theorem Advance.of_still (hcluster : e'.g.clusterId = e.g.clusterId)
    (hbehind : e'.behind T r = e.behind T r) (hcommitted : e.committed ≤ e'.committed)
    (hreceived : e'.g.receivedSofar = e.g.receivedSofar) : Advance T r 0 e e' := by
  refine ⟨hcluster, hbehind ▸ List.prefix_refl _, ?_, ?_⟩
  · rw [hbehind]
    omega
  · unfold Endpoint.tally
    rw [hbehind, hreceived]
    omega

/-- A slot that lets an entry go: it is granted its size at least, and what it expects is used
up. -/
theorem advance_entry {x : Planned} (h : ItemSlot T r inp e e' x) (he : CursorInv T r e)
    (hwait : x.verdict ≠ .wait) (hcommitted : e.committed + x.size ≤ e'.committed)
    (hgate : x.verdict = .go → r = .client → e.g.gateClosed = false) : Advance T r 0 e e' := by
  have hbehind := h.behind_eq he.cursor
  rw [if_neg hwait] at hbehind
  refine ⟨h.cluster, hbehind ▸ List.prefix_append _ _, ?_, ?_⟩
  · have hgrant : (x.item.size.natAbs : ℤ) ≤ x.size := by
      rw [h.size, if_neg hwait, admitItem_size, Int.natCast_natAbs, ← itemSize_eq_abs h.own]
      split <;> omega
    rw [hbehind, bytes_append, bytes_cons, if_pos h.own, bytes_nil, Nat.cast_add, Nat.cast_add,
      Nat.cast_zero]
    omega
  · unfold Endpoint.tally
    rw [hbehind, expectedBytes_append, expectedBytes_singleton, h.received]
    split
    · -- the counter pays for what the entry expects
      rename_i hgo
      have hopen := admitItem_of_open (hgate hgo) 0 x.item
      have hle := waitVerdict_eq_go.mp (h.verdict.symm.trans hgo)
      rw [hopen] at hle ⊢
      omega
    · omega

/-- **A slot of the replay**, when no load event was seen and no closed gate is passed. -/
theorem advance_slot (h : slot c T r inp e = .returned e') (he : CursorInv T r e)
    (hmode : e.g.stmode = .supertrace) (hload : e.g.onloadFlag = false)
    (hgate : ∀ x, slotPlan T r inp e = .entry x → x.verdict = .go → r = .client →
      e.g.gateClosed = false) : Advance T r 0 e e' := by
  have hplan := slot_cursor h he.reached
  have hcommitted := committed_slot h he.reached hmode
  cases hp : slotPlan T r inp e with
  | nothing =>
    rw [hp] at hplan hcommitted
    have hscript := hplan.same.script
    exact .of_still (congrArg Script.clusterId hscript) (behind_of_sameScript T r hplan.same).2
      ((add_zero _).symm.trans_le hcommitted) (congrArg Script.receivedSofar hscript)
  | ends =>
    rw [hp] at hplan hcommitted
    exact .of_still hplan.cluster (behind_of_ends he hp hload hplan)
      ((add_zero _).symm.trans_le hcommitted) hplan.received
  | entry x =>
    rw [hp] at hplan hcommitted
    by_cases hwait : x.verdict = .wait
    · -- an entry that waits is granted nothing
      have hbehind := hplan.behind_eq he.cursor
      have hreceived := hplan.received
      have hzero : x.size = 0 := hplan.size.trans (if_pos hwait)
      rw [if_pos hwait] at hbehind
      rw [if_neg (by rw [hwait]; decide)] at hreceived
      have hcommitted : e.committed + x.size ≤ e'.committed := hcommitted
      exact .of_still hplan.cluster hbehind (by omega) hreceived
    · exact advance_entry hplan he hwait hcommitted (hgate x hp)

/-! ## Events that are no slots -/

/-- **An event that sets flags.** -/
theorem advance_flag {ev : EndpointEvent} (h : endpointStep c T r e ev = some e')
    (hev : ∀ inp, ev ≠ .slot inp) (hflag : FlagStep ev e e') : Advance T r ev.bytesRead e e' := by
  have hoff := offSlot_endpointStep h hev
  have hbehind := (hflag.behind T r).2
  refine ⟨hflag.clusterId, hbehind ▸ List.prefix_refl _, ?_, ?_⟩
  · unfold Endpoint.committed
    rw [hbehind, hoff.wire, hflag.w2w]
  · unfold Endpoint.tally
    rw [hbehind, hoff.counted hflag.page]
    omega

theorem Advance.refl (T : Tables) (r : Role) (e : Endpoint σ β) : Advance T r 0 e e :=
  ⟨rfl, List.prefix_refl _, le_rfl, le_rfl⟩

/-- What is committed is not taken back. -/
theorem Advance.committed_le {n : ℕ} (h : Advance T r n e e') : e.committed ≤ e'.committed := by
  obtain ⟨t, ht⟩ := h.behind
  have hcommitted := h.committed
  rw [← ht, bytes_append] at hcommitted
  push_cast at hcommitted
  omega

end CSBuFLO
