/-
# The early stop of a transcript

After a load event a slot of transcript mode may end the page early: `should_jump_trans_end`
compares a random number with the stop probability of the current entry.  The comparison stands
in the condition of the slot that also handles waiting.  An entry that waits is the current entry
of every slot until it is let go, and each of these slots draws again.

The log of a run counts the comparisons made for the entry `move_to_next_st_item` delivered last.
`DrawsToSend` is the condition under which there is at most one: an entry that was compared and
is to be sent does not wait.
-/
import CSBuFLO.Cursor

namespace CSBuFLO

variable {σ β : Type}

/-! ## The comparison -/

/-- Whether a slot that begins in `e` compares its draw with the stop probability. -/
def drawsStop (T : Tables) (r : Role) (e : Endpoint σ β) : Bool :=
  let g := (advanceCursor T r e).g
  g.curItem.isSome && g.onloadFlag && decide (0 ≤ g.clusterId) && !g.transcriptEnd

theorem drawsStop_eq (T : Tables) (r : Role) (e : Endpoint σ β) :
    drawsStop T r e = ((advanceCursor T r e).g.curItem.isSome &&
      e.ctl.onload && decide (0 ≤ e.ctl.clusterId) && !e.ctl.transcriptEnd) := by
  rw [← ctl_advanceCursor T r e]
  rfl

variable {T : Tables} {e e' : Endpoint σ β} {r : Role}

/-- A slot that makes no comparison does the same for every draw. -/
theorem planItem_of_not_drawsStop (h : drawsStop T r e = false) (inp inp' : SlotInput) :
    planItem T r inp e = planItem T r inp' e := by
  unfold drawsStop at h
  dsimp only at h
  unfold planItem
  dsimp only
  cases hcur : (advanceCursor T r e).g.curItem with
  | none => rfl
  | some item =>
    dsimp only
    by_cases hload : (advanceCursor T r e).g.onloadFlag = false
    · rw [if_pos hload, if_pos hload]
    · rw [if_neg hload, if_neg hload]
      have hend : (advanceCursor T r e).g.clusterId < 0 ∨
          (advanceCursor T r e).g.transcriptEnd = true := by
        rw [hcur, Bool.eq_true_of_not_eq_false hload] at h
        by_contra hno
        push Not at hno
        simp [hno.1, Bool.eq_false_of_not_eq_true hno.2] at h
      have hjump : ∀ rand, shouldJumpTransEnd rand (advanceCursor T r e).g =
          (true, (advanceCursor T r e).g) := by
        intro rand
        unfold shouldJumpTransEnd
        rw [hcur]
        rcases hend with hid | htend
        · rw [if_pos hid]
        · dsimp only
          rw [if_pos htend, ite_self]
      rw [hjump, hjump]

theorem shouldJumpTransEnd_fst {g : Globals} {item : StPair} (hid : 0 ≤ g.clusterId)
    (hcur : g.curItem = some item) (htend : g.transcriptEnd = false) (rand : ℕ) :
    (shouldJumpTransEnd rand g).1 = decide (rand % 100 < item.sprob) := by
  unfold shouldJumpTransEnd
  rw [if_neg (not_lt.mpr hid), hcur]
  dsimp only
  rw [htend, if_neg Bool.false_ne_true]
  split
  · rename_i hdraw
    exact (decide_eq_true hdraw).symm
  · rename_i hdraw
    exact (decide_eq_false hdraw).symm

/-- A slot that makes the comparison stops exactly if the draw is below the probability. -/
theorem planItem_eq_none_of_drawsStop {item : StPair} (h : drawsStop T r e = true)
    (hcur : (advanceCursor T r e).g.curItem = some item) (inp : SlotInput) :
    (planItem T r inp e).1 = none ↔ inp.rand % 100 < item.sprob := by
  unfold drawsStop at h
  simp only [Bool.and_eq_true, decide_eq_true_eq, Bool.not_eq_true'] at h
  obtain ⟨⟨⟨-, hload⟩, hid⟩, htend⟩ := h
  unfold planItem
  dsimp only
  rw [hcur]
  dsimp only
  rw [if_neg (by rw [hload]; decide), shouldJumpTransEnd_fst hid hcur htend]
  by_cases hdraw : inp.rand % 100 < item.sprob
  · simp [hdraw]
  · simp [hdraw]

/-- **One draw.**  Of the 100 values of a draw, as many stop the transcript as the probability
of the entry says. -/
theorem card_stopping_draws {item : StPair} (h : drawsStop T r e = true)
    (hcur : (advanceCursor T r e).g.curItem = some item) (inp : SlotInput) :
    ((Finset.range 100).filter fun v => (planItem T r { inp with rand := v } e).1 = none).card =
      min 100 item.sprob := by
  have hfilter : ((Finset.range 100).filter fun v =>
      (planItem T r { inp with rand := v } e).1 = none) = Finset.range (min 100 item.sprob) := by
    ext v
    rw [Finset.mem_filter, Finset.mem_range, Finset.mem_range,
      planItem_eq_none_of_drawsStop h hcur]
    dsimp only
    constructor
    · rintro ⟨hlt, hdraw⟩
      rw [Nat.mod_eq_of_lt hlt] at hdraw
      omega
    · intro hlt
      rw [Nat.mod_eq_of_lt (by omega)]
      omega
  rw [hfilter, Finset.card_range]

/-! ## The log -/

/-- Whether a slot compares its draw with the stop probability. -/
def slotDraws (T : Tables) (r : Role) (inp : SlotInput) (e : Endpoint σ β) : Bool :=
  slotPlan T r inp e != .nothing && drawsStop T r (unloadStep inp.now e)

/-- The number of comparisons made for the entry delivered last, after an event.  A slot that
does not find the end waiting calls `move_to_next_st_item` first. -/
def drawLog (T : Tables) (r : Role) (e : Endpoint σ β) (ev : EndpointEvent) (_ : Endpoint σ β)
    (n : ℕ) : ℕ :=
  match ev with
  | .slot inp =>
    if slotPlan T r inp e = .nothing then n
    else (if e.loop.waitingForAPacket then n else 0) + if slotDraws T r inp e then 1 else 0
  | _ => n

theorem drawLog_of_draws {inp : SlotInput} (h : slotDraws T r inp e = true) (e' : Endpoint σ β)
    (n : ℕ) : drawLog T r e (.slot inp) e' n = (if e.loop.waitingForAPacket then n else 0) + 1 := by
  unfold drawLog
  dsimp only
  rw [if_neg (bne_iff_ne.mp (Bool.and_eq_true_iff.mp h).1), if_pos h]

/-- An entry whose stop probability was compared, and that is to be sent, does not wait. -/
def DrawsToSend (T : Tables) (r : Role) (x : Endpoint σ β × ℕ) (ev : EndpointEvent)
    (_ : Endpoint σ β × ℕ) : Prop :=
  ∀ inp y, ev = .slot inp → slotDraws T r inp x.1 = true → slotPlan T r inp x.1 = .entry y →
    y.verdict ≠ .wait

/-- `DrawsToSend`, computed. -/
def drawsToSend (T : Tables) (r : Role) (x : Endpoint σ β × ℕ) (ev : EndpointEvent)
    (_ : Endpoint σ β × ℕ) : Bool :=
  match ev with
  | .slot inp =>
    match slotPlan T r inp x.1 with
    | .entry y => !slotDraws T r inp x.1 || y.verdict != .wait
    | _ => true
  | _ => true

theorem drawsToSend_sound {x x' : Endpoint σ β × ℕ} {ev : EndpointEvent}
    (h : drawsToSend T r x ev x' = true) : DrawsToSend T r x ev x' := by
  rintro inp y rfl hdraws hplan
  unfold drawsToSend at h
  dsimp only at h
  rw [hplan, hdraws] at h
  simpa using h

/-- The entry of an end that waits was not compared yet, and no entry more than once. -/
structure DrawInv (r : Role) (e : Endpoint σ β) (n : ℕ) : Prop where
  reached : Reached r e
  waiting : e.loop.waitingForAPacket = true → n = 0
  once : n ≤ 1

/-- A slot that meets the condition keeps the invariant. -/
theorem DrawInv.afterSlot {c : Codec σ β} {inp : SlotInput} {n : ℕ} (h : DrawInv r e n)
    (hG : ∀ y, slotDraws T r inp e = true → slotPlan T r inp e = .entry y → y.verdict ≠ .wait)
    (hs : slot c T r inp e = .returned e') : DrawInv r e' (drawLog T r e (.slot inp) e' n) := by
  have he' := reached_slot hs h.reached
  have hplan := slot_cursor hs h.reached
  have hbefore : (if e.loop.waitingForAPacket then n else 0) = 0 := by
    split
    · rename_i hw
      exact h.waiting hw
    · rfl
  unfold drawLog
  dsimp only
  rw [hbefore]
  cases hp : slotPlan T r inp e with
  | nothing =>
    rw [hp] at hplan
    rw [if_pos rfl]
    exact ⟨he', fun hw => h.waiting (hplan.same.waiting.symm.trans hw), h.once⟩
  | ends =>
    rw [hp] at hplan
    rw [if_neg (by decide)]
    refine ⟨he', fun hw => absurd (hplan.waiting.symm.trans hw) (by decide), ?_⟩
    split <;> omega
  | entry y =>
    rw [hp] at hplan
    rw [if_neg (fun hc => (nomatch hc))]
    refine ⟨he', fun hw => ?_, by split <;> omega⟩
    have hwait : y.verdict = .wait := of_decide_eq_true (hplan.waiting.symm.trans hw)
    rw [if_neg (fun hdraws => hG y hdraws hp hwait)]

/-- **Every event that meets the condition keeps the invariant.** -/
theorem DrawInv.endpointStep {c : Codec σ β} {ev : EndpointEvent} {n : ℕ} (h : DrawInv r e n)
    (hG : DrawsToSend T r (e, n) ev (e', drawLog T r e ev e' n))
    (hs : endpointStep c T r e ev = some e') : DrawInv r e' (drawLog T r e ev e' n) := by
  have he' := reached_endpointStep hs h.reached
  rcases endpointStep_cases hs with ⟨inp, rfl, hslot⟩ | ⟨hno, hflag⟩ | ⟨hpage, hev⟩
  · exact h.afterSlot (fun y => hG inp y rfl) hslot
  · have hlog : drawLog T r e ev e' n = n := by
      cases ev with
      | slot inp => exact absurd rfl (hno inp)
      | _ => rfl
    rw [hlog]
    exact ⟨he', fun hw => h.waiting (hflag.waiting.symm.trans hw), h.once⟩
  · obtain ⟨p, -, rfl⟩ | ⟨ts, payload, beyond, u, rfl, -⟩ := hev
    · exact ⟨he', fun hw => h.waiting (hpage.waiting.symm.trans hw), h.once⟩
    · exact ⟨he', fun hw => h.waiting (hpage.waiting.symm.trans hw), h.once⟩

/-! ### Slots that break the condition -/

/-- A slot that treats an entry leaves the control view alone. -/
theorem ctl_of_entry {c : Codec σ β} {inp : SlotInput} {y : Planned}
    (hs : slot c T r inp e = .returned e') (hplan : slotPlan T r inp e = .entry y) :
    e'.ctl = e.ctl := by
  unfold slotPlan at hplan
  dsimp only at hplan
  split at hplan
  · rename_i hcond
    obtain ⟨hmode, hsend⟩ := hcond
    cases hitem : (planItem T r inp (unloadStep inp.now e)).1 with
    | none =>
      rw [hitem] at hplan
      cases hplan
    | some item =>
      obtain ⟨hno, -⟩ | ⟨-, e1, g, p, incoming, hdec, hpoll, rfl⟩ := slot_eq_returned hs
      · exact absurd (hsend.symm.trans hno) (by decide)
      · have hctl : (planItem T r inp (unloadStep inp.now e)).2.ctl =
            (unloadStep inp.now e).ctl := by
          rw [planItem_eq]
          rfl
        rw [decideSlot_eq_decided c hmode
          (fun hnone => by rw [hitem] at hnone; cases hnone)] at hdec
        obtain rfl := Option.some.inj hdec
        rw [ctl_accountSent, ctl_packetWritePoll hpoll]
        unfold decided
        rw [hitem]
        exact (ctl_scheduleItem r inp _ item _).trans (hctl.trans (ctl_unloadStep inp.now e))
  · cases hplan

/-- **A waiting entry is drawn for again.**  If a slot compares its draw and its entry still
waits, the next slot that sends compares a second one with the same entry. -/
theorem drawn_again {c : Codec σ β} {inp inp' : SlotInput} {y : Planned} (he : Reached r e)
    (hs : slot c T r inp e = .returned e') (hdraws : slotDraws T r inp e = true)
    (hplan : slotPlan T r inp e = .entry y) (hwait : y.verdict = .wait)
    (hsend : shouldSend r inp' (unloadStep inp'.now e') = true) :
    e'.loop.waitingForAPacket = true ∧ slotDraws T r inp' e' = true := by
  have hslot := slot_cursor hs he
  rw [hplan] at hslot
  have hctl := ctl_of_entry hs hplan
  have hwaiting : e'.loop.waitingForAPacket = true :=
    hslot.waiting.trans (decide_eq_true hwait)
  refine ⟨hwaiting, ?_⟩
  obtain ⟨hsame, -, hmode, -⟩ := sameScript_unloadStep inp'.now e'
  have hcur : (advanceCursor T r (unloadStep inp'.now e')).g.curItem = some y.item := by
    have hstays : (advanceCursor T r (unloadStep inp'.now e')).g = (unloadStep inp'.now e').g :=
      if_pos (hsame.waiting.trans hwaiting)
    rw [hstays]
    exact (congrArg Script.curItem hsame.script).trans hslot.cursor
  have hflags := (Bool.and_eq_true_iff.mp hdraws).2
  rw [drawsStop_eq, ctl_unloadStep, ← hctl, ← ctl_unloadStep inp'.now e'] at hflags
  have hdraws' : drawsStop T r (unloadStep inp'.now e') = true := by
    rw [drawsStop_eq, hcur]
    simp only [Bool.and_eq_true] at hflags ⊢
    exact ⟨⟨⟨rfl, hflags.1.1.2⟩, hflags.1.2⟩, hflags.2⟩
  have hplan' : slotPlan T r inp' e' ≠ .nothing := by
    unfold slotPlan
    dsimp only
    rw [if_pos ⟨hmode.trans hslot.mode', hsend⟩]
    split <;> exact fun hno => (nomatch hno)
  unfold slotDraws
  rw [hdraws', Bool.and_true]
  exact bne_iff_ne.mpr hplan'

/-! ## Runs -/

/-- **The stop probability of an entry is applied once.**  In every run of an end, with any peer,
clock and draws, in which no entry waits after its comparison, there is at most one comparison for
each entry delivered; after a slot that breaks the condition, every slot that sends next makes a
second one.  A single comparison ends the transcript for as many of the 100 values of its draw as
the probability says. -/
theorem stop_drawn_once (c : Codec σ β) (T : Tables) (r : Role) (snd : σ)
    (evs : List EndpointEvent)
    (hG : Transition.Along (Transition.logStep (endpointStep c T r) (drawLog T r))
      (DrawsToSend T r) (({ pkt := { snd := snd } } : Endpoint σ β), 0) evs) :
    Transition.Along (Transition.logStep (endpointStep c T r) (drawLog T r))
        (fun _ _ x' => x'.2 ≤ 1) (({ pkt := { snd := snd } } : Endpoint σ β), 0) evs ∧
      (∀ (e e' e'' : Endpoint σ β) (inp inp' : SlotInput) (y : Planned) (n : ℕ), Reached r e →
        slot c T r inp e = .returned e' → slotDraws T r inp e = true →
        slotPlan T r inp e = .entry y → y.verdict = .wait →
        shouldSend r inp' (unloadStep inp'.now e') = true →
        2 ≤ drawLog T r e' (.slot inp') e'' (drawLog T r e (.slot inp) e' n)) ∧
      ∀ (e : Endpoint σ β) (item : StPair) (inp : SlotInput), drawsStop T r e = true →
        (advanceCursor T r e).g.curItem = some item →
        ((Finset.range 100).filter fun v =>
          (planItem T r { inp with rand := v } e).1 = none).card = min 100 item.sprob := by
  refine ⟨?_, ?_, fun e item inp h hcur => card_stopping_draws h hcur inp⟩
  · refine Transition.along_of_inv (G := DrawsToSend T r) (I := fun x => DrawInv r x.1 x.2) ?_ hG
      ⟨reached_init r snd, fun _ => rfl, by omega⟩
    rintro ⟨e, n⟩ ev ⟨e', n'⟩ hi hg hlog
    obtain ⟨hs, rfl⟩ := Transition.logStep_eq_some.mp hlog
    have hinv := hi.endpointStep hg hs
    exact ⟨hinv, hinv.once⟩
  · intro e e' e'' inp inp' y n he hs hdraws hplan hwait hsend
    obtain ⟨hwaiting, hagain⟩ := drawn_again he hs hdraws hplan hwait hsend
    have hfirst : 1 ≤ drawLog T r e (.slot inp) e' n := by
      rw [drawLog_of_draws hdraws]
      omega
    rw [drawLog_of_draws hagain, if_pos hwaiting]
    omega

/-- A page whose second client entry stops with probability one half. -/
def coinPage : Tables where
  clusters := ⟨fun _ => [([97], 1)], Hashmap.pos_pageA⟩
  straces _ := [⟨-400, 50, 0, 0⟩, ⟨100, 50, 0, 400⟩, ⟨-300, 50, 50, 100⟩]

/-- The steps of a client on such a page, with the log. -/
abbrev coinStep :
    Endpoint (SendState Unit) UInt8 × ℕ → EndpointEvent →
      Option (Endpoint (SendState Unit) UInt8 × ℕ) :=
  Transition.logStep (endpointStep plainCodec coinPage .client) (drawLog coinPage .client)

/-- A slot that draws `v`. -/
def drawSlot (t v : ℕ) : EndpointEvent := .slot { openSlot t with rand := v }

/-- A load event of the browser. -/
def loadEvent : EndpointEvent := .socks fun i => [5, 4].getD i 0

/-- The page is loaded, and the second entry has all it waits for. -/
def answeredPage : List EndpointEvent :=
  [.socks (urlRequest 97), .slot (openSlot 100000), .received 128, notified .urlack, loadEvent]

/-- The second entry is compared, once, and sent. -/
theorem stop_drawn_once_answeredPage :
    ∃ x x', Transition.run coinStep (plainEndpoint, 0) answeredPage = some x ∧
      coinStep x (drawSlot 200000 99) = some x' ∧
      slotDraws coinPage .client { openSlot 200000 with rand := 99 } x.1 = true ∧ x'.2 ≤ 1 := by
  refine Transition.exists_run_step_and (by decide +kernel) fun hx hx' _ => ?_
  have hguard : Transition.Along coinStep (DrawsToSend coinPage .client) (plainEndpoint, 0)
      (answeredPage ++ [drawSlot 200000 99]) :=
    Transition.Along.imp (P := fun x ev x' => drawsToSend coinPage .client x ev x' = true)
      (fun _ _ _ => drawsToSend_sound) (by decide +kernel)
  exact (stop_drawn_once _ _ _ _ _ hguard).1.last hx hx'

/-- The page is loaded while the second entry waits, and its first draw lets the page go on. -/
def blockedPage : List EndpointEvent :=
  [.socks (urlRequest 97), .slot (openSlot 100000), .slot (openSlot 200000), loadEvent,
    drawSlot 300000 99]

/-- **A waiting entry is drawn for again.**  The first draw of the second entry says that the page
goes on; the next slot still finds the entry waiting, draws a second time and ends the page.  Every
slot writes only if the loop had asked for the connection. -/
theorem stop_drawn_twice :
    ∃ x x', Transition.run coinStep (plainEndpoint, 0) blockedPage = some x ∧
      coinStep x (drawSlot 400000 0) = some x' ∧
      Transition.Along coinStep (fun x ev _ => ev.asked x.1 = true) (plainEndpoint, 0)
        (blockedPage ++ [drawSlot 400000 0]) ∧
      x.1.g.curItem = some ⟨-300, 50, 50, 100⟩ ∧
      x.1.loop.waitingForAPacket = true ∧ x.2 = 1 ∧ x'.2 = 2 ∧
      slotPlan coinPage .client { openSlot 400000 with rand := 0 } x.1 = .ends :=
  Transition.exists_run_step (by decide +kernel)

end CSBuFLO
