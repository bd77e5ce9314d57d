/-
# The byte budget of a page

The number of bytes an end may write, `w2w`, is one variable for all three modes.  Normal mode
keeps it at 0, transcript mode adds the entries of the trace to it, and csbuflo mode sets it to
`TARGET_QUEUE_LEN` in every slot.

A client starts a page in normal mode only.  A server starts one when the URL arrives, in
whatever mode it is; if that is csbuflo mode, the page starts with the bytes of the last
csbuflo slot.  `RestedServer` excludes this.
-/
import CSBuFLO.Pages

namespace CSBuFLO

variable {κ σ β : Type}

/-! ## Normal mode has no budget -/

variable {e e' : Endpoint σ β} {inp : SlotInput} {r : Role}

/-- The transcript part of a slot only leaves for normal mode with an empty budget. -/
theorem w2w_transcriptSlot {c : Codec σ β} {T : Tables} {n : ℕ}
    (h : transcriptSlot c T r inp n e = some e') (hmode : e.g.stmode = .supertrace)
    (hnormal : e'.g.stmode = .normal) : e'.g.w2w = 0 := by
  have hmode1 : (planItem T r inp e).2.g.stmode = .supertrace :=
    (stmode_planItem T r inp e).trans hmode
  rw [transcriptSlot_eq] at h
  split at h
  · by_cases hw : (planItem T r inp e).2.g.w2w = 0
    · rw [(sameScript_endTranscript h).2.1, hw]
    · rw [endTranscript_of_budget c r inp n hw] at h
      rw [← Option.some.inj h] at hnormal
      exact absurd (hmode1.symm.trans hnormal) (by decide)
  · rw [← Option.some.inj h, stmode_scheduleItem, hmode1] at hnormal
    cases hnormal

theorem stmode_idleBudget (n : ℕ) (e : Endpoint σ β) : (idleBudget n e).g.stmode = e.g.stmode := by
  unfold idleBudget
  split
  · rfl
  · dsimp only
    split <;> rfl

/-- The csbuflo part of a slot clears the budget when it leaves for normal mode. -/
theorem w2w_csbufloSlot {c : Codec σ β} {n : ℕ} (h : csbufloSlot c r inp n e = some e')
    (hw : e.g.stmode = .normal → e.g.w2w = 0) (hnormal : e'.g.stmode = .normal) : e'.g.w2w = 0 := by
  cases csbufloStep_csbufloSlot h with
  | other _ _ he =>
    rw [he] at hnormal ⊢
    exact hw hnormal
  | busy hmode _ he =>
    rw [he] at hnormal
    exact absurd (hmode.symm.trans hnormal) (by decide)
  | ends _ _ _ e1 hleave he =>
    -- the totals are reset, so that the idle budget is 0
    have htotal : e1.loop.totalSentBytes = 0 := congrArg Prod.fst (totals_leaveCsbuflo hleave)
    rw [he]
    unfold idleBudget
    rw [if_pos htotal]
    rfl
  | idle hmode _ _ he =>
    rw [he, stmode_idleBudget] at hnormal
    exact absurd (hmode.symm.trans hnormal) (by decide)

/-- **A slot that ends in normal mode leaves no budget.** -/
theorem w2w_slot {c : Codec σ β} {T : Tables} (h : slot c T r inp e = .returned e')
    (hw : e.g.stmode = .normal → e.g.w2w = 0) (hnormal : e'.g.stmode = .normal) : e'.g.w2w = 0 := by
  obtain ⟨-, hw0, hmode0, -⟩ := sameScript_unloadStep inp.now e
  rw [← hw0, ← hmode0] at hw
  rcases slot_eq_returned h with ⟨-, rfl⟩ | ⟨-, e1, g, p, incoming, hdec, hpoll, rfl⟩
  · rw [(skipSlot_sameScript _).2] at hnormal ⊢
    exact hw hnormal
  generalize unloadStep inp.now e = e0 at hdec hw hnormal ⊢
  have hframe := writeFrame_packetWritePoll c inp.poll e1.g e1.pkt
  rw [hpoll] at hframe
  have hacc := (sameScript_accountSent r inp e0.pkt.outputLen incoming e1.pkt.outputLen
    { e1 with g := g, pkt := p }).2
  have hctl := (ctl_accountSent r inp e0.pkt.outputLen incoming e1.pkt.outputLen
    { e1 with g := g, pkt := p }).trans (ctl_packetWritePoll hpoll)
  have hnormal1 : e1.g.stmode = .normal := (congrArg Ctl.stmode hctl).symm.trans hnormal
  obtain ⟨e2, h2, h3⟩ := Option.bind_eq_some_iff.mp hdec
  have hw2 : e2.g.stmode = .normal → e2.g.w2w = 0 := by
    intro hnormal2
    split at h2
    · rename_i hmode
      exact w2w_transcriptSlot h2 hmode hnormal2
    · obtain rfl := Option.some.inj h2
      exact hw hnormal2
  have hw1 := w2w_csbufloSlot h3 hw2 hnormal1
  rw [hacc]
  rcases hframe.w2w with heq | hzero
  · exact heq.trans hw1
  · exact hzero

/-! ## The budget at the start of a page -/

/-- There is no budget in normal mode, nor in a page before its first entry is scheduled. -/
structure BudgetInv (T : Tables) (r : Role) (e : Endpoint σ β) : Prop where
  normal : e.g.stmode = .normal → e.g.w2w = 0
  start : e.g.stmode = .supertrace → e.behind T r = [] → e.g.w2w = 0

/-- A slot keeps the invariant. -/
theorem BudgetInv.afterSlot {c : Codec σ β} {T : Tables} (h : BudgetInv T r e)
    (he : CursorInv T r e) (hs : slot c T r inp e = .returned e') : BudgetInv T r e' := by
  refine ⟨w2w_slot hs h.normal, fun hmode hnil => ?_⟩
  have hplan := slot_cursor hs he.reached
  cases hp : slotPlan T r inp e with
  | nothing =>
    rw [hp] at hplan
    have hmode0 := hplan.mode.mp hmode
    rw [(hplan.stay hmode0).1]
    exact h.start hmode0 ((behind_of_sameScript T r hplan.same).2.symm.trans hnil)
  | ends =>
    rw [hp] at hplan
    rw [behind_of_not_waiting T r hplan.waiting] at hnil
    have hbehind := hplan.behind he.cursor
    rw [hnil, List.prefix_nil] at hbehind
    rcases hplan.stay hmode with heq | hzero
    · exact heq.trans (h.start hplan.mode hbehind)
    · exact hzero
  | entry x =>
    rw [hp] at hplan
    rw [hplan.behind_eq he.cursor] at hnil
    by_cases hv : x.verdict = .wait
    · rw [if_pos hv] at hnil
      have hsize : x.size = 0 := hplan.size.trans (if_pos hv)
      rcases hplan.w2w with heq | hzero
      · rw [heq, hsize, h.start hplan.mode hnil]
        rfl
      · exact hzero
    · rw [if_neg hv] at hnil
      exact absurd hnil (by simp)

/-- What a slot grants for an entry: the first one is granted its size or what is queued, on
an empty budget, and every other one its size. -/
structure Granted (e e' : Endpoint σ β) (x : Planned) : Prop where
  empty : x.number = 1 → e.g.w2w = 0
  first : x.number = 1 → x.size ≤ max |x.item.size| e.pkt.outputLen
  other : x.number ≠ 1 → x.verdict ≠ .wait → x.size = |x.item.size|
  budget : e'.g.w2w = e.g.w2w + x.size ∨ e'.g.w2w = 0

theorem itemSize_eq_abs {item : StPair} (h : ownItem r.isPos item = true) :
    r.itemSize item = |item.size| := by
  have hpos := itemSize_pos h
  cases r with
  | client =>
    show 0 - item.size = |item.size|
    have : 0 < 0 - item.size := hpos
    rw [abs_of_nonpos (by omega)]
    omega
  | server =>
    have : 0 < item.size := hpos
    exact (abs_of_pos this).symm

theorem BudgetInv.granted {T : Tables} {x : Planned} (h : BudgetInv T r e) (he : CursorInv T r e)
    (hx : ItemSlot T r inp e e' x) : Granted e e' x := by
  have hsize := hx.size
  rw [admitItem_size, itemSize_eq_abs hx.own] at hsize
  refine ⟨fun hone => h.start hx.mode ?_, fun _ => ?_, fun hmany hv => ?_, hx.w2w⟩
  · have := hx.number
    exact List.eq_nil_of_length_eq_zero (by omega)
  · rw [hsize]
    have := abs_nonneg x.item.size
    split_ifs <;> omega
  · have hfirst : e.g.firstClient ≠ true := fun hf => hmany (number_eq_one he hx hf)
    rw [hsize, if_neg hv, if_neg hfirst]

/-! ## Runs -/

/-- The server does not enter transcript mode from csbuflo mode. -/
def RestedServer (s : Network κ) (_ : NetEvent) (s' : Network κ) : Prop :=
  s'.server.ep.page ≠ s.server.ep.page → s'.server.ep.g.stmode = .supertrace →
    s.server.ep.g.stmode ≠ .csbuflo

instance (s : Network κ) (ev : NetEvent) (s' : Network κ) : Decidable (RestedServer s ev s') :=
  inferInstanceAs (Decidable (_ → _ → _))

/-- The property of one event: a page starts on an empty budget, and entries are granted as
they should. -/
def PageBudget (S : Setup κ) (s : Network κ) (ev : NetEvent) (s' : Network κ) : Prop :=
  ∀ r, ((s'.side r).ep.page ≠ (s.side r).ep.page → (s'.side r).ep.g.stmode = .supertrace →
      (s'.side r).ep.g.w2w = 0) ∧
    ∀ inp x, ev = .slot r inp → slotPlan S.tables r inp (s.side r).ep = .entry x →
      Granted (s.side r).ep (s'.side r).ep x

/-- A page starts on an empty budget, if the server is not in csbuflo mode. -/
theorem w2w_pageStart {S : Setup κ} {s s' : Network κ} {ev : NetEvent} (hs : PagesInv S s)
    (hb : BudgetInv S.tables r (s.side r).ep) (hG : RestedServer s ev s')
    (h : netStep S s ev = some s') (hpage : (s'.side r).ep.page ≠ (s.side r).ep.page)
    (hmode : (s'.side r).ep.g.stmode = .supertrace) : (s'.side r).ep.g.w2w = 0 := by
  obtain ⟨ev', -, hstep, hrole⟩ := hs.start h hpage
  rw [hstep.w2w]
  cases r with
  | client =>
    obtain ⟨p, rfl⟩ := hrole
    exact hb.normal (hstep.request p rfl).2.1
  | server =>
    cases hm : s.server.ep.g.stmode with
    | normal => exact hb.normal hm
    | supertrace => exact ((hs.cursor .server).reached.done hm (hrole hm)).1
    | csbuflo => exact absurd hm (hG hpage hmode)

/-- **Every event of the connection** keeps the budgets and grants what it should. -/
theorem pageBudget_netStep {S : Setup κ} {s s' : Network κ} {ev : NetEvent} (hs : PagesInv S s)
    (hb : ∀ r, BudgetInv S.tables r (s.side r).ep) (hG : RestedServer s ev s')
    (h : netStep S s ev = some s') :
    (∀ r, BudgetInv S.tables r (s'.side r).ep) ∧ PageBudget S s ev s' := by
  refine ⟨fun r => ?_, fun r => ⟨w2w_pageStart hs (hb r) hG h, ?_⟩⟩
  · have hat := netStep_at h r
    cases hev : ev.at S s r with
    | none =>
      rw [hev] at hat
      dsimp only at hat
      rw [hat]
      exact hb r
    | some ev' =>
      rw [hev] at hat
      rcases endpointStep_cases hat with ⟨inp, rfl, hslot⟩ | ⟨-, hflag⟩ | ⟨hpage, -⟩
      · exact (hb r).afterSlot (hs.cursor r) hslot
      · refine ⟨fun hm => ?_, fun hm hnil => ?_⟩
        · rw [hflag.w2w]
          exact (hb r).normal (hflag.stmode.symm.trans hm)
        · rw [hflag.w2w]
          exact (hb r).start (hflag.stmode.symm.trans hm)
            ((hflag.behind S.tables r).2.symm.trans hnil)
      · have hne : (s'.side r).ep.page ≠ (s.side r).ep.page := by
          rw [hpage.page]
          omega
        refine ⟨fun hm => ?_, fun hm _ => w2w_pageStart hs (hb r) hG h hne hm⟩
        have hmode := hpage.stmode
        rw [hm] at hmode
        split at hmode <;> cases hmode
  · rintro inp x rfl hx
    have hslot := netStep_at h r
    have hev : (NetEvent.slot r inp).at S s r = some (.slot inp) := if_pos rfl
    rw [hev] at hslot
    have hplan := slot_cursor (endpointStep_slot.mp hslot) (hs.cursor r).reached
    rw [hx] at hplan
    exact (hb r).granted (hs.cursor r) hplan

/-- **Transcript mode starts with an empty budget.**  In every run of the connection in which
the server never enters transcript mode from csbuflo mode, a page starts with the budget 0 at
both ends, which is still 0 when its first entry is treated; the first entry is granted at
most its size or what is queued, and every later one exactly its size. -/
theorem page_budget (S : Setup κ) (s0 : Network κ) (h0 : s0.Fresh S) (evs : List NetEvent)
    (hG : Transition.Along (netStep S) RestedServer s0 evs) :
    Transition.Along (netStep S) (PageBudget S) s0 evs := by
  refine Transition.along_of_inv (G := RestedServer)
    (I := fun s => PagesInv S s ∧ ∀ r, BudgetInv S.tables r (s.side r).ep) ?_ hG ⟨h0.pages, ?_⟩
  · rintro s ev s' ⟨hpages, hb⟩ hg h
    obtain ⟨hb', hP⟩ := pageBudget_netStep hpages hb hg h
    exact ⟨⟨hpages.netStep h, hb'⟩, hP⟩
  · intro r
    obtain ⟨snd, hep⟩ := h0.side_eq r
    rw [hep]
    exact ⟨fun _ => rfl, fun _ _ => rfl⟩

/-- The second entry of a page is granted its 200 bytes. -/
theorem page_budget_ackedPage :
    ∃ s s', Transition.run (netStep (plainSetup oneAndTwo)) plainStart ackedPage = some s ∧
      netStep (plainSetup oneAndTwo) s (.slot .client (openSlot 400000)) = some s' ∧
      slotPlan oneAndTwo .client (openSlot 400000) s.client.ep =
        .entry ⟨⟨-200, 50, 0, 0⟩, 2, 200, .go⟩ ∧
      Granted s.client.ep s'.client.ep ⟨⟨-200, 50, 0, 0⟩, 2, 200, .go⟩ := by
  refine Transition.exists_run_step_and (by decide +kernel) fun hs hs' hplan => ?_
  have hall := page_budget _ plainStart (fresh_plainStart oneAndTwo)
    (ackedPage ++ [.slot .client (openSlot 400000)]) (by decide +kernel)
  exact (hall.last hs hs' .client).2 _ _ rfl hplan

/-- The page `a` has no trace, the page `b` has one. -/
def tracedSecond : Tables where
  clusters := ⟨fun _ => [([98], 1)], by simp⟩
  straces _ := [⟨-400, 50, 0, 0⟩, ⟨300, 50, 0, 400⟩]

/-- The page `a` in csbuflo mode, which a load event ends at the client while the server still
sends its data; then the client sends the URL of the page `b`.  Its load event and the end of its
padding reach the server together with that URL. -/
def busyServer : List NetEvent :=
  [.socks (urlRequest 97), .slot .client (shutSlot 50000), .slot .client (openSlot 100000),
    .socks fun i => [5, 4].getD i 0, .slot .client (openSlot 110000),
    .slot .client (openSlot 120000), .netInput .server 552, .parse .server 0 fun _ => 0,
    .data .server 0 (94 :: List.replicate 100 0), .slot .server (shutSlot 130000),
    .slot .server (openSlot 140000), .socks (urlRequest 98), .slot .client (openSlot 150000),
    .netInput .server 448, .parse .server 0 fun _ => 0, .parse .server 0 fun _ => 0,
    .parse .server 0 fun _ => 0]

/-- **A page that starts with the budget of csbuflo mode.**  The URL reaches the server in
csbuflo mode; the first entry of the page, of 300 bytes, is scheduled on top of the 548 bytes
of the last csbuflo slot.  Every slot of the run writes only if its loop had asked for the
connection. -/
theorem page_starts_with_csbuflo_budget :
    ∃ s s', Transition.run (netStep (plainSetup tracedSecond)) plainStart busyServer = some s ∧
      netStep (plainSetup tracedSecond) s (.parse .server 0 fun _ => 0) = some s' ∧
      Transition.Along (netStep (plainSetup tracedSecond)) (fun s ev _ => ev.asked s = true)
        plainStart busyServer ∧
      s.server.ep.page = 1 ∧ s.server.ep.g.stmode = .csbuflo ∧
      s'.server.ep.page = 2 ∧ s'.server.ep.g.stmode = .supertrace ∧ s'.server.ep.g.w2w = 548 ∧
      (NetEvent.slot .server (openSlot 150000)).asked s' = true ∧
      slotPlan tracedSecond .server (openSlot 150000) s'.server.ep =
        .entry ⟨⟨300, 50, 0, 400⟩, 1, 300, .go⟩ :=
  Transition.exists_run_step (by decide +kernel)

end CSBuFLO
