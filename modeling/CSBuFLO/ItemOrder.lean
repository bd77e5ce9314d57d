/-
# Transcript entries are replayed in order

At each end of the connection, the entries whose size is scheduled between two page starts
are logged.  The log is always a beginning of the own entries of that page's trace.

While the page is replayed, the log is `behind`, the list of entries the cursor has left
(`LogInv`); this ends when the page is finished, and from then on nothing is logged until
the next page starts.
-/
import CSBuFLO.Pages

namespace CSBuFLO

variable {κ : Type}

/-! ## The cluster of a page -/

/-- Once a page was started, the cluster is the one of its URL. -/
def Ctl.Named (T : Tables) (k : Ctl) : Prop := k.page = 0 ∨ k.clusterId = hmLookup T.clusters k.url

theorem Ctl.Named.ctlStep {T : Tables} {r : Role} {k k' : Ctl} (hk : k.Named T)
    (h : CtlStep r k k') : k'.Named T := by
  cases h with
  | toNormal =>
    cases r with
    | client =>
      unfold Ctl.enterNormal Ctl.releaseLock
      dsimp only
      split <;> exact hk
    | server => exact hk
  | _ => exact hk

theorem Ctl.Named.receive {T : Tables} {k : Ctl} (hk : k.Named T) (m : Msg) :
    (k.receive T m).Named T := by
  cases m with
  | url u =>
    unfold Ctl.receive
    dsimp only
    split <;> exact Or.inr rfl
  | normal =>
    unfold Ctl.receive
    dsimp only
    split <;> exact hk
  | _ => exact hk

theorem Ctl.Named.socks {T : Tables} {k : Ctl} (hk : k.Named T) (p : ℕ → UInt8) :
    (k.socks T p).Named T := by
  unfold Ctl.socks
  split_ifs
  · exact hk
  · exact hk
  · exact Or.inr rfl
  · exact hk

/-- The cluster of an end is the one of its page, in every reachable state. -/
theorem named_of_reachable {S : Setup κ} {s : Network κ} (h : Reachable S s) (r : Role) :
    (s.side r).ep.page = 0 ∨
      (s.side r).ep.g.clusterId = hmLookup S.tables.clusters (s.side r).ep.g.url := by
  have hinv := inv_network (S := S)
    (I := fun s => s.client.Named S.tables ∧ s.server.Named S.tables) ⟨Or.inl rfl, Or.inl rfl⟩ ?_ h
  · cases r with
    | client => exact hinv.1
    | server => exact hinv.2
  · rintro s s' ⟨hclient, hserver⟩ hstep
    cases hstep with
    | client hk => exact ⟨hclient.ctlStep hk, hserver⟩
    | server hk => exact ⟨hclient, hserver.ctlStep hk⟩
    | socks p => exact ⟨hclient.socks p, hserver⟩
    | toServer => exact ⟨hclient, hserver.receive _⟩
    | toClient => exact ⟨hclient.receive _, hserver⟩

/-! ## The log of a page -/

/-- The entry whose size a slot schedules. -/
def Plan.scheduled : Plan → Option StPair
  | .entry x => if x.verdict = .wait then none else some x.item
  | _ => none

/-- The entry whose size an event schedules at one end. -/
def scheduledItem (S : Setup κ) (r : Role) (s : Network κ) (ev : NetEvent) : Option StPair :=
  match ev.at S s r with
  | some (.slot inp) => (slotPlan S.tables r inp (s.side r).ep).scheduled
  | _ => none

/-- The entries scheduled at one end since its last page start. -/
def pageLog (S : Setup κ) (r : Role) (s : Network κ) (ev : NetEvent) (s' : Network κ)
    (log : List StPair) : List StPair :=
  if (s'.side r).ep.page = (s.side r).ep.page then log ++ (scheduledItem S r s ev).toList else []

/-- What the log of a page has to do with the cursor. -/
structure LogInv (T : Tables) (r : Role) (e : Endpoint (SendState κ) UInt8) (log : List StPair) :
    Prop where
  start : e.page = 0 → log = [] ∧ e.g.stmode ≠ .supertrace
  items : log <+: ownItems T r e.g.clusterId
  replay : e.g.stmode = .supertrace →
    log = e.behind T r ∨ (e.loop.waitingForAPacket = false ∧ e.g.script.Finished)

/-- A slot logs what it leaves behind. -/
theorem LogInv.slot {c : Codec (SendState κ) UInt8} {T : Tables} {r : Role} {inp : SlotInput}
    {e e' : Endpoint (SendState κ) UInt8} {log : List StPair} (hlog : LogInv T r e log)
    (h : slot c T r inp e = .returned e') (he : CursorInv T r e) :
    LogInv T r e' (log ++ (slotPlan T r inp e).scheduled.toList) := by
  have hplan := slot_cursor h he.reached
  have hpage := page_slot h
  cases hp : slotPlan T r inp e with
  | nothing =>
    rw [hp] at hplan
    have hid : e'.g.clusterId = e.g.clusterId := congrArg Script.clusterId hplan.same.script
    simp only [Plan.scheduled, Option.toList_none, List.append_nil]
    refine ⟨fun h0 => ?_, by rw [hid]; exact hlog.items, fun hmode => ?_⟩
    · obtain ⟨hnil, hmode⟩ := hlog.start (hpage.symm.trans h0)
      exact ⟨hnil, fun hm => hmode (hplan.mode.mp hm)⟩
    rw [(behind_of_sameScript T r hplan.same).2, hplan.same.waiting, hplan.same.script]
    exact hlog.replay (hplan.mode.mp hmode)
  | ends =>
    rw [hp] at hplan
    simp only [Plan.scheduled, Option.toList_none, List.append_nil]
    exact ⟨fun h0 => absurd hplan.mode (hlog.start (hpage.symm.trans h0)).2,
      by rw [hplan.cluster]; exact hlog.items, fun _ => Or.inr ⟨hplan.waiting, hplan.finished⟩⟩
  | entry x =>
    rw [hp] at hplan
    -- an entry is only treated in an unfinished page
    have hbehind : log = e.behind T r := by
      rcases hlog.replay hplan.mode with heq | ⟨hwait, hfin⟩
      · exact heq
      · exact absurd hfin (hplan.unfinished hwait)
    have hnext : log ++ (Plan.entry x).scheduled.toList = e'.behind T r := by
      rw [hplan.behind_eq he.cursor, hbehind]
      unfold Plan.scheduled
      dsimp only
      split <;> simp
    rw [hnext]
    exact ⟨fun h0 => absurd hplan.mode (hlog.start (hpage.symm.trans h0)).2,
      behind_prefix T r e', fun _ => Or.inl rfl⟩

/-- **Every event of the connection** keeps the log of each end in step with its cursor. -/
theorem LogInv.netStep {S : Setup κ} {s s' : Network κ} {ev : NetEvent} {r : Role}
    {log : List StPair} (hlog : LogInv S.tables r (s.side r).ep log) (hs : PagesInv S s)
    (h : netStep S s ev = some s') :
    LogInv S.tables r (s'.side r).ep (pageLog S r s ev s' log) := by
  have hat := netStep_at h r
  unfold pageLog scheduledItem
  cases hev : ev.at S s r with
  | none =>
    rw [hev] at hat
    dsimp only at hat ⊢
    rw [hat, if_pos rfl, Option.toList_none, List.append_nil]
    exact hlog
  | some ev' =>
    rw [hev] at hat
    rcases endpointStep_cases hat with ⟨inp, rfl, hslot⟩ | ⟨hno, hflag⟩ | ⟨hpage, -⟩
    · rw [if_pos (page_slot hslot)]
      exact hlog.slot hslot (hs.cursor r)
    · have hnone : (match some ev' with
          | some (.slot inp) => (slotPlan S.tables r inp (s.side r).ep).scheduled
          | _ => none) = none := by
        cases ev' with
        | slot inp => exact absurd rfl (hno inp)
        | _ => rfl
      rw [if_pos hflag.page, hnone, Option.toList_none, List.append_nil]
      refine ⟨fun h0 => ?_, by rw [hflag.clusterId]; exact hlog.items, fun hmode => ?_⟩
      · rw [hflag.stmode]
        exact hlog.start (hflag.page.symm.trans h0)
      · rw [(hflag.behind S.tables r).2, hflag.waiting]
        exact (hlog.replay (hflag.stmode.symm.trans hmode)).imp id
          fun ⟨hwait, hfin⟩ => ⟨hwait, hfin.of_flagStep hflag⟩
    · have hne : (s'.side r).ep.page ≠ (s.side r).ep.page := by
        rw [hpage.page]
        omega
      rw [if_neg hne]
      refine ⟨fun h0 => ?_, List.nil_prefix, fun hmode => Or.inl ?_⟩
      · rw [hpage.page] at h0
        omega
      · exact (hpage.behind r hmode (hs.not_waiting h hne)).symm

theorem Network.Fresh.log {S : Setup κ} {s : Network κ} (h : s.Fresh S) (r : Role) :
    LogInv S.tables r (s.side r).ep [] := by
  obtain ⟨snd, hep⟩ := h.side_eq r
  rw [hep]
  exact ⟨fun _ => ⟨rfl, fun hm => (nomatch hm)⟩, List.nil_prefix, fun hm => (nomatch hm)⟩

/-- **Transcript entries are replayed in order.**  In every run of the connection, the entries
scheduled at an end since its last page start are a beginning of the own entries of the
trace of that page. -/
theorem items_in_order (S : Setup κ) (s0 : Network κ) (h0 : s0.Fresh S) (r : Role)
    (evs : List NetEvent) (s : Network κ) (log : List StPair)
    (hrun : Transition.run (Transition.logStep (netStep S) (pageLog S r)) (s0, []) evs =
      some (s, log)) :
    log <+: ownItems S.tables r (hmLookup S.tables.clusters (s.side r).ep.g.url) := by
  obtain ⟨hreach, -, hlog⟩ : Reachable S s ∧ PagesInv S s ∧
      LogInv S.tables r (s.side r).ep log := by
    refine Transition.inv_run (I := fun x : Network κ × List StPair =>
      Reachable S x.1 ∧ PagesInv S x.1 ∧ LogInv S.tables r (x.1.side r).ep x.2) ?_ hrun
      ⟨⟨s0, h0, [], rfl⟩, h0.pages, h0.log r⟩
    rintro ⟨s1, l1⟩ ev ⟨s2, l2⟩ ⟨hreach, hpages, hlog⟩ hstep
    obtain ⟨hs, rfl⟩ := Transition.logStep_eq_some.mp hstep
    exact ⟨Reachable.step hreach hs, hpages.netStep hs, hlog.netStep hpages hs⟩
  rcases named_of_reachable hreach r with hzero | hid
  · rw [(hlog.start hzero).1]
    exact List.nil_prefix
  · rw [← hid]
    exact hlog.items

/-- Both entries of a page have been scheduled. -/
theorem items_in_order_twoItems :
    ∃ s log, Transition.run (Transition.logStep (netStep (plainSetup oneAndTwo))
        (pageLog (plainSetup oneAndTwo) .client)) (plainStart, [])
        (ackedPage ++ [.slot .client (openSlot 400000)]) = some (s, log) ∧
      log.length = 2 ∧
      log <+: ownItems oneAndTwo .client (hmLookup oneAndTwo.clusters s.client.ep.g.url) := by
  obtain ⟨⟨s, log⟩, hrun, hlen⟩ : ∃ x, Transition.run (Transition.logStep
      (netStep (plainSetup oneAndTwo)) (pageLog (plainSetup oneAndTwo) .client)) (plainStart, [])
      (ackedPage ++ [.slot .client (openSlot 400000)]) = some x ∧ x.2.length = 2 := by
    decide +kernel
  exact ⟨s, log, hrun, hlen, items_in_order _ plainStart (fresh_plainStart oneAndTwo) .client _ s
    log hrun⟩

end CSBuFLO
