/-
# What a replayed page puts on the wire

While an end replays a page and has not queued its `TEND`, every byte on the wire was granted by an
entry of the trace or by the budget it had at the page start, and every granted byte is on the wire
or still in the budget.  An entry grants its size; only the first one of a page may grant more, all
that is queued.

One slot is `committed_replay`; `replay_volume` follows the entries since the last page start.
-/
import CSBuFLO.Balance
import CSBuFLO.ItemOrder

namespace CSBuFLO

variable {σ β κ : Type}

/-! ## The entries of a page -/

/-- What was granted since a page started: the bytes committed at the start, and the entries. -/
structure PageGrants where
  start : ℤ
  entries : List Planned

/-- The bytes of some entries. -/
def grantedBytes (entries : List Planned) : ℤ := (entries.map Planned.size).sum

/-- The entry a plan sends. -/
def Plan.sends : Plan → Option Planned
  | .entry x => if x.verdict = .wait then none else some x
  | _ => none

theorem scheduled_eq_sends (p : Plan) : p.scheduled = p.sends.map Planned.item := by
  cases p with
  | entry x =>
    unfold Plan.scheduled Plan.sends
    dsimp only
    split <;> rfl
  | nothing => rfl
  | ends => rfl

/-- The size of a plan is the size of the entry it sends. -/
theorem size_eq_grantedBytes {T : Tables} {r : Role} {inp : SlotInput} {e e' : Endpoint σ β}
    {c : Codec σ β} (h : slot c T r inp e = .returned e') (he : Reached r e) :
    (slotPlan T r inp e).size = grantedBytes (slotPlan T r inp e).sends.toList := by
  have hslot := slot_cursor h he
  cases hplan : slotPlan T r inp e with
  | nothing => rfl
  | ends => rfl
  | entry x =>
    rw [hplan] at hslot
    unfold Plan.sends Plan.size
    dsimp only
    split
    · rename_i hwait
      rw [hslot.size, if_pos hwait]
      rfl
    · simp [grantedBytes]

/-- **The grants of a page.** -/
structure VolumeInv (r : Role) (e : Endpoint σ β) (l : PageGrants) : Prop where
  committed : e.g.stmode = .supertrace → e.g.sentTend = false →
    e.committed = l.start + grantedBytes l.entries
  first : e.g.stmode = .supertrace → l.entries ≠ [] → e.g.firstClient = false
  atLeast : ∀ x, l.entries.head? = some x → r.itemSize x.item ≤ x.size
  exactly : ∀ x ∈ l.entries.tail, x.size = r.itemSize x.item

/-- **Step lemma, slots.** -/
theorem VolumeInv.slot {c : Codec σ β} {T : Tables} {r : Role} {inp : SlotInput}
    {e e' : Endpoint σ β} {l : PageGrants} (hl : VolumeInv r e l)
    (h : slot c T r inp e = .returned e') (he : Reached r e) :
    VolumeInv r e' ⟨l.start, l.entries ++ (slotPlan T r inp e).sends.toList⟩ := by
  have hslot := slot_cursor h he
  have hback : e'.g.stmode = .supertrace → e.g.stmode = .supertrace := by
    intro hmode
    by_contra hne
    exact (ne_supertrace_of_reflTransGen (slot_ctl h) hne).1 hmode
  have hsentBack : e'.g.sentTend = false → e.g.sentTend = false := by
    intro hs'
    rw [Bool.eq_false_iff]
    intro hs
    have hkept : e'.g.sentTend = true := sentTend_of_reflTransGen (slot_ctl h) hs
    rw [hs'] at hkept
    cases hkept
  have hcommitted : e'.g.stmode = .supertrace → e'.g.sentTend = false →
      e'.committed = l.start + grantedBytes (l.entries ++ (slotPlan T r inp e).sends.toList) := by
    intro hmode hsent
    have hseen : (CSBuFLO.slot c T r inp e).seen = some e' := by rw [h]; rfl
    have hreplay : ReplayMode e.g := ⟨hback hmode, hsentBack hsent⟩
    rw [committed_replay h he hreplay (budget_of_slot hreplay hseen hsent),
      hl.committed (hback hmode) (hsentBack hsent), size_eq_grantedBytes h he]
    simp [grantedBytes, Int.add_assoc]
  cases hplan : slotPlan T r inp e with
  | nothing =>
    rw [hplan] at hslot hcommitted
    simp only [Plan.sends, Option.toList_none, List.append_nil] at hcommitted ⊢
    refine ⟨hcommitted, fun hmode hne => ?_, hl.atLeast, hl.exactly⟩
    exact (congrArg Script.firstClient hslot.same.script).trans (hl.first (hback hmode) hne)
  | ends =>
    rw [hplan] at hslot hcommitted
    simp only [Plan.sends, Option.toList_none, List.append_nil] at hcommitted ⊢
    exact ⟨hcommitted, fun hmode hne => hslot.firstClient.trans (hl.first (hback hmode) hne),
      hl.atLeast, hl.exactly⟩
  | entry x =>
    rw [hplan] at hslot hcommitted
    by_cases hwait : x.verdict = .wait
    · simp only [Plan.sends, if_pos hwait, Option.toList_none, List.append_nil] at hcommitted ⊢
      exact ⟨hcommitted, fun _ _ => hslot.firstClient, hl.atLeast, hl.exactly⟩
    · simp only [Plan.sends, if_neg hwait, Option.toList_some] at hcommitted ⊢
      have hsize : x.size =
          if e.g.firstClient then max (r.itemSize x.item) e.pkt.outputLen
          else r.itemSize x.item := by
        rw [hslot.size, if_neg hwait, admitItem_size]
      have hge : r.itemSize x.item ≤ x.size := by
        rw [hsize]
        split <;> omega
      refine ⟨hcommitted, fun _ _ => hslot.firstClient, fun y hy => ?_, fun y hy => ?_⟩
      · cases hentries : l.entries with
        | nil =>
          rw [hentries] at hy
          obtain rfl := Option.some.inj hy
          exact hge
        | cons z rest =>
          rw [hentries] at hy
          refine hl.atLeast y ?_
          rw [hentries]
          exact hy
      · -- behind the first entry the flag is down, and an entry grants its own size
        cases hentries : l.entries with
        | nil =>
          rw [hentries] at hy
          cases hy
        | cons z rest =>
          have hfirst := hl.first hslot.mode (by rw [hentries]; exact List.cons_ne_nil _ _)
          rw [hentries] at hy
          rcases List.mem_append.mp hy with hy | hy
          · refine hl.exactly y ?_
            rw [hentries]
            exact hy
          · obtain rfl := List.mem_singleton.mp hy
            rw [hsize, hfirst]
            rfl

/-! ## Whole runs -/

/-- The entry an event sends at one end. -/
def sendsAt (S : Setup κ) (r : Role) (s : Network κ) (ev : NetEvent) : Option Planned :=
  match ev.at S s r with
  | some (.slot inp) => (slotPlan S.tables r inp (s.side r).ep).sends
  | _ => none

/-- The grants at one end since its last page start. -/
def grantLog (S : Setup κ) (r : Role) (s : Network κ) (ev : NetEvent) (s' : Network κ)
    (l : PageGrants) : PageGrants :=
  if (s'.side r).ep.page = (s.side r).ep.page then
    ⟨l.start, l.entries ++ (sendsAt S r s ev).toList⟩
  else ⟨(s'.side r).ep.committed, []⟩

/-- The entries are those of the other log. -/
theorem grantLog_items (S : Setup κ) (r : Role) (s : Network κ) (ev : NetEvent) (s' : Network κ)
    (l : PageGrants) : (grantLog S r s ev s' l).entries.map Planned.item =
      pageLog S r s ev s' (l.entries.map Planned.item) := by
  have hitem : scheduledItem S r s ev = (sendsAt S r s ev).map Planned.item := by
    unfold scheduledItem sendsAt
    generalize ev.at S s r = ev'
    cases ev' with
    | none => rfl
    | some ev' =>
      cases ev' with
      | slot inp => exact scheduled_eq_sends _
      | _ => rfl
  unfold grantLog pageLog
  split
  · rw [hitem, List.map_append]
    cases sendsAt S r s ev <;> rfl
  · rfl

/-- **Step lemma, every event of the connection.** -/
theorem VolumeInv.netStep {S : Setup κ} {s s' : Network κ} {ev : NetEvent} {r : Role}
    {l : PageGrants} (hl : VolumeInv r (s.side r).ep l) (hs : PagesInv S s)
    (h : netStep S s ev = some s') : VolumeInv r (s'.side r).ep (grantLog S r s ev s' l) := by
  have hat := netStep_at h r
  unfold grantLog sendsAt
  cases hev : ev.at S s r with
  | none =>
    rw [hev] at hat
    dsimp only at hat ⊢
    rw [hat, if_pos rfl, Option.toList_none, List.append_nil]
    exact hl
  | some ev' =>
    rw [hev] at hat
    rcases endpointStep_cases hat with ⟨inp, rfl, hslot⟩ | ⟨hno, hflag⟩ | ⟨hpage, -⟩
    · rw [if_pos (page_slot hslot)]
      exact hl.slot hslot (hs.cursor r).reached
    · have hnone : (match some ev' with
          | some (.slot inp) => (slotPlan S.tables r inp (s.side r).ep).sends
          | _ => none) = none := by
        cases ev' with
        | slot inp => exact absurd rfl (hno inp)
        | _ => rfl
      rw [if_pos hflag.page, hnone, Option.toList_none, List.append_nil]
      have hcommitted : (s'.side r).ep.committed = (s.side r).ep.committed := by
        unfold Endpoint.committed
        rw [(offSlot_endpointStep hat hno).wire, hflag.w2w]
      refine ⟨fun hmode hsent => ?_, fun hmode hne => ?_, hl.atLeast, hl.exactly⟩
      · rw [hcommitted]
        exact hl.committed (hflag.stmode.symm.trans hmode) (hflag.sentTend.symm.trans hsent)
      · rw [hflag.firstClient]
        exact hl.first (hflag.stmode.symm.trans hmode) hne
    · have hne : (s'.side r).ep.page ≠ (s.side r).ep.page := by
        rw [hpage.page]
        omega
      rw [if_neg hne]
      refine ⟨fun _ _ => ?_, fun _ hne => absurd rfl hne, fun x hx => ?_, fun x hx => ?_⟩
      · simp [grantedBytes]
      · cases hx
      · cases hx

/-- **A replayed page has the volume of its trace.**  In every run of the connection, while an end
replays a page and has not queued its `TEND`: what it has written or may still write is what it had
at the page start and what the entries since then have granted.  These are the first own entries of
the page's trace, and each grants its size, the first one at least. -/
theorem replay_volume (S : Setup κ) (s0 : Network κ) (h0 : s0.Fresh S) (r : Role)
    (evs : List NetEvent) (s : Network κ) (l : PageGrants)
    (hrun : Transition.run (Transition.logStep (netStep S) (grantLog S r)) (s0, ⟨0, []⟩) evs =
      some (s, l))
    (hmode : (s.side r).ep.g.stmode = .supertrace) (hsent : (s.side r).ep.g.sentTend = false) :
    ((s.side r).ep.pkt.wire.length : ℤ) + (s.side r).ep.g.w2w =
        l.start + grantedBytes l.entries ∧
      l.entries.map Planned.item <+:
        ownItems S.tables r (hmLookup S.tables.clusters (s.side r).ep.g.url) ∧
      (∀ x, l.entries.head? = some x → r.itemSize x.item ≤ x.size) ∧
      ∀ x ∈ l.entries.tail, x.size = r.itemSize x.item := by
  obtain ⟨hreach, -, hitems, hvolume⟩ : Reachable S s ∧ PagesInv S s ∧
      LogInv S.tables r (s.side r).ep (l.entries.map Planned.item) ∧
      VolumeInv r (s.side r).ep l := by
    refine Transition.inv_run (I := fun x : Network κ × PageGrants =>
      Reachable S x.1 ∧ PagesInv S x.1 ∧
        LogInv S.tables r (x.1.side r).ep (x.2.entries.map Planned.item) ∧
        VolumeInv r (x.1.side r).ep x.2) ?_ hrun ⟨⟨s0, h0, [], rfl⟩, h0.pages, h0.log r, ?_⟩
    · rintro ⟨s1, l1⟩ ev ⟨s2, l2⟩ ⟨hreach, hpages, hitems, hvolume⟩ hstep
      obtain ⟨hs, rfl⟩ := Transition.logStep_eq_some.mp hstep
      refine ⟨Reachable.step hreach hs, hpages.netStep hs, ?_, hvolume.netStep hpages hs⟩
      have hnext := hitems.netStep hpages hs
      rwa [← grantLog_items] at hnext
    · obtain ⟨snd, hep⟩ := h0.side_eq r
      rw [hep]
      exact ⟨fun hm => (nomatch hm), fun hm => (nomatch hm), fun x hx => (nomatch hx),
        fun x hx => (nomatch hx)⟩
  refine ⟨hvolume.committed hmode hsent, ?_, hvolume.atLeast, hvolume.exactly⟩
  rcases named_of_reachable hreach r with hzero | hid
  · rw [(hitems.start hzero).1]
    exact List.nil_prefix
  · rw [← hid]
    exact hitems.items

/-- Two entries of the client: the first one has grown to the request that was queued. -/
theorem replay_volume_twoItems :
    ∃ s l, Transition.run (Transition.logStep (netStep (plainSetup oneAndTwo))
        (grantLog (plainSetup oneAndTwo) .client)) (plainStart, ⟨0, []⟩)
        (ackedPage ++ [.slot .client (openSlot 400000)]) = some (s, l) ∧
      l.entries.length = 2 ∧
      (s.client.ep.pkt.wire.length : ℤ) + s.client.ep.g.w2w =
        l.start + grantedBytes l.entries := by
  obtain ⟨⟨s, l⟩, hrun, hlen, hmode, hsent⟩ : ∃ x, Transition.run (Transition.logStep
      (netStep (plainSetup oneAndTwo)) (grantLog (plainSetup oneAndTwo) .client))
        (plainStart, ⟨0, []⟩) (ackedPage ++ [.slot .client (openSlot 400000)]) = some x ∧
      x.2.entries.length = 2 ∧ x.1.client.ep.g.stmode = .supertrace ∧
      x.1.client.ep.g.sentTend = false := by
    decide +kernel
  exact ⟨s, l, hrun, hlen, (replay_volume _ plainStart (fresh_plainStart oneAndTwo) .client _ s l
    hrun hmode hsent).1⟩

end CSBuFLO
