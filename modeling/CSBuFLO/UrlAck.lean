/-
# The URL acknowledgement gate

The second entry a client sends in a page waits for the server's `URLACK`.  The flags
`urlack` and `second_client` behind this gate carry no page: an acknowledgement that was
not used in its page, or arrives late, opens the gate of a later page.

As both directions are FIFO, the acknowledgement of the client's current page has arrived
exactly if no acknowledgement is outstanding (`outstanding`).  `AckGuard` is the condition
under which the gate is a gate of the page: a page with two entries or more starts with a
cleared flag and nothing outstanding, and its first entry does not have to be broken loose.
-/
import CSBuFLO.Pages

namespace CSBuFLO

variable {κ : Type}

/-! ## Outstanding acknowledgements -/

/-- A URL the server will acknowledge. -/
def Msg.isTraceUrl (T : Tables) : Msg → Bool
  | .url u => decide (hmLookup T.clusters u ≠ -1)
  | _ => false

/-- The acknowledgements the client is still to receive. -/
def Proto.outstanding (T : Tables) (s : Proto) : ℕ :=
  s.client.queued.countP (Msg.isTraceUrl T) + s.server.queued.count .urlack

/-- The acknowledgements the client is still to receive: those under way, and those of the
URLs under way. -/
def outstanding (T : Tables) (s : Network κ) : ℕ :=
  (s.inFlight .client).countP (Msg.isTraceUrl T) + (s.inFlight .server).count .urlack

/-- Slots queue neither URLs nor acknowledgements. -/
theorem queued_ctlStep {r : Role} {k k' : Ctl} (h : CtlStep r k k') :
    ∃ ms, k'.queued = k.queued ++ ms ∧ (∀ T, ms.countP (Msg.isTraceUrl T) = 0) ∧
      ms.count .urlack = 0 := by
  cases h with
  | tend => exact ⟨[.tend], rfl, fun _ => rfl, by decide⟩
  | toCsbuflo => exact ⟨[], (List.append_nil _).symm, fun _ => rfl, rfl⟩
  | toNormal =>
    cases r with
    | client =>
      refine ⟨[], ?_, fun _ => rfl, rfl⟩
      rw [List.append_nil]
      unfold Ctl.enterNormal Ctl.releaseLock
      dsimp only
      split <;> rfl
    | server => exact ⟨[.normal], rfl, fun _ => rfl, by decide⟩
  | paddingdone => exact ⟨[.paddingdone], rfl, fun _ => rfl, by decide⟩

/-- A received notification queues an acknowledgement for a URL of a cluster only. -/
theorem queued_receive (T : Tables) (k : Ctl) (m : Msg) :
    (k.receive T m).queued = k.queued ++ if m.isTraceUrl T then [.urlack] else [] := by
  cases m with
  | url u =>
    unfold Ctl.receive Msg.isTraceUrl
    dsimp only
    by_cases hid : hmLookup T.clusters u ≠ -1
    · rw [if_pos hid, if_pos (decide_eq_true hid)]
      rfl
    · rw [if_neg hid, if_neg (by simpa using hid), List.append_nil]
      rfl
  | normal =>
    unfold Ctl.receive
    dsimp only
    split <;> exact (List.append_nil _).symm
  | _ => exact (List.append_nil _).symm

/-- Without a request, no further acknowledgement becomes outstanding. -/
theorem outstanding_protoStep {T : Tables} {s s' : Proto}
    (hfrom : ∀ m ∈ s.server.queued, m.fromServer = true)
    (h : ProtoStep T (fun _ _ => False) s s') : s'.outstanding T ≤ s.outstanding T := by
  unfold Proto.outstanding
  cases h with
  | client hk =>
    obtain ⟨ms, hq, hurl, -⟩ := queued_ctlStep hk
    dsimp only
    rw [hq, List.countP_append, hurl]
    omega
  | server hk =>
    obtain ⟨ms, hq, -, hack⟩ := queued_ctlStep hk
    dsimp only
    rw [hq, List.count_append, hack]
    omega
  | socks _ hfalse => exact hfalse.elim
  | @toServer m ms hq =>
    dsimp only
    rw [queued_receive, hq, List.countP_cons, List.count_append]
    cases m.isTraceUrl T
    · simp
    · simp
      omega
  | @toClient m ms hq =>
    -- the server sends no URL, so the client acknowledges nothing
    have hm : m.isTraceUrl T = false := by
      have := hfrom m (hq ▸ List.mem_cons_self)
      cases m with
      | url => cases this
      | _ => rfl
    dsimp only
    rw [queued_receive, hm, hq]
    simp only [Bool.false_eq_true, if_false, List.append_nil]
    have := List.count_le_count_cons (a := Msg.urlack) (b := m) (l := ms)
    omega

variable {S : Setup κ} {ev : NetEvent} {s s' : Network κ}

/-- An event other than a request leaves no more outstanding. -/
theorem outstanding_netStep (hs : PagesInv S s) (h : netStep S s ev = some s')
    (hev : ∀ p, ev ≠ .socks p) : outstanding S.tables s' ≤ outstanding S.tables s := by
  obtain ⟨-, hsteps⟩ := refines_netStep (G := fun _ _ => False) (fun p hp => hev p hp) hs.channels h
  have hinv := Transition.inv_reflTransGen
    (I := fun q : Proto => (∀ m ∈ q.server.queued, m.fromServer = true) ∧
      q.outstanding S.tables ≤ s.proto.outstanding S.tables) ?_ hsteps
    ⟨hs.ends.fromServer, le_refl _⟩
  · exact hinv.2
  · rintro q q' ⟨hfrom, hle⟩ hstep
    refine ⟨?_, (outstanding_protoStep hfrom hstep).trans hle⟩
    cases hstep with
    | client => exact hfrom
    | server hk => exact fromServer_ctlStep hk hfrom
    | socks => exact hfrom
    | toServer => exact fromServer_receive _ _ _ hfrom
    | toClient hq => exact fun m hm => hfrom m (hq ▸ List.mem_cons_of_mem _ hm)

/-- A request leaves at most one more outstanding, and none unless it starts a page. -/
theorem outstanding_socks {p : ℕ → UInt8} (hs : PagesInv S s)
    (h : netStep S s (.socks p) = some s') :
    outstanding S.tables s' ≤ outstanding S.tables s + 1 ∧
      (s'.client.ep.page = s.client.ep.page →
        outstanding S.tables s' ≤ outstanding S.tables s) := by
  obtain ⟨x, hx, rfl⟩ := Option.map_eq_some_iff.mp h
  obtain ⟨e, he, rfl⟩ := Side.act_eq_some hx
  have hview : e.view s.server.inbox.seen = s.proto.client.socks S.tables p :=
    view_socks he hs.channels.toServer.seen_le
  have hcount : ∀ k : Ctl, k = s.proto.client.socks S.tables p →
      k.queued.countP (Msg.isTraceUrl S.tables) ≤
          s.proto.client.queued.countP (Msg.isTraceUrl S.tables) + 1 ∧
        (k.page = s.proto.client.page → k.queued.countP (Msg.isTraceUrl S.tables) ≤
          s.proto.client.queued.countP (Msg.isTraceUrl S.tables)) := by
    rintro k rfl
    unfold Ctl.socks
    split_ifs
    · simp [Ctl.queue, Msg.isTraceUrl]
    · simp [Ctl.queue, Msg.isTraceUrl]
    · simp only [Ctl.queue, Ctl.startPage, List.countP_append, List.countP_singleton]
      refine ⟨by split <;> omega, fun hpage => ?_⟩
      omega
    · exact ⟨Nat.le_succ _, fun _ => le_refl _⟩
  obtain ⟨hone, hsame⟩ := hcount _ hview
  rw [Network.queued_client_proto] at hone hsame
  show (e.view s.server.inbox.seen).queued.countP _ + (s.inFlight .server).count .urlack ≤ _ ∧
    (e.page = s.client.ep.page →
      (e.view s.server.inbox.seen).queued.countP _ + (s.inFlight .server).count .urlack ≤ _)
  unfold outstanding
  exact ⟨by omega, fun hpage => Nat.add_le_add_right (hsame hpage) _⟩

/-- Within a page of the client, no further acknowledgement becomes outstanding. -/
theorem outstanding_le (hs : PagesInv S s) (h : netStep S s ev = some s')
    (hpage : s'.client.ep.page = s.client.ep.page) :
    outstanding S.tables s' ≤ outstanding S.tables s := by
  by_cases hsocks : ∃ p, ev = .socks p
  · obtain ⟨p, rfl⟩ := hsocks
    exact (outstanding_socks hs h).2 hpage
  · exact outstanding_netStep hs h fun p hp => hsocks ⟨p, hp⟩

/-- An acknowledgement that arrives is no longer outstanding. -/
theorem outstanding_urlack {ev' : EndpointEvent} (hs : PagesInv S s) (h : netStep S s ev = some s')
    (hev : ev.at S s .client = some ev') (hack : isUrlack ev') :
    outstanding S.tables s' + 1 = outstanding S.tables s := by
  obtain ⟨ts, payload, beyond, rfl, hpayload⟩ : ∃ ts payload beyond,
      ev' = .packet ts payload beyond ∧ Msg.ofPayload payload = some .urlack := by
    cases ev' with
    | packet ts payload beyond => exact ⟨ts, payload, beyond, rfl, hack⟩
    | _ => exact hack.elim
  obtain ⟨rfl, recv, hpoll⟩ := NetEvent.at_eq_packet hev
  obtain ⟨hurl, -, hflight⟩ := hs.channels.toClient.poll hpoll
  obtain ⟨d, hd, h⟩ := Option.bind_eq_some_iff.mp h
  obtain rfl := Option.some.inj (hd.symm.trans hpoll)
  obtain ⟨x, hx, rfl⟩ := Option.map_eq_some_iff.mp h
  obtain ⟨e, he, rfl⟩ := Side.act_eq_some hx
  have hview : e.view s.server.inbox.seen = s.client.ep.view s.server.inbox.seen := by
    have hv := view_packet hurl he hs.channels.toServer.seen_le
    rw [hpayload] at hv
    exact hv
  have hclient : (e.view s.server.inbox.seen).queued = s.inFlight .client :=
    congrArg Ctl.queued hview
  have hserver : s.inFlight .server =
      .urlack :: s.server.ep.pkt.queued.drop (s.client.inbox.seen + 1) := by
    rw [hpayload] at hflight
    exact hflight
  show (e.view s.server.inbox.seen).queued.countP _ +
    (s.server.ep.pkt.queued.drop (s.client.inbox.seen +
      (Msg.ofPayload payload).toList.length)).count .urlack + 1 = _
  unfold outstanding
  rw [hclient, hserver, hpayload, List.count_cons_self]
  rfl

/-! ## The gate -/

/-- The gate of a page with two entries or more, when `o` acknowledgements are outstanding: a
received acknowledgement is the page's own, and the second entry is only let through with
it, or broken loose. -/
structure Gate {σ β : Type} (T : Tables) (e : Endpoint σ β) (o : ℕ) : Prop where
  late : o ≤ 1
  ack : e.g.urlack = true → o = 0
  passed : e.g.firstClient = false → e.g.secondClient = false →
    o = 0 ∨ 2 ≤ (e.behind T .client).length

theorem Gate.mono {σ β : Type} {T : Tables} {e : Endpoint σ β} {o o' : ℕ} (h : Gate T e o)
    (hle : o' ≤ o) : Gate T e o' where
  late := hle.trans h.late
  ack hack := by
    have := h.ack hack
    omega
  passed hf hs := (h.passed hf hs).imp (fun ho => by omega) id

section Slot

variable {σ β : Type} {T : Tables} {inp : SlotInput} {e e' : Endpoint σ β} {x : Planned} {o : ℕ}

/-- **The gate works**: the second entry goes only if the page's acknowledgement is there. -/
theorem Gate.second (hgate : Gate T e o) (he : CursorInv T .client e)
    (h : ItemSlot T .client inp e e' x) (hreceived : e.g.receivedSofar < intMax)
    (hnumber : x.number = 2) (hgo : x.verdict = .go) : o = 0 := by
  have hbehind : (e.behind T .client).length = 1 := by
    have := h.number
    omega
  have hexpected : (admitItem .client 0 x.item e.g).2.1 ≤ e.g.receivedSofar :=
    waitVerdict_eq_go.mp (h.verdict.symm.trans hgo)
  cases hfirst : e.g.firstClient with
  | true =>
    have := number_eq_one he h hfirst
    omega
  | false =>
    cases hsecond : e.g.secondClient with
    | false =>
      rcases hgate.passed hfirst hsecond with ho | hlen
      · exact ho
      · omega
    | true =>
      cases hack : e.g.urlack with
      | true => exact hgate.ack hack
      | false =>
        -- the entry expects `INT_MAX` bytes
        have hmax : (admitItem .client 0 x.item e.g).2.1 = intMax := by
          simp [admitItem, hfirst, hsecond, hack]
        omega

/-- A slot that treats an entry keeps the gate, if the first entry is not broken loose. -/
theorem Gate.itemSlot (hgate : Gate T e o) (he : CursorInv T .client e)
    (h : ItemSlot T .client inp e e' x) (hbreaker : x.number = 1 → x.verdict ≠ .breaker) :
    Gate T e' o := by
  have hlen : (e.behind T .client).length ≤ (e'.behind T .client).length := by
    rw [h.behind_eq he.cursor]
    split <;> simp
  have hack := h.urlack
  have hsecond := h.secondClient
  cases hfirst : e.g.firstClient with
  | true =>
    have hfacts : (admitItem .client 0 x.item e.g).2.2.urlack = e.g.urlack ∧
        (admitItem .client 0 x.item e.g).2.2.secondClient = true := by
      simp [admitItem, hfirst]
    rw [hfacts.1] at hack
    rw [hfacts.2, if_neg fun hb => hbreaker (number_eq_one he h hfirst) hb.2] at hsecond
    refine ⟨hgate.late, fun hu => hgate.ack (hack.symm.trans hu), fun _ hs => ?_⟩
    rw [hsecond] at hs
    cases hs
  | false =>
    cases hsec : e.g.secondClient with
    | false =>
      have hfacts : (admitItem .client 0 x.item e.g).2.2.urlack = e.g.urlack := by
        simp [admitItem, hfirst, hsec]
      rw [hfacts] at hack
      exact ⟨hgate.late, fun hu => hgate.ack (hack.symm.trans hu),
        fun _ _ => (hgate.passed hfirst hsec).imp id fun hl => hl.trans hlen⟩
    | true =>
      cases hu : e.g.urlack with
      | true =>
        have ho := hgate.ack hu
        exact ⟨hgate.late, fun _ => ho, fun _ _ => Or.inl ho⟩
      | false =>
        have hfacts : (admitItem .client 0 x.item e.g).2.2.urlack = false ∧
            (admitItem .client 0 x.item e.g).2.2.secondClient = true := by
          simp [admitItem, hfirst, hsec, hu]
        rw [hfacts.1] at hack
        rw [hfacts.2] at hsecond
        refine ⟨hgate.late, fun hc => ?_, fun _ hs => ?_⟩
        · rw [hack] at hc
          cases hc
        · -- the flag goes only if the breaker fired, and not for the first entry
          have hb : x.verdict = .breaker := by
            by_contra hne
            rw [if_neg fun hb => hne hb.2] at hsecond
            rw [hsecond] at hs
            cases hs
          have hnumber : x.number ≠ 1 := fun hone => hbreaker hone hb
          right
          rw [h.behind_eq he.cursor, if_neg (by rw [hb]; decide), List.length_append,
            List.length_singleton]
          have := h.number
          omega

end Slot

/-! ## Runs of the connection -/

/-- Neither is the first entry of a page broken loose, nor can the number of received bytes
pass for the `INT_MAX` the second one expects without its acknowledgement. -/
def Plan.Gated (received : ℕ) : Plan → Prop
  | .entry x => (x.number = 1 → x.verdict ≠ .breaker) ∧ (x.number = 2 → received < intMax)
  | _ => True

instance (received : ℕ) : (p : Plan) → Decidable (p.Gated received)
  | .entry x => inferInstanceAs
      (Decidable ((x.number = 1 → x.verdict ≠ .breaker) ∧ (x.number = 2 → received < intMax)))
  | .nothing => isTrue trivial
  | .ends => isTrue trivial

/-- A request for a page with two entries or more arrives at a client with a cleared flag and
nothing outstanding; slots are gated. -/
def AckGuard (S : Setup κ) (s : Network κ) (ev : NetEvent) (_ : Network κ) : Prop :=
  match ev with
  | .socks p =>
    p 1 = 6 → s.client.ep.g.stmode = .normal →
      2 ≤ (ownItems S.tables .client (hmLookup S.tables.clusters (setUrl p 3))).length →
      s.client.ep.g.urlack = false ∧ outstanding S.tables s = 0
  | .slot .client inp =>
    (slotPlan S.tables .client inp s.client.ep).Gated s.client.ep.g.receivedSofar
  | _ => True

instance (S : Setup κ) (s : Network κ) :
    (ev : NetEvent) → (s' : Network κ) → Decidable (AckGuard S s ev s')
  | .socks p, _ => inferInstanceAs (Decidable (p 1 = 6 → s.client.ep.g.stmode = .normal →
      2 ≤ (ownItems S.tables .client (hmLookup S.tables.clusters (setUrl p 3))).length →
      s.client.ep.g.urlack = false ∧ outstanding S.tables s = 0))
  | .slot .client inp, _ => inferInstanceAs (Decidable
      ((slotPlan S.tables .client inp s.client.ep).Gated s.client.ep.g.receivedSofar))
  | .slot .server _, _ => isTrue trivial
  | .data _ _ _, _ => isTrue trivial
  | .netInput _ _, _ => isTrue trivial
  | .parse _ _ _, _ => isTrue trivial

/-- If an event schedules the client's second entry of a page with a size, the page's
acknowledgement has arrived or the breaker let the entry go. -/
def SecondAcked (S : Setup κ) (s : Network κ) (ev : NetEvent) (_ : Network κ) : Prop :=
  ∀ inp x, ev = .slot .client inp → slotPlan S.tables .client inp s.client.ep = .entry x →
    x.number = 2 → x.size ≠ 0 → outstanding S.tables s = 0 ∨ x.verdict = .breaker

/-- The gate is in order at the client. -/
structure GateInv (S : Setup κ) (s : Network κ) : Prop where
  pages : PagesInv S s
  gate : s.client.ep.g.stmode = .supertrace →
    2 ≤ (ownItems S.tables .client s.client.ep.g.clusterId).length →
    Gate S.tables s.client.ep (outstanding S.tables s)

/-- The gate after a slot of the client. -/
theorem GateInv.afterSlot {inp : SlotInput} {c : Codec (SendState κ) UInt8}
    {e' : Endpoint (SendState κ) UInt8} (hs : GateInv S s)
    (h : slot c S.tables .client inp s.client.ep = .returned e')
    (hgated : (slotPlan S.tables .client inp s.client.ep).Gated s.client.ep.g.receivedSofar)
    (hmode' : e'.g.stmode = .supertrace)
    (hmany : 2 ≤ (ownItems S.tables .client e'.g.clusterId).length) :
    Gate S.tables e' (outstanding S.tables s) := by
  have hcursor := hs.pages.cursor .client
  have hplan := slot_cursor h hcursor.reached
  cases hp : slotPlan S.tables .client inp s.client.ep with
  | nothing =>
    rw [hp] at hplan
    have hsame := hplan.same.script
    have hid : e'.g.clusterId = s.client.ep.g.clusterId := congrArg Script.clusterId hsame
    rw [hid] at hmany
    have hgate := hs.gate (hplan.mode.mp hmode') hmany
    refine ⟨hgate.late, fun hu => hgate.ack ((congrArg Script.urlack hsame).symm.trans hu),
      fun hf hsec => ?_⟩
    rw [(behind_of_sameScript S.tables .client hplan.same).2]
    exact hgate.passed ((congrArg Script.firstClient hsame).symm.trans hf)
      ((congrArg Script.secondClient hsame).symm.trans hsec)
  | ends =>
    rw [hp] at hplan
    rw [hplan.cluster] at hmany
    have hgate := hs.gate hplan.mode hmany
    refine ⟨hgate.late, fun hu => hgate.ack (hplan.urlack.symm.trans hu), fun hf hsec => ?_⟩
    rw [behind_of_not_waiting S.tables .client hplan.waiting]
    exact (hgate.passed (hplan.firstClient.symm.trans hf)
      (hplan.secondClient.symm.trans hsec)).imp
      id fun hlen => hlen.trans (hplan.behind hcursor.cursor).length_le
  | entry x =>
    rw [hp] at hplan hgated
    rw [hplan.cluster] at hmany
    exact (hs.gate hplan.mode hmany).itemSlot hcursor hplan hgated.1

/-- The gate after an event that sets flags: an acknowledgement that arrives is the one that was
outstanding. -/
theorem GateInv.afterFlag {ev' : EndpointEvent} (hs : GateInv S s) (h : netStep S s ev = some s')
    (hev : ev.at S s .client = some ev') (hflag : FlagStep ev' s.client.ep s'.client.ep)
    (hmode : s'.client.ep.g.stmode = .supertrace)
    (hmany : 2 ≤ (ownItems S.tables .client s'.client.ep.g.clusterId).length) :
    Gate S.tables s'.client.ep (outstanding S.tables s') := by
  have hgate := hs.gate (hflag.stmode.symm.trans hmode) (hflag.clusterId ▸ hmany)
  have hle := outstanding_le hs.pages h hflag.page
  refine ⟨hle.trans hgate.late, fun hu => ?_, fun hf hsec => ?_⟩
  · rcases hflag.urlack with hsame | ⟨-, hack⟩
    · have ho := hgate.ack (hsame.symm.trans hu)
      omega
    · have hless := outstanding_urlack hs.pages h hev hack
      have hone := hgate.late
      omega
  · rw [(hflag.behind S.tables .client).2]
    exact (hgate.passed (hflag.firstClient.symm.trans hf) (hflag.secondClient.symm.trans hsec)).imp
      (fun ho => by omega) id

/-- The gate at the start of a page: nothing was outstanding. -/
theorem GateInv.afterStart {p : ℕ → UInt8} (hs : GateInv S s) (hG : AckGuard S s (.socks p) s')
    (h : netStep S s (.socks p) = some s')
    (hpage : PageStep S.tables (.socks p) s.client.ep s'.client.ep)
    (hmode : s'.client.ep.g.stmode = .supertrace)
    (hmany : 2 ≤ (ownItems S.tables .client s'.client.ep.g.clusterId).length) :
    Gate S.tables s'.client.ep (outstanding S.tables s') := by
  obtain ⟨hp, hnormal, hurl, hfirst⟩ := hpage.request p rfl
  have hid : s'.client.ep.g.clusterId = hmLookup S.tables.clusters (setUrl p 3) := by
    rw [← hurl]
    exact hpage.clusterId
  rw [hid] at hmany
  obtain ⟨hack, hzero⟩ := hG hp hnormal hmany
  have hle := (outstanding_socks hs.pages h).1
  refine ⟨by omega, fun hu => ?_, fun hf => ?_⟩
  · rw [hpage.urlack, hack] at hu
    cases hu
  · rw [hfirst hmode] at hf
    cases hf

/-- The second entry passes the gate with its acknowledgement or by the breaker. -/
theorem GateInv.secondAcked (hs : GateInv S s) (hG : AckGuard S s ev s')
    (h : netStep S s ev = some s') : SecondAcked S s ev s' := by
  rintro inp x rfl hplan hnumber hsize
  have hslot : slot (packetCodec (S.keys .client)) S.tables .client inp s.client.ep =
      .returned s'.client.ep := endpointStep_slot.mp (netStep_at h .client)
  have hcursor := hs.pages.cursor .client
  have hitem := slot_cursor hslot hcursor.reached
  have hgated : Plan.Gated s.client.ep.g.receivedSofar
    (slotPlan S.tables .client inp s.client.ep) := hG
  rw [hplan] at hitem hgated
  have hmany : 2 ≤ (ownItems S.tables .client s.client.ep.g.clusterId).length := by
    have hprefix := upto_isPrefix S.tables .client s'.client.ep.g
    rw [hitem.upto hcursor.cursor, hitem.cluster] at hprefix
    have hlen := hprefix.length_le
    rw [List.length_append, List.length_singleton] at hlen
    have := hitem.number
    omega
  cases hv : x.verdict with
  | wait =>
    have := hitem.size
    rw [if_pos hv] at this
    exact absurd this hsize
  | breaker => exact Or.inr rfl
  | go =>
    exact Or.inl ((hs.gate hitem.mode hmany).second hcursor hitem (hgated.2 hnumber) hnumber hv)

/-- **One event of a guarded run.** -/
theorem GateInv.netStep (hs : GateInv S s) (hG : AckGuard S s ev s')
    (h : netStep S s ev = some s') : GateInv S s' ∧ SecondAcked S s ev s' := by
  have hat := netStep_at h .client
  refine ⟨⟨hs.pages.netStep h, fun hmode hmany => ?_⟩, hs.secondAcked hG h⟩
  cases hev : ev.at S s .client with
  | none =>
    rw [hev] at hat
    have hep : s'.client.ep = s.client.ep := hat
    have hle := outstanding_le hs.pages h (congrArg Endpoint.page hep)
    rw [hep] at hmode hmany ⊢
    exact (hs.gate hmode hmany).mono hle
  | some ev' =>
    rw [hev] at hat
    rcases endpointStep_cases hat with ⟨inp, rfl, hslot⟩ | ⟨-, hflag⟩ | ⟨hpage, -⟩
    · obtain rfl := NetEvent.at_eq_slot hev
      exact (hs.afterSlot hslot hG hmode hmany).mono
        (outstanding_netStep hs.pages h fun p hp => (nomatch hp))
    · exact hs.afterFlag h hev hflag hmode hmany
    · have hne : s'.client.ep.page ≠ s.client.ep.page := by
        have hpg : s'.client.ep.page = s.client.ep.page + 1 := hpage.page
        omega
      obtain ⟨ev'', hev'', -, p, rfl⟩ := hs.pages.start (r := .client) h hne
      obtain rfl := Option.some.inj (hev.symm.trans hev'')
      obtain rfl := NetEvent.at_eq_socks hev
      exact hs.afterStart hG h hpage hmode hmany

/-- **The acknowledgement gate.**  In every run that meets `AckGuard`, the client schedules the
second entry of a page with a size only if the acknowledgement of that page has arrived, or
the breaker let the entry go. -/
theorem urlack_gate (S : Setup κ) (s0 : Network κ) (h0 : s0.Fresh S) (evs : List NetEvent)
    (hG : Transition.Along (netStep S) (AckGuard S) s0 evs) :
    Transition.Along (netStep S) (SecondAcked S) s0 evs := by
  refine Transition.along_of_inv (G := AckGuard S) (I := GateInv S)
    (fun _ _ _ hi hg h => hi.netStep hg h) hG ⟨h0.pages, fun hmode => ?_⟩
  obtain ⟨snd, hep⟩ := h0.side_eq .client
  have hclient : s0.client.ep = { pkt := { snd := snd } } := hep
  rw [hclient] at hmode
  cases hmode

/-- In a page whose acknowledgement arrives in time, the second entry is scheduled. -/
theorem urlack_gate_ackedPage :
    ∃ s s', Transition.run (netStep (plainSetup oneAndTwo)) plainStart ackedPage = some s ∧
      netStep (plainSetup oneAndTwo) s (.slot .client (openSlot 400000)) = some s' ∧
      slotPlan oneAndTwo .client (openSlot 400000) s.client.ep =
        .entry ⟨⟨-200, 50, 0, 0⟩, 2, 200, .go⟩ ∧
      outstanding oneAndTwo s = 0 := by
  refine Transition.exists_run_step_and (by decide +kernel) fun hs hs' hplan => ?_
  have hall := urlack_gate _ plainStart (fresh_plainStart oneAndTwo)
    (ackedPage ++ [.slot .client (openSlot 400000)]) (by decide +kernel)
  rcases hall.last hs hs' _ _ rfl hplan rfl (by decide) with hzero | hbreaker
  · exact hzero
  · cases hbreaker

/-- A page with one entry, whose acknowledgement is never used, left by a load event; then a
page with two entries, whose first one is sent. -/
def staleAck : List NetEvent :=
  [.socks (urlRequest 97), .slot .client (openSlot 100000), .netInput .server 400,
    .parse .server 0 fun _ => 0, .slot .server (openSlot 200000), .netInput .client 128,
    .parse .client 0 fun _ => 0, .parse .client 0 fun _ => 0,
    .socks fun i => [5, 4].getD i 0, .slot .client (openSlot 300000),
    .socks (urlRequest 98), .slot .client (openSlot 400000)]

/-- **The gate opens with the acknowledgement of an earlier page.**  The second entry of the
second page is scheduled although the server has not seen the URL of that page.  Every slot of the
run writes only if its loop had asked for the connection. -/
theorem second_entry_with_stale_urlack :
    ∃ s s', Transition.run (netStep (plainSetup oneAndTwo)) plainStart staleAck = some s ∧
      netStep (plainSetup oneAndTwo) s (.slot .client (openSlot 500000)) = some s' ∧
      Transition.Along (netStep (plainSetup oneAndTwo)) (fun s ev _ => ev.asked s = true) plainStart
        (staleAck ++ [.slot .client (openSlot 500000)]) ∧
      slotPlan oneAndTwo .client (openSlot 500000) s.client.ep =
        .entry ⟨⟨-200, 50, 0, 0⟩, 2, 200, .go⟩ ∧
      outstanding oneAndTwo s = 1 ∧ s.client.ep.page = 2 ∧ s.server.ep.page = 1 :=
  Transition.exists_run_step (by decide +kernel)

end CSBuFLO
