/-
# The server follows the client

Two things the two ends of a page have in common besides `EndInv` and `Agrees`.

* `Follows` : as long as the client replays the page both ends are in, the server is in transcript
  mode;
* `pending_netStep` : a notification under way stays where it is in the byte stream until it is
  handled.

The rest is about single events: what they do to an inbox, what an end did before an event within
its page, and how a page starts at either end.
-/
import CSBuFLO.Balance
import CSBuFLO.Delivery
import CSBuFLO.PageAgreement

namespace CSBuFLO

/-! ## The server follows the client -/

/-- Notifications without a URL leave the page alone. -/
theorem PageInfo.applyAll_of_no_url {T : Tables} {ms : List Msg} (h : urls ms = 0) (v : PageInfo) :
    (v.applyAll T ms).clusterId = v.clusterId ∧
      ((v.applyAll T ms).onload = false → v.onload = false) := by
  induction ms generalizing v with
  | nil => exact ⟨rfl, id⟩
  | cons m ms ih =>
    cases m with
    | url u =>
      rw [urls_cons_url] at h
      omega
    | onload =>
      obtain ⟨hid, hload⟩ := ih ((urls_cons_of_not_url ms rfl).symm.trans h)
        (v.apply T .onload)
      exact ⟨hid, fun hf => by cases hload hf⟩
    | _ => exact ih ((urls_cons_of_not_url ms rfl).symm.trans h) v

/-- The last URL under way decides the cluster. -/
theorem PageInfo.exists_url_of_applyAll {T : Tables} {ms : List Msg} (h : urls ms ≠ 0)
    (v : PageInfo) :
    ∃ u, Msg.url u ∈ ms ∧ (v.applyAll T ms).clusterId = hmLookup T.clusters u := by
  induction ms generalizing v with
  | nil => exact absurd rfl h
  | cons m ms ih =>
    by_cases hrest : urls ms = 0
    · cases m with
      | url u =>
        exact ⟨u, List.mem_cons_self,
          (PageInfo.applyAll_of_no_url hrest (v.apply T (.url u))).1⟩
      | _ => exact absurd ((urls_cons_of_not_url ms rfl).trans hrest) h
    · obtain ⟨u, hu, hid⟩ := ih hrest (v.apply T m)
      exact ⟨u, List.mem_cons_of_mem m hu, hid⟩

/-- The protocol state: the server is in transcript mode as long as the client replays the page
both are in. -/
structure Follows (T : Tables) (s : Proto) : Prop where
  ends : EndInv T s
  agrees : Agrees T s
  cluster : s.client.stmode = .supertrace → s.client.clusterId ≠ -1
  follows : s.client.stmode = .supertrace → s.client.sentTend = false →
    s.client.page = s.server.page → s.server.stmode = .supertrace

namespace Follows

variable {T : Tables} {s : Proto}

/-- In the same page, the two ends know the same of it. -/
theorem sameInfo (h : Follows T s) (hpage : s.client.page = s.server.page) :
    s.server.clusterId = s.client.clusterId ∧
      (s.client.onload = false → s.server.onload = false) := by
  have hpages := h.ends.pages
  have hnone : urls s.client.queued = 0 := by omega
  obtain ⟨hid, hload⟩ := PageInfo.applyAll_of_no_url (T := T) hnone s.server.pageInfo
  rw [h.agrees.agrees] at hid hload
  exact ⟨hid.symm, hload⟩

/-- A client that replays a page the server has not started has a URL of a cluster under way. -/
theorem exists_url (h : Follows T s) (hmode : s.client.stmode = .supertrace)
    (hpage : s.client.page ≠ s.server.page) :
    ∃ u, Msg.url u ∈ s.client.queued ∧ hmLookup T.clusters u ≠ -1 := by
  have hpages := h.ends.pages
  have hsome : urls s.client.queued ≠ 0 := by omega
  obtain ⟨u, hu, hid⟩ := PageInfo.exists_url_of_applyAll (T := T) hsome s.server.pageInfo
  rw [h.agrees.agrees] at hid
  exact ⟨u, hu, hid ▸ h.cluster hmode⟩

/-- The server leaves the transcript only after the client's `TEND`. -/
theorem not_transcriptEnd (h : Follows T s) (hsent : s.client.sentTend = false)
    (hpage : s.client.page = s.server.page) : s.server.transcriptEnd = false := by
  cases hend : s.server.transcriptEnd with
  | false => rfl
  | true => exact absurd (hpage ▸ h.ends.serverEnd hend) (h.ends.clientLog.fresh hsent)

/-- A client that is in transcript mode after a control step was before; its `TEND` was not
queued. -/
theorem before_ctlStep {k k' : Ctl} (h : CtlStep .client k k')
    (hmode : k'.stmode = .supertrace) :
    k.stmode = .supertrace ∧ (k'.sentTend = false → k.sentTend = false) ∧ k'.page = k.page := by
  cases h with
  | tend hsuper hsent => exact ⟨hsuper, fun _ => hsent, rfl⟩
  | toCsbuflo => cases hmode
  | toNormal =>
    unfold Ctl.enterNormal Ctl.releaseLock at hmode
    dsimp only at hmode
    split at hmode <;> cases hmode
  | paddingdone => exact ⟨hmode, id, rfl⟩

theorem client {k : Ctl} (hs : Follows T s) (h : CtlStep .client s.client k)
    (hends : EndInv T { s with client := k }) (hagrees : Agrees T { s with client := k }) :
    Follows T { s with client := k } := by
  have hid : k.clusterId = s.client.clusterId :=
    congrArg PageInfo.clusterId (pageInfo_ctlStep h T).1
  refine ⟨hends, hagrees, fun hmode => ?_, fun hmode hsent hpage => ?_⟩
  · dsimp only
    rw [hid]
    exact hs.cluster (before_ctlStep h hmode).1
  · obtain ⟨hmode0, hsent0, hpage0⟩ := before_ctlStep h hmode
    exact hs.follows hmode0 (hsent0 hsent) (hpage0.symm.trans hpage)

/-- The server does not leave the transcript of a page the client is still in. -/
theorem server {k : Ctl} (hs : Follows T s) (h : CtlStep .server s.server k)
    (hends : EndInv T { s with server := k }) (hagrees : Agrees T { s with server := k }) :
    Follows T { s with server := k } := by
  refine ⟨hends, hagrees, hs.cluster, fun hmode hsent hpage => ?_⟩
  cases h with
  | tend htend => exact htend
  | toCsbuflo _ htend =>
    rw [hs.not_transcriptEnd hsent hpage] at htend
    cases htend
  | toNormal h =>
    rcases h with ⟨-, htend, -⟩ | hcs
    · rw [hs.not_transcriptEnd hsent hpage] at htend
      cases htend
    · have hsuper := hs.follows hmode hsent hpage
      rw [hcs] at hsuper
      cases hsuper
  | paddingdone hr => cases hr

theorem socks (hs : Follows T s) (p : ℕ → UInt8)
    (hends : EndInv T { s with client := s.client.socks T p })
    (hagrees : Agrees T { s with client := s.client.socks T p }) :
    Follows T { s with client := s.client.socks T p } := by
  refine ⟨hends, hagrees, fun hmode => ?_, fun hmode hsent hpage => ?_⟩
  · dsimp only at hmode ⊢
    unfold Ctl.socks at hmode ⊢
    split_ifs at hmode ⊢
    · exact hs.cluster hmode
    · exact hs.cluster hmode
    · unfold Ctl.queue Ctl.startPage at hmode ⊢
      dsimp only at hmode ⊢
      split at hmode
      · assumption
      · cases hmode
    · exact hs.cluster hmode
  · dsimp only at hmode hsent hpage ⊢
    unfold Ctl.socks at hmode hsent hpage
    split_ifs at hmode hsent hpage
    · exact hs.follows hmode hsent hpage
    · exact hs.follows hmode hsent hpage
    · -- the client is a page ahead
      have hpages := hs.ends.pages
      have hnext : s.client.page + 1 = s.server.page := hpage
      omega
    · exact hs.follows hmode hsent hpage

/-- The last URL under way is that of the client's page. -/
theorem arrive_url {u : List UInt8} {ms : List Msg} (hs : Follows T s)
    (hends : EndInv T ⟨{ s.client with queued := ms }, s.server.receive T (.url u)⟩)
    (hagrees : Agrees T ⟨{ s.client with queued := ms }, s.server.receive T (.url u)⟩) :
    Follows T ⟨{ s.client with queued := ms }, s.server.receive T (.url u)⟩ := by
  refine ⟨hends, hagrees, hs.cluster, fun hmode _ hpage => ?_⟩
  -- no URL is left, so the server knows what the client knows
  have hpages := hends.pages
  have hinfo := hagrees.agrees
  dsimp only at hpage hpages hinfo
  have hnone : urls ms = 0 := by omega
  have hid := (PageInfo.applyAll_of_no_url (T := T) hnone
    (s.server.receive T (.url u)).pageInfo).1
  rw [hinfo, pageInfo_receive] at hid
  have hcluster : hmLookup T.clusters u ≠ -1 := fun hc => hs.cluster hmode (hid.trans hc)
  show (s.server.receive T (.url u)).stmode = .supertrace
  unfold Ctl.receive
  dsimp only
  rw [if_pos hcluster]
  exact if_pos hcluster

/-- **Every step keeps it.** -/
theorem step {G : Ctl → (ℕ → UInt8) → Prop} {s' : Proto} (hs : Follows T s)
    (h : ProtoStep T G s s') : Follows T s' := by
  have hends := hs.ends.step h
  have hagrees := hs.agrees.step h
  cases h with
  | client h => exact hs.client h hends hagrees
  | server h => exact hs.server h hends hagrees
  | socks p _ => exact hs.socks p hends hagrees
  | @toServer m ms h =>
    cases hm : m.isUrl with
    | false =>
      obtain ⟨hsame, -⟩ := receive_of_not_url T s.server hm
      exact ⟨hends, hagrees, hs.cluster, fun hmode hsent hpage =>
        hsame.stmode.trans (hs.follows hmode hsent (hpage.trans hsame.page))⟩
    | true =>
      cases m with
      | url u => exact hs.arrive_url hends hagrees
      | _ => cases hm
  | @toClient m ms h =>
    -- the server sends no URL, so the client stays in its page
    have hfrom := hs.ends.fromServer m (h ▸ List.mem_cons_self)
    obtain ⟨hsame, -⟩ := receive_of_not_url T s.client (not_isUrl_of_fromServer hfrom)
    have hinfo := pageInfo_receive T s.client m
    rw [apply_of_fromServer T _ hfrom] at hinfo
    have hid : (s.client.receive T m).clusterId = s.client.clusterId :=
      congrArg PageInfo.clusterId hinfo
    refine ⟨hends, hagrees, fun hmode => ?_, fun hmode hsent hpage => ?_⟩
    · dsimp only at hmode ⊢
      rw [hid]
      exact hs.cluster (hsame.stmode.symm.trans hmode)
    · exact hs.follows (hsame.stmode.symm.trans hmode) (hsame.sentTend.symm.trans hsent)
        (hsame.page.symm.trans hpage)

end Follows

theorem follows_init (T : Tables) : Follows T {} :=
  ⟨endInv_init T, ⟨by simp, rfl⟩, by simp, by simp⟩

variable {κ : Type}

/-! ## What an event does to an inbox -/

variable {S : Setup κ} {ev : NetEvent} {s s' : Network κ}

/-- An event leaves an inbox alone, or reads into it, or looks for a packet in it. -/
theorem inbox_netStep (h : netStep S s ev = some s') (r : Role) :
    ((s'.side r).inbox = (s.side r).inbox ∧ ∀ n, ev ≠ .netInput r n) ∨
    (∃ n recv, ev = .netInput r n ∧
      n ≤ ((s.side r.peer).ep.pkt.wire.drop (s.side r).inbox.read).length ∧
      packetProcessIncoming (s.side r).inbox.recv
        (((s.side r.peer).ep.pkt.wire.drop (s.side r).inbox.read).take n) = some recv ∧
      (s'.side r).inbox =
        { (s.side r).inbox with recv := recv, read := (s.side r).inbox.read + n }) ∨
    (∃ ts beyond found recv seen, ev = .parse r ts beyond ∧
      packetReadPoll2 (S.keys r.peer) (s.side r).inbox.recv = some (found, recv) ∧
      (s'.side r).inbox = { (s.side r).inbox with recv := recv, seen := seen }) := by
  -- an event of one end that leaves its inbox alone
  have hact : ∀ (r' : Role) {ev' : EndpointEvent} {y : Side κ}, (s.side r').act S r' ev' = some y →
      ((s.setSide y r').side r).inbox = (s.side r).inbox := by
    intro r' ev' y hy
    obtain ⟨e, -, rfl⟩ := Side.act_eq_some hy
    by_cases hr : r' = r
    · subst hr
      rw [Network.side_setSide]
    · rw [Network.side_setSide_of_ne s _ hr]
  cases ev with
  | slot r' inp =>
    obtain ⟨y, hy, rfl⟩ := Option.map_eq_some_iff.mp h
    exact Or.inl ⟨hact r' hy, fun n hn => (nomatch hn)⟩
  | socks p =>
    obtain ⟨y, hy, rfl⟩ := Option.map_eq_some_iff.mp h
    exact Or.inl ⟨hact .client hy, fun n hn => (nomatch hn)⟩
  | data r' x payload =>
    obtain ⟨-, y, hy, rfl⟩ := netStep_data h
    exact Or.inl ⟨hact r' hy, fun n hn => (nomatch hn)⟩
  | netInput r' n =>
    obtain ⟨hn, recv, y, hrecv, hy, rfl⟩ := netStep_netInput h
    obtain ⟨e, -, rfl⟩ := Side.act_eq_some hy
    by_cases hr : r' = r
    · subst hr
      refine Or.inr (Or.inl ⟨n, recv, rfl, hn, hrecv, ?_⟩)
      rw [Network.side_setSide]
    · refine Or.inl ⟨?_, fun n' hn' => ?_⟩
      · rw [Network.side_setSide_of_ne s _ hr]
      · cases hn'
        exact hr rfl
  | parse r' ts beyond =>
    obtain ⟨⟨found, recv⟩, hd, h⟩ := Option.bind_eq_some_iff.mp h
    obtain ⟨y, hy, rfl⟩ := Option.map_eq_some_iff.mp h
    by_cases hr : r' = r
    · subst hr
      cases found with
      | none =>
        obtain rfl := Option.some.inj hy
        refine Or.inr (Or.inr ⟨ts, beyond, none, recv, (s.side r').inbox.seen, rfl, hd, ?_⟩)
        rw [Network.side_setSide]
      | some payload =>
        obtain ⟨e, -, rfl⟩ := Side.act_eq_some hy
        refine Or.inr (Or.inr ⟨ts, beyond, some payload, recv,
          (s.side r').inbox.seen + (Msg.ofPayload payload).toList.length, rfl, hd, ?_⟩)
        rw [Network.side_setSide]
    · refine Or.inl ⟨?_, fun n hn => (nomatch hn)⟩
      rw [Network.side_setSide_of_ne s _ hr]

/-- The bytes an end reads in an event. -/
def NetEvent.bytesRead (S : Setup κ) (s : Network κ) (r : Role) (ev : NetEvent) : ℕ :=
  match ev.at S s r with
  | some ev' => ev'.bytesRead
  | none => 0

theorem read_netStep (h : netStep S s ev = some s') (r : Role) :
    (s'.side r).inbox.read = (s.side r).inbox.read + ev.bytesRead S s r := by
  -- only reading into the inbox counts
  have hzero : (∀ n, ev ≠ .netInput r n) → ev.bytesRead S s r = 0 := by
    intro hno
    unfold NetEvent.bytesRead
    cases hev : ev.at S s r with
    | none => rfl
    | some ev' =>
      cases ev' with
      | received n =>
        unfold NetEvent.at at hev
        split at hev
        case h_4 r' n' =>
          split at hev
          · rename_i hr
            subst hr
            exact absurd rfl (hno n')
          · cases hev
        case h_5 =>
          split at hev
          · split at hev <;> cases hev
          · cases hev
        all_goals split at hev <;> cases hev
      | _ => rfl
  rcases inbox_netStep h r with ⟨hin, hno⟩ | ⟨n, recv, rfl, -, -, hin⟩ |
    ⟨ts, beyond, found, recv, seen, rfl, -, hin⟩
  · rw [hin, hzero hno]
    rfl
  · have hat : NetEvent.at S s r (.netInput r n) = some (.received n) := if_pos rfl
    unfold NetEvent.bytesRead
    rw [hin, hat]
    rfl
  · rw [hin, hzero fun n hn => (nomatch hn)]
    rfl

/-! ## A notification on its way -/

theorem Role.peer_peer (r : Role) : r.peer.peer = r := by cases r <;> rfl

theorem Role.peer_ne (r : Role) : r.peer ≠ r := by cases r <;> decide

/-- **A notification under way stays under way until it is handled.** -/
theorem pending_netStep {r : Role} {m : Msg} {mark : ℕ} (h : netStep S s ev = some s')
    (hp : Pending (S.keys r) m (s.side r.peer).inbox (s.side r).ep.pkt mark) :
    Pending (S.keys r) m (s'.side r.peer).inbox (s'.side r).ep.pkt mark ∨
      ∃ ts payload beyond, ev.at S s r.peer = some (.packet ts payload beyond) ∧
        Msg.ofPayload payload = some m := by
  -- the sender's side, with the inbox as it was
  have hsender : Pending (S.keys r) m (s.side r.peer).inbox (s'.side r).ep.pkt mark := by
    have hat := netStep_at h r
    cases hev : ev.at S s r with
    | none =>
      rw [hev] at hat
      dsimp only at hat
      rw [hat]
      exact hp
    | some ev' =>
      rw [hev] at hat
      exact (sendInv_pending (S.keys r) m (s.side r.peer).inbox mark).endpointStep hat
        (fun _ _ _ => trivial) hp
  -- an event of the receiver's inbox is none of the sender
  have hsame : (∀ n, ev = .netInput r.peer n → (s'.side r).ep = (s.side r).ep) ∧
      ∀ ts beyond, ev = .parse r.peer ts beyond → (s'.side r).ep = (s.side r).ep := by
    have hat := netStep_at h r
    constructor
    · rintro n rfl
      rw [show NetEvent.at S s r (.netInput r.peer n) = none from if_neg r.peer_ne] at hat
      exact hat
    · rintro ts beyond rfl
      rw [show NetEvent.at S s r (.parse r.peer ts beyond) = none from if_neg r.peer_ne] at hat
      exact hat
  rcases inbox_netStep h r.peer with ⟨hin, -⟩ | ⟨n, recv, rfl, hn, hrecv, hin⟩ |
    ⟨ts, beyond, found, recv, seen, rfl, hpoll, hin⟩
  · left
    rw [hin]
    exact hsender
  · left
    rw [hin, hsame.1 n rfl]
    rw [r.peer_peer] at hn hrecv
    exact hp.netInput hn hrecv
  · rw [r.peer_peer] at hpoll
    rcases hp.poll hpoll seen with hfound | hp'
    · right
      cases found with
      | none => cases hfound
      | some payload =>
        refine ⟨ts, payload, beyond, ?_, hfound⟩
        unfold NetEvent.at
        dsimp only
        rw [if_pos rfl, r.peer_peer, hpoll]
    · left
      rw [hin, hsame.2 ts beyond rfl]
      exact hp'

/-! ## Backwards over an event -/

/-- What an end knows of its page did not change within the page: if it replays it without a load
event now, it did before. -/
structure Before {σ β : Type} (e e' : Endpoint σ β) : Prop where
  stmode : e'.g.stmode = .supertrace → e.g.stmode = .supertrace
  onload : e'.g.onloadFlag = false → e.g.onloadFlag = false
  sentTend : e'.g.sentTend = false → e.g.sentTend = false

theorem before_slot {σ β : Type} {c : Codec σ β} {T : Tables} {r : Role} {inp : SlotInput}
    {e e' : Endpoint σ β} (h : slot c T r inp e = .returned e') : Before e e' := by
  have hctl := Transition.inv_reflTransGen
    (I := fun k : Ctl => (k.stmode = .supertrace → e.ctl.stmode = .supertrace) ∧
      (k.onload = false → e.ctl.onload = false) ∧ (k.sentTend = false → e.ctl.sentTend = false))
    ?_ (slot_ctl h) ⟨id, id, id⟩
  · exact ⟨hctl.1, hctl.2.1, hctl.2.2⟩
  · rintro k k' ⟨hmode, hload, hsent⟩ hstep
    cases hstep with
    | tend => exact ⟨hmode, hload, fun hf => (nomatch hf)⟩
    | toCsbuflo => exact ⟨fun hm => (nomatch hm), hload, hsent⟩
    | toNormal =>
      cases r with
      | client =>
        unfold Ctl.enterNormal Ctl.releaseLock
        dsimp only
        split <;> exact ⟨fun hm => (nomatch hm), hload, hsent⟩
      | server => exact ⟨fun hm => (nomatch hm), hload, hsent⟩
    | paddingdone => exact ⟨hmode, hload, hsent⟩

/-- Without the start of a page, an event is a slot, sets flags, or is none of the end. -/
theorem side_cases {r : Role} (h : netStep S s ev = some s')
    (hpage : (s'.side r).ep.page = (s.side r).ep.page) :
    (ev.at S s r = none ∧ (s'.side r).ep = (s.side r).ep) ∨
    (∃ inp, ev = .slot r inp ∧
      slot (packetCodec (S.keys r)) S.tables r inp (s.side r).ep = .returned (s'.side r).ep) ∨
    (∃ ev', ev.at S s r = some ev' ∧ (∀ inp, ev' ≠ .slot inp) ∧
      endpointStep (packetCodec (S.keys r)) S.tables r (s.side r).ep ev' = some (s'.side r).ep ∧
      FlagStep ev' (s.side r).ep (s'.side r).ep) := by
  have hat := netStep_at h r
  cases hev : ev.at S s r with
  | none =>
    rw [hev] at hat
    exact Or.inl ⟨rfl, hat⟩
  | some ev' =>
    rw [hev] at hat
    rcases endpointStep_cases hat with ⟨inp, rfl, hslot⟩ | ⟨hno, hflag⟩ | ⟨hstart, -⟩
    · exact Or.inr (Or.inl ⟨inp, NetEvent.at_eq_slot hev, hslot⟩)
    · exact Or.inr (Or.inr ⟨ev', rfl, hno, hat, hflag⟩)
    · have hnext := hstart.page
      omega

theorem before_netStep {r : Role} (h : netStep S s ev = some s')
    (hpage : (s'.side r).ep.page = (s.side r).ep.page) : Before (s.side r).ep (s'.side r).ep := by
  rcases side_cases h hpage with ⟨-, hep⟩ | ⟨inp, -, hslot⟩ | ⟨ev', -, -, -, hflag⟩
  · rw [hep]
    exact ⟨id, id, id⟩
  · exact before_slot hslot
  · refine ⟨hflag.stmode.symm.trans, fun hload => ?_, hflag.sentTend.symm.trans⟩
    exact Bool.eq_false_iff.mpr fun htrue => by
      rw [hflag.onload htrue] at hload
      cases hload

/-! ## Starting a page -/

section Start

variable {S : Setup κ} {s s' : Network κ} {ev : NetEvent}

/-- The client starts a page on a request; the server takes no part. -/
theorem start_client (hs : PagesInv S s) (h : netStep S s ev = some s')
    (hpage : s'.client.ep.page ≠ s.client.ep.page) :
    ∃ p, ev = .socks p ∧ PageStep S.tables (.socks p) s.client.ep s'.client.ep ∧
      s'.server.ep = s.server.ep := by
  obtain ⟨ev', hev, hstep, p, rfl⟩ := hs.start (r := .client) h hpage
  obtain rfl := NetEvent.at_eq_socks hev
  exact ⟨p, rfl, hstep, netStep_at h .server⟩

/-- The server starts a page on a URL; the client takes no part. -/
theorem start_server (h : netStep S s ev = some s')
    (hpage : s'.server.ep.page ≠ s.server.ep.page) :
    ∃ ts payload beyond u, ev.at S s .server = some (.packet ts payload beyond) ∧
      Msg.ofPayload payload = some (.url u) ∧
      PageStep S.tables (.packet ts payload beyond) s.server.ep s'.server.ep ∧
      s'.client.ep = s.client.ep ∧ s'.client.inbox = s.client.inbox := by
  have hat := netStep_at h .server
  cases hev : ev.at S s .server with
  | none =>
    rw [hev] at hat
    exact absurd (congrArg Endpoint.page hat) hpage
  | some ev' =>
    rw [hev] at hat
    rcases endpointStep_cases hat with ⟨inp, -, hslot⟩ | ⟨-, hflag⟩ | ⟨hstep, hcase⟩
    · exact absurd (page_slot hslot) hpage
    · exact absurd hflag.page hpage
    · rcases hcase with ⟨p, hr, -⟩ | ⟨ts, payload, beyond, u, rfl, hu⟩
      · cases hr
      · -- it is an event of the server, so the client's end is as it was
        obtain ⟨rfl, -⟩ := NetEvent.at_eq_packet hev
        refine ⟨ts, payload, beyond, u, rfl, hu, hstep, netStep_at h .client, ?_⟩
        rcases inbox_netStep h .client with ⟨hin, -⟩ | ⟨_, _, hne, -⟩ | ⟨_, _, _, _, _, hne, -⟩
        · exact hin
        · cases hne
        · cases hne

theorem receive_url (T : Tables) (k : Ctl) (u : List UInt8) :
    (k.receive T (.url u)).page = k.page + 1 ∧
      ((k.receive T (.url u)).stmode = .supertrace → hmLookup T.clusters u ≠ -1 ∧
        Msg.urlack ∈ (k.receive T (.url u)).queued) := by
  unfold Ctl.receive
  dsimp only
  split
  · rename_i hid
    exact ⟨rfl, fun _ => ⟨hid, List.mem_append_right _ List.mem_cons_self⟩⟩
  · rename_i hid
    refine ⟨rfl, fun hmode => ?_⟩
    rw [Ctl.startPage, if_neg hid] at hmode
    cases hmode

/-- A URL that arrives starts a page, and is acknowledged in transcript mode. -/
theorem url_arrives {ts : ℕ} {payload : List UInt8} {beyond : ℕ → UInt8} {u : List UInt8}
    (hs : Channels S s) (h : netStep S s ev = some s')
    (hev : ev.at S s .server = some (.packet ts payload beyond))
    (hu : Msg.ofPayload payload = some (.url u)) :
    s'.server.ep.page = s.server.ep.page + 1 ∧
      (s'.server.ep.g.stmode = .supertrace → hmLookup S.tables.clusters u ≠ -1 ∧
        Msg.urlack ∈ s'.server.ep.pkt.queued.drop s.client.inbox.seen) := by
  have hat := netStep_at h .server
  rw [hev] at hat
  obtain ⟨-, recv, hpoll⟩ := NetEvent.at_eq_packet hev
  have hview : s'.server.ep.view s.client.inbox.seen =
      (s.server.ep.view s.client.inbox.seen).receive S.tables (.url u) := by
    have hdeliver := view_packet (hs.toServer.poll hpoll).1 hat hs.toClient.seen_le
    rw [hu] at hdeliver
    exact hdeliver
  obtain ⟨hpage, hqueued⟩ := receive_url S.tables (s.server.ep.view s.client.inbox.seen) u
  rw [← hview] at hpage hqueued
  exact ⟨hpage, hqueued⟩

/-- Within a page, what an end commits and counts moves on. -/
theorem advance_netStep {r : Role} (he : CursorInv S.tables r (s.side r).ep)
    (h : netStep S s ev = some s') (hpage : (s'.side r).ep.page = (s.side r).ep.page)
    (hmode : (s.side r).ep.g.stmode = .supertrace) (hload : (s.side r).ep.g.onloadFlag = false)
    (hgate : ∀ inp x, ev = .slot r inp → slotPlan S.tables r inp (s.side r).ep = .entry x →
      x.verdict = .go → r = .client → (s.side r).ep.g.gateClosed = false) :
    Advance S.tables r (ev.bytesRead S s r) (s.side r).ep (s'.side r).ep := by
  unfold NetEvent.bytesRead
  rcases side_cases h hpage with ⟨hat, hep⟩ | ⟨inp, rfl, hslot⟩ | ⟨ev', hat, hno, hstep, hflag⟩
  · rw [hat, hep]
    exact Advance.refl _ _ _
  · have hat : NetEvent.at S s r (.slot r inp) = some (.slot inp) := if_pos rfl
    rw [hat]
    exact advance_slot hslot he hmode hload fun x => hgate inp x rfl
  · rw [hat]
    exact advance_flag hstep hno hflag

end Start

end CSBuFLO
