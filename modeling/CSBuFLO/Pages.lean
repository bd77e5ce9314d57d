/-
# Pages of the connection

What the two ends of the connection do page by page.  `NetEvent.at` projects an event of
the connection to each end, so that facts about single endpoints apply to it
(`netStep_at`).

The protocol of `TranscriptEnd.lean` closes the one gap that `Cursor.lean` leaves open: no
end starts a page while an entry of the last page is waiting.  The client starts a page in
normal mode only, and a URL can reach a server in transcript mode only after its `TEND`.
So `CursorInv` holds at both ends in every reachable state (`PagesInv`).
-/
import CSBuFLO.Cursor
import CSBuFLO.TranscriptEnd

namespace CSBuFLO

variable {κ : Type}

/-! ## The ends of an event -/

/-- What an event is for one end; `none` if the end does not take part. -/
def NetEvent.at (S : Setup κ) (s : Network κ) (r : Role) : NetEvent → Option EndpointEvent
  | .slot r' inp => if r' = r then some (.slot inp) else none
  | .socks p => if Role.client = r then some (.socks p) else none
  | .data r' x payload => if r' = r then some (.data x payload) else none
  | .netInput r' n => if r' = r then some (.received n) else none
  | .parse r' curTs beyond =>
    if r' = r then
      match packetReadPoll2 (S.keys r.peer) (s.side r).inbox.recv with
      | some (some payload, _) => some (.packet curTs payload beyond)
      | _ => none
    else none

@[simp] theorem Network.side_setSide (s : Network κ) (x : Side κ) (r : Role) :
    (s.setSide x r).side r = x := by
  cases r <;> rfl

variable {r : Role} {S : Setup κ} {ev : NetEvent} {s : Network κ}

theorem Network.side_setSide_of_ne (s : Network κ) (x : Side κ) {r' : Role} (h : r' ≠ r) :
    (s.setSide x r').side r = s.side r := by
  cases r <;> cases r' <;> first | rfl | exact absurd rfl h

/-- **An event of the connection is an event of each of its ends, or nothing.** -/
theorem netStep_at {s' : Network κ} (h : netStep S s ev = some s') (r : Role) :
    match ev.at S s r with
    | none => (s'.side r).ep = (s.side r).ep
    | some ev' =>
      endpointStep (packetCodec (S.keys r)) S.tables r (s.side r).ep ev' =
        some (s'.side r).ep := by
  -- an end that is replaced by the result of one of its events
  have hact : ∀ {r' : Role} {x y : Side κ} {ev' : EndpointEvent}, x.act S r' ev' = some y →
      s' = s.setSide y r' → x.ep = (s.side r').ep →
      (r' = r → endpointStep (packetCodec (S.keys r)) S.tables r (s.side r).ep ev' =
        some (s'.side r).ep) ∧ (r' ≠ r → (s'.side r).ep = (s.side r).ep) := by
    intro r' x y ev' hy hs' hx
    obtain ⟨e, he, rfl⟩ := Side.act_eq_some hy
    rw [hs']
    refine ⟨?_, fun hne => by rw [Network.side_setSide_of_ne s _ hne]⟩
    rintro rfl
    rw [Network.side_setSide, ← hx]
    exact he
  -- the event it is, if it is one of this end
  have hpick : ∀ {r' : Role} {ev' : EndpointEvent},
      ((r' = r → endpointStep (packetCodec (S.keys r)) S.tables r (s.side r).ep ev' =
        some (s'.side r).ep) ∧ (r' ≠ r → (s'.side r).ep = (s.side r).ep)) →
      match (if r' = r then some ev' else none) with
      | none => (s'.side r).ep = (s.side r).ep
      | some ev' => endpointStep (packetCodec (S.keys r)) S.tables r (s.side r).ep ev' =
          some (s'.side r).ep := by
    rintro r' ev' ⟨hsame, hother⟩
    by_cases hr : r' = r
    · rw [if_pos hr]
      exact hsame hr
    · rw [if_neg hr]
      exact hother hr
  cases ev with
  | slot r' inp =>
    obtain ⟨x, hx, rfl⟩ := Option.map_eq_some_iff.mp h
    exact hpick (hact hx rfl rfl)
  | socks p =>
    obtain ⟨x, hx, rfl⟩ := Option.map_eq_some_iff.mp h
    exact hpick (hact hx rfl rfl)
  | data r' x payload =>
    obtain ⟨-, y, hy, rfl⟩ := netStep_data h
    exact hpick (hact hy rfl rfl)
  | netInput r' n =>
    obtain ⟨-, recv, y, -, hy, rfl⟩ := netStep_netInput h
    exact hpick (hact hy rfl rfl)
  | parse r' ts beyond =>
    obtain ⟨⟨found, recv⟩, hd, h⟩ := Option.bind_eq_some_iff.mp h
    obtain ⟨y, hy, rfl⟩ := Option.map_eq_some_iff.mp h
    unfold NetEvent.at
    dsimp only
    by_cases hr : r' = r
    · subst hr
      rw [if_pos rfl, hd]
      cases found with
      | none =>
        obtain rfl := Option.some.inj hy
        dsimp only
        rw [Network.side_setSide]
      | some payload => exact (hact hy rfl rfl).1 rfl
    · rw [if_neg hr]
      dsimp only
      rw [Network.side_setSide_of_ne s _ hr]

/-! ## Starting a page -/

/-- A packet is handled by an end that finds it in what it has read. -/
theorem NetEvent.at_eq_packet {ts : ℕ} {payload : List UInt8} {beyond : ℕ → UInt8}
    (h : ev.at S s r = some (.packet ts payload beyond)) :
    ev = .parse r ts beyond ∧ ∃ recv,
      packetReadPoll2 (S.keys r.peer) (s.side r).inbox.recv = some (some payload, recv) := by
  unfold NetEvent.at at h
  split at h
  case h_5 =>
    split at h
    · rename_i hr
      subst hr
      split at h
      · rename_i found recv hpoll
        cases h
        exact ⟨rfl, recv, hpoll⟩
      · cases h
    · cases h
  all_goals
    split at h
    · cases h
    · cases h

theorem NetEvent.at_eq_slot {inp : SlotInput} (h : ev.at S s r = some (.slot inp)) :
    ev = .slot r inp := by
  unfold NetEvent.at at h
  split at h
  case h_1 =>
    split at h
    · rename_i hr
      subst hr
      cases h
      rfl
    · cases h
  case h_5 =>
    split at h
    · split at h <;> cases h
    · cases h
  all_goals split at h <;> cases h

theorem NetEvent.at_eq_socks {p : ℕ → UInt8} (h : ev.at S s r = some (.socks p)) :
    ev = .socks p := by
  unfold NetEvent.at at h
  split at h
  case h_2 =>
    split at h
    · cases h
      rfl
    · cases h
  case h_5 =>
    split at h
    · split at h <;> cases h
    · cases h
  all_goals split at h <;> cases h

/-- A notification found by an end is the oldest one under way to it. -/
theorem inFlight_of_packet {ts : ℕ} {payload : List UInt8} {beyond : ℕ → UInt8} {m : Msg}
    (hs : Channels S s) (hev : ev.at S s r = some (.packet ts payload beyond))
    (hm : Msg.ofPayload payload = some m) : ∃ rest, s.inFlight r.peer = m :: rest := by
  obtain ⟨-, recv, hpoll⟩ := NetEvent.at_eq_packet hev
  have hcarries : ∀ {K : Keys κ} {inbox : Inbox κ} {p : PacketState (SendState κ) UInt8},
      Carries K inbox p → packetReadPoll2 K inbox.recv = some (some payload, recv) →
      ∃ rest, p.queued.drop inbox.seen = m :: rest := by
    intro K inbox p hp h
    have hsplit := (hp.poll h).2.2
    rw [hm] at hsplit
    exact ⟨_, hsplit⟩
  cases r with
  | client => exact hcarries hs.toClient hpoll
  | server => exact hcarries hs.toServer hpoll

/-- What holds of both ends in every reachable state. -/
structure PagesInv (S : Setup κ) (s : Network κ) : Prop where
  channels : Channels S s
  ends : EndInv S.tables s.proto
  cursor : ∀ r, CursorInv S.tables r (s.side r).ep

/-- The client starts a page on a request only; the server starts one on a URL, and then it
is not in the middle of a transcript. -/
theorem PagesInv.start {s' : Network κ} (hs : PagesInv S s) (h : netStep S s ev = some s')
    (hpage : (s'.side r).ep.page ≠ (s.side r).ep.page) :
    ∃ ev', ev.at S s r = some ev' ∧ PageStep S.tables ev' (s.side r).ep (s'.side r).ep ∧
      match r with
      | .client => ∃ p, ev' = .socks p
      | .server => s.server.ep.g.stmode = .supertrace → s.server.ep.g.sentTend = true := by
  have hat := netStep_at h r
  cases hev : ev.at S s r with
  | none =>
    rw [hev] at hat
    exact absurd (congrArg Endpoint.page hat) hpage
  | some ev' =>
    rw [hev] at hat
    refine ⟨ev', rfl, ?_⟩
    rcases endpointStep_cases hat with ⟨inp, -, hslot⟩ | ⟨-, hflag⟩ | ⟨hstep, hcase⟩
    · exact absurd (page_slot hslot) hpage
    · exact absurd hflag.page hpage
    · refine ⟨hstep, ?_⟩
      rcases hcase with ⟨p, rfl, rfl⟩ | ⟨ts, payload, beyond, u, rfl, hu⟩
      · exact ⟨p, rfl⟩
      · obtain ⟨rest, hflight⟩ := inFlight_of_packet hs.channels hev hu
        cases r with
        | client =>
          -- the server sends no URL
          have hmem : Msg.url u ∈ s.inFlight .server := hflight ▸ List.mem_cons_self
          have hfrom := hs.ends.fromServer _ hmem
          cases hfrom
        | server =>
          intro hmode
          cases hsent : s.server.ep.g.sentTend with
          | true => rfl
          | false =>
            have hurls := (hs.ends.running hmode hsent).2
            have hpos : 0 < urls (s.inFlight .client) :=
              urls_pos_of_mem (hflight ▸ List.mem_cons_self)
            rw [Network.queued_client_proto] at hurls
            omega

/-- **No page starts while an entry is waiting.** -/
theorem PagesInv.not_waiting {s' : Network κ} (hs : PagesInv S s) (h : netStep S s ev = some s')
    (hpage : (s'.side r).ep.page ≠ (s.side r).ep.page) :
    (s.side r).ep.loop.waitingForAPacket = false := by
  obtain ⟨ev', -, hstep, hrole⟩ := hs.start h hpage
  have hcursor := hs.cursor r
  by_cases hmode : (s.side r).ep.g.stmode = .supertrace
  · cases r with
    | client =>
      obtain ⟨p, rfl⟩ := hrole
      have hnormal := (hstep.request p rfl).2.1
      rw [hmode] at hnormal
      cases hnormal
    | server => exact (hcursor.reached.done hmode (hrole hmode)).2.1
  · exact hcursor.idle hmode

/-- **Every event of the connection keeps the invariant.** -/
theorem PagesInv.netStep {s' : Network κ} (hs : PagesInv S s) (h : netStep S s ev = some s') :
    PagesInv S s' := by
  obtain ⟨hchannels, hends⟩ := inv_netStep (G := fun _ _ => True) (I := EndInv S.tables)
    (fun _ _ hi hstep => hi.step hstep) (fun _ _ => trivial) ⟨hs.channels, hs.ends⟩ h
  refine ⟨hchannels, hends, fun r => ?_⟩
  have hat := netStep_at h r
  cases hev : ev.at S s r with
  | none =>
    rw [hev] at hat
    dsimp only at hat
    rw [hat]
    exact hs.cursor r
  | some ev' =>
    rw [hev] at hat
    exact cursorInv_endpointStep hat (hs.cursor r) (hs.not_waiting h)

theorem Network.Fresh.side_eq (h : s.Fresh S) (r : Role) :
    ∃ snd, (s.side r).ep = { pkt := { snd := snd } } := by
  obtain ⟨⟨snd, hep, -⟩, ⟨snd', hep', -⟩⟩ := h
  cases r with
  | client => exact ⟨snd, hep⟩
  | server => exact ⟨snd', hep'⟩

theorem Network.Fresh.pages (h : s.Fresh S) : PagesInv S s := by
  refine ⟨h.channels, h.proto ▸ endInv_init S.tables, fun r => ?_⟩
  obtain ⟨snd, hep⟩ := h.side_eq r
  rw [hep]
  exact cursorInv_init S.tables r snd

/-! ## A sample page -/

/-- The page `a` has one entry of the client, the page `b` has two. -/
def oneAndTwo : Tables where
  clusters := ⟨fun _ => [([97], 1), ([98], 2)], Hashmap.pos_pagesAB⟩
  straces id :=
    if id = 1 then [⟨-400, 50, 0, 0⟩] else [⟨-400, 50, 0, 0⟩, ⟨-200, 50, 0, 0⟩]

/-- The page `b`, up to the arrival of its `URLACK`. -/
def ackedPage : List NetEvent :=
  [.socks (urlRequest 98), .slot .client (openSlot 100000), .netInput .server 400,
    .parse .server 0 fun _ => 0, .slot .server (openSlot 200000), .netInput .client 24,
    .parse .client 0 fun _ => 0]

end CSBuFLO
