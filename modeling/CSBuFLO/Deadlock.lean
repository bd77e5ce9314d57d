/-
# Deadlocks of the replay

An end of a page waits until it has counted the bytes its entry expects, the client's second entry
also until the URL is acknowledged.  A deadlock is a state in which nothing is in flight, one end
waits, and the other one waits as well or has nothing left to send: only the breaker, five seconds
later, gets the page going again.

`handshake_not_deadlock` is the argument.  If both ends wait for bytes, the one whose entry comes
first in the trace has been sent all it expects, since the trace keeps pace.  If the client waits
for the acknowledgement, the server has sent its first burst, and the acknowledgement with it.

* `replay_deadlock_free` : a run that meets `HandshakeGuard` reaches no deadlock;
* `merged_burst_deadlocks` : without the guard, a page whose first client burst was merged does.
-/
import CSBuFLO.Handshake

namespace CSBuFLO

/-! ## Entries of a trace -/

theorem bytes_filter (d : Bool) (l : List StPair) : bytes d (l.filter (ownItem d)) = bytes d l := by
  unfold bytes
  rw [List.filter_filter]
  simp

variable {l : List StPair} {r : Role}

theorem bytes_le_of_prefix {d : Bool} {l' : List StPair} (h : l <+: l') :
    bytes d l ≤ bytes d l' := by
  obtain ⟨t, rfl⟩ := h
  rw [bytes_append]
  exact Nat.le_add_right _ _

/-- The place in a trace of the entry after some own ones. -/
theorem exists_place {d : Bool} {own rest : List StPair} {x : StPair}
    (h : l.filter (ownItem d) = own ++ x :: rest) :
    ∃ before after, l = before ++ x :: after ∧ before.filter (ownItem d) = own ∧
      ownItem d x = true := by
  obtain ⟨l1, l2, rfl, hown, hrest⟩ := List.filter_eq_append_iff.mp h
  obtain ⟨m1, m2, rfl, hnot, hx, -⟩ := List.filter_eq_cons_iff.mp hrest
  refine ⟨l1 ++ m1, m2, by simp, ?_, hx⟩
  rw [List.filter_append, hown, List.filter_eq_nil_iff.mpr hnot, List.append_nil]

/-- The first burst ends before an entry that expects something. -/
theorem firstBurst_append {x y : StPair} {rest : List StPair} (hy : y.expected ≠ 0) :
    firstBurst (x :: (l ++ y :: rest)) <+: x :: l := by
  refine List.cons_prefix_cons.mpr ⟨rfl, ?_⟩
  induction l with
  | nil =>
    rw [List.nil_append, List.takeWhile_cons_of_neg (by simpa using hy)]
  | cons z l ih =>
    rw [List.cons_append, List.takeWhile_cons]
    split
    · exact List.cons_prefix_cons.mpr ⟨rfl, ih⟩
    · exact List.nil_prefix

/-! ## Deadlocks -/

section Ends

variable {σ β : Type}

/-- An end that waits: its entry expects more than it has counted. -/
structure Endpoint.Blocked (r : Role) (e : Endpoint σ β) : Prop where
  mode : e.g.stmode = .supertrace
  waiting : e.loop.waitingForAPacket = true
  expects : ∃ x ∈ e.g.curItem, e.g.receivedSofar < (admitItem r 0 x e.g).2.1

/-- An end that has nothing left to send: all entries of its page are behind it and nothing is
queued, or it is not in transcript mode. -/
def Endpoint.Done (T : Tables) (r : Role) (e : Endpoint σ β) : Prop :=
  e.g.stmode = .supertrace →
    e.behind T r = ownItems T r e.g.clusterId ∧ e.pkt.outputLen = 0

instance (r : Role) (e : Endpoint σ β) : Decidable (e.Blocked r) :=
  decidable_of_iff (e.g.stmode = .supertrace ∧ e.loop.waitingForAPacket = true ∧
      ∃ x ∈ e.g.curItem, e.g.receivedSofar < (admitItem r 0 x e.g).2.1)
    ⟨fun h => ⟨h.1, h.2.1, h.2.2⟩, fun h => ⟨h.mode, h.waiting, h.expects⟩⟩

instance (T : Tables) (r : Role) (e : Endpoint σ β) : Decidable (e.Done T r) := by
  unfold Endpoint.Done
  infer_instance

/-- The entry a blocked end waits with, and its place in the trace. -/
theorem Endpoint.Blocked.place {T : Tables} {e : Endpoint σ β} (h : e.Blocked r)
    (he : CursorInv T r e) :
    ∃ x before after rest, T.straces e.g.clusterId = before ++ x :: after ∧
      before.filter (ownItem r.isPos) = e.behind T r ∧ ownItem r.isPos x = true ∧
      ownItems T r e.g.clusterId = e.behind T r ++ x :: rest ∧
      e.g.receivedSofar < (admitItem r 0 x e.g).2.1 := by
  obtain ⟨x, hx, hupto⟩ := he.cursor h.waiting
  obtain ⟨y, hy, hexpects⟩ := h.expects
  obtain rfl : x = y := Option.some.inj (hx.symm.trans hy)
  obtain ⟨rest, hrest⟩ := upto_isPrefix T r e.g
  rw [hupto, List.append_assoc, List.singleton_append] at hrest
  obtain ⟨before, after, hl, hbefore, hown⟩ := exists_place hrest.symm
  exact ⟨x, before, after, rest, hl, hbefore, hown, hrest.symm, hexpects⟩

theorem Endpoint.Blocked.sentTend {e : Endpoint σ β} (h : e.Blocked r) (he : Reached r e) :
    e.g.sentTend = false := by
  cases hsent : e.g.sentTend with
  | false => rfl
  | true =>
    have hwait := (he.done h.mode hsent).2.1
    rw [h.waiting] at hwait
    cases hwait

theorem Endpoint.Blocked.firstClient {T : Tables} {e : Endpoint σ β} (h : e.Blocked r)
    (he : CursorInv T r e) : e.g.firstClient = false := by
  cases hfirst : e.g.firstClient with
  | false => rfl
  | true =>
    have hwait := (he.first h.mode hfirst).1
    rw [h.waiting] at hwait
    cases hwait

end Ends

variable {κ : Type}

/-- Nothing is in flight to an end: it has read all its peer has written and handled all packets in
it, and its peer has written all it was granted. -/
structure Network.Settled (S : Setup κ) (s : Network κ) (r : Role) : Prop where
  read : (s.side r).inbox.read = (s.side r.peer).ep.pkt.wire.length
  handled : (packetReadPoll2 (S.keys r.peer) (s.side r).inbox.recv).map Prod.fst = some none
  written : (s.side r.peer).ep.g.stmode = .supertrace → (s.side r.peer).ep.g.w2w = 0

/-- **A deadlock**: nothing is in flight, there was no load event, an end is blocked, and its peer
is blocked or done. -/
structure Network.Deadlock (S : Setup κ) (s : Network κ) : Prop where
  settled : ∀ r, s.Settled S r
  load : s.client.ep.g.onloadFlag = false
  stuck : ∃ r, (s.side r).ep.Blocked r ∧
    ((s.side r.peer).ep.Blocked r.peer ∨ (s.side r.peer).ep.Done S.tables r.peer)

instance (S : Setup κ) (s : Network κ) (r : Role) : Decidable (s.Settled S r) :=
  decidable_of_iff ((s.side r).inbox.read = (s.side r.peer).ep.pkt.wire.length ∧
      (packetReadPoll2 (S.keys r.peer) (s.side r).inbox.recv).map Prod.fst = some none ∧
      ((s.side r.peer).ep.g.stmode = .supertrace → (s.side r.peer).ep.g.w2w = 0))
    ⟨fun h => ⟨h.1, h.2.1, h.2.2⟩, fun h => ⟨h.read, h.handled, h.written⟩⟩

instance (S : Setup κ) (s : Network κ) : Decidable (s.Deadlock S) :=
  decidable_of_iff ((s.Settled S .client ∧ s.Settled S .server) ∧ s.client.ep.g.onloadFlag = false ∧
      ((s.client.ep.Blocked .client ∧
        (s.server.ep.Blocked .server ∨ s.server.ep.Done S.tables .server)) ∨
      (s.server.ep.Blocked .server ∧
        (s.client.ep.Blocked .client ∨ s.client.ep.Done S.tables .client))))
    ⟨fun ⟨⟨hclient, hserver⟩, hload, hstuck⟩ =>
      ⟨fun r => by
        cases r
        · exact hclient
        · exact hserver, hload, hstuck.elim (fun h => ⟨.client, h⟩) fun h => ⟨.server, h⟩⟩,
    fun ⟨hsettled, hload, r, hstuck⟩ =>
      ⟨⟨hsettled .client, hsettled .server⟩, hload, by
        cases r
        · exact Or.inl hstuck
        · exact Or.inr hstuck⟩⟩

section Stuck

variable {S : Setup κ} {s : Network κ}

/-- What was granted is written. -/
theorem Network.Settled.committed (h : s.Settled S r)
    (hmode : (s.side r.peer).ep.g.stmode = .supertrace) :
    (s.side r.peer).ep.committed = (s.side r.peer).ep.pkt.wire.length := by
  unfold Endpoint.committed
  rw [h.written hmode, add_zero]

/-- What is pending for a settled end is not written yet. -/
theorem Pending.not_written {m : Msg} {mark : ℕ} (h : s.Settled S r)
    (hp : Pending (S.keys r.peer) m (s.side r).inbox (s.side r.peer).ep.pkt mark) :
    (s.side r.peer).ep.pkt.wire.length < mark ∧ (s.side r.peer).ep.pkt.output ≠ [] := by
  obtain ⟨⟨found, recv⟩, hpoll, hfound⟩ := Option.map_eq_some_iff.mp h.handled
  obtain rfl : found = none := hfound
  exact hp.not_settled h.read hpoll

namespace Handshake

theorem clusterId_eq (hs : Handshake S s) (ht : Together s) (r : Role) :
    (s.side r).ep.g.clusterId = s.client.ep.g.clusterId := by
  cases r with
  | client => rfl
  | server => exact (hs.follows.sameInfo ht.page).1

/-- **A blocked end is short of bytes of the trace**: of those before its entry, its peer has not
sent them all. -/
theorem starved (hs : Handshake S s) (hpaced : ∀ id, Paced (S.tables.straces id)) (ht : Together s)
    (hsettled : s.Settled S r) (hpeer : (s.side r.peer).ep.g.stmode = .supertrace)
    (h : (s.side r).ep.Blocked r) (hopen : r = .client → (s.side r).ep.g.gateClosed = false) :
    ∃ before, before <+: S.tables.straces s.client.ep.g.clusterId ∧
      before.filter (ownItem r.isPos) = (s.side r).ep.behind S.tables r ∧
      bytes (!r.isPos) ((s.side r.peer).ep.behind S.tables r.peer) < bytes (!r.isPos) before := by
  obtain ⟨x, before, after, rest, hl, hbefore, hown, hitems, hexpects⟩ :=
    h.place (hs.gates.pages.cursor r)
  refine ⟨before, ?_, hbefore, ?_⟩
  · rw [← hs.clusterId_eq ht r, hl]
    exact List.prefix_append _ _
  · -- all the peer has sent is counted, and that is less than the trace has before the entry
    have hpace := hpaced _ r.isPos before x after hl hown
    have hcounted := (hs.balanced ht).counted r (by rw [hitems]; simp)
    rw [hsettled.committed hpeer, hsettled.read] at hcounted
    rw [admitItem_of_open hopen] at hexpects
    unfold Endpoint.tally at hcounted
    rw [hbefore] at hpace
    have hdir : r.peer.isPos = !r.isPos := by cases r <;> rfl
    rw [hdir] at hcounted
    omega

/-- A peer that is done has sent all bytes of the trace. -/
theorem not_starved_of_done (hs : Handshake S s) {before : List StPair} (ht : Together s)
    (hdone : (s.side r.peer).ep.behind S.tables r.peer =
      ownItems S.tables r.peer (s.side r.peer).ep.g.clusterId)
    (hbefore : before <+: S.tables.straces s.client.ep.g.clusterId) :
    bytes (!r.isPos) before ≤ bytes (!r.isPos) ((s.side r.peer).ep.behind S.tables r.peer) := by
  have hdir : r.peer.isPos = !r.isPos := by cases r <;> rfl
  rw [hdone, hs.clusterId_eq ht r.peer]
  unfold ownItems
  rw [hdir, bytes_filter]
  exact bytes_le_of_prefix hbefore

/-- Two ends cannot both be short of bytes of the trace. -/
theorem not_both_starved {before before' behind behind' : List StPair} {d : Bool} (h : before <+: l)
    (h' : before' <+: l) (hbehind : before.filter (ownItem d) = behind)
    (hbehind' : before'.filter (ownItem (!d)) = behind')
    (hshort : bytes (!d) behind' < bytes (!d) before) (hshort' : bytes d behind < bytes d before') :
    False := by
  rw [← hbehind', bytes_filter] at hshort
  rw [← hbehind, bytes_filter] at hshort'
  rcases List.prefix_or_prefix_of_prefix h h' with hle | hle
  · have := bytes_le_of_prefix (d := !d) hle
    omega
  · have := bytes_le_of_prefix (d := d) hle
    omega

/-- A blocked client is in the page the server is in: its first entry has taken the URL along. -/
theorem together_of_blocked_client (hs : Handshake S s) (hsettled : ∀ r, s.Settled S r)
    (hload : s.client.ep.g.onloadFlag = false) (h : s.client.ep.Blocked .client) :
    Underway s ∧ Together s := by
  have hcursor : CursorInv S.tables .client s.client.ep := hs.gates.pages.cursor .client
  have hu : Underway s := ⟨h.mode, h.sentTend hcursor.reached, hload⟩
  have hpage : s.client.ep.page = s.server.ep.page := by
    by_contra hne
    obtain ⟨u, mark, -, hp, hsent⟩ := hs.url hu hne
    have hwritten : s.client.ep.pkt.wire.length < mark :=
      (Pending.not_written (hsettled .server) hp).1
    -- the URL is behind what is written, but the first entry took it along
    rcases hsent with hfirst | hsent
    · rw [h.firstClient hcursor] at hfirst
      cases hfirst
    · have hcommitted : s.client.ep.committed = s.client.ep.pkt.wire.length :=
        (hsettled .server).committed h.mode
      omega
  exact ⟨hu, hu.mode, hs.follows.follows hu.mode hu.sentTend hpage, hpage, hload⟩

/-- A client that waits for the acknowledgement has two entries or more. -/
theorem two_entries (hs : Handshake S s) (hu : Underway s) (ht : Together s)
    (h : s.client.ep.Blocked .client) (hfirst : s.client.ep.g.firstClient = false)
    (hsecond : s.client.ep.g.secondClient = true) :
    2 ≤ (ownItems S.tables .client s.server.ep.g.clusterId).length := by
  obtain ⟨x, _, _, rest, -, -, -, hown, -⟩ := h.place (hs.gates.pages.cursor .client)
  have hone := (hs.client hu.mode hu.load).second hfirst hsecond
  have hid : s.server.ep.g.clusterId = s.client.ep.g.clusterId := hs.clusterId_eq ht .server
  rw [hid, hown, List.length_append, hone, List.length_cons]
  omega

/-- A blocked server has sent its first burst, and has an entry left. -/
theorem first_burst_sent (hs : Handshake S s) (ht : Together s) (h : s.server.ep.Blocked .server) :
    firstBurst (ownItems S.tables .server s.server.ep.g.clusterId) <+:
        s.server.ep.behind S.tables .server ∧
      firstBurst (ownItems S.tables .server s.server.ep.g.clusterId) ≠
        ownItems S.tables .server s.server.ep.g.clusterId := by
  have hcursor : CursorInv S.tables .server s.server.ep := hs.gates.pages.cursor .server
  obtain ⟨y, before, after, rest, -, -, -, hitems, hexpects⟩ := h.place hcursor
  have hopen : (admitItem .server 0 y s.server.ep.g).2.1 = y.expected :=
    admitItem_of_open (r := .server) (fun hr => (nomatch hr)) 0 y
  rw [hopen] at hexpects
  have hburst : firstBurst (ownItems S.tables .server s.server.ep.g.clusterId) <+:
      s.server.ep.behind S.tables .server := by
    have hcredit := (hs.balanced ht).credit
    unfold Endpoint.tally at hcredit
    rw [hitems] at hcredit ⊢
    cases hbehind : s.server.ep.behind S.tables .server with
    | nil =>
      -- there is credit for the first entry
      rw [hbehind] at hcredit
      have hle : y.expected ≤ s.server.ep.g.receivedSofar := hcredit y rfl
      omega
    | cons z behind => exact firstBurst_append (by omega)
  refine ⟨hburst, fun heq => ?_⟩
  have hlen := hburst.length_le
  rw [heq, hitems, List.length_append, List.length_cons] at hlen
  omega

/-- **The acknowledgement does not get stuck**: a server that is blocked has sent its first burst,
one that is done has sent all. -/
theorem gate_open (hs : Handshake S s) (hsettled : ∀ r, s.Settled S r) (hu : Underway s)
    (ht : Together s) (h : s.client.ep.Blocked .client)
    (hpeer : s.server.ep.Blocked .server ∨ s.server.ep.Done S.tables .server) :
    s.client.ep.g.gateClosed = false := by
  refine Bool.eq_false_iff.mpr fun hclosed => ?_
  unfold Globals.gateClosed at hclosed
  simp only [Bool.and_eq_true, Bool.not_eq_true'] at hclosed
  obtain ⟨⟨hfirst, hsecond⟩, hack⟩ := hclosed
  rcases hs.urlack hu ht.page with (htrue | hflags) | ⟨mark, hp, hroom⟩
  · rw [hack] at htrue
    cases htrue
  · rw [hsecond] at hflags
    cases hflags.2
  · obtain ⟨hwritten, hqueued⟩ := Pending.not_written (hsettled .client) hp
    rcases hpeer with hblocked | hdone
    · obtain ⟨hburst, hmore⟩ := hs.first_burst_sent ht hblocked
      rcases hroom (hs.two_entries hu ht h hfirst hsecond) hmore with hgrows | hfits
      · rw [hblocked.firstClient (hs.gates.pages.cursor .server)] at hgrows
        cases hgrows
      · have hle := bytes_le_of_prefix (d := true) hburst
        have hcommitted : s.server.ep.committed = s.server.ep.pkt.wire.length :=
          (hsettled .client).committed hblocked.mode
        have hwritten : s.server.ep.pkt.wire.length < mark := hwritten
        omega
    · -- nothing is queued any more
      exact hqueued (List.length_eq_zero_iff.mp (hdone ht.server).2)

/-- A blocked client with a server that is blocked or done. -/
theorem not_blocked_client (hs : Handshake S s) (hpaced : ∀ id, Paced (S.tables.straces id))
    (hsettled : ∀ r, s.Settled S r) (hload : s.client.ep.g.onloadFlag = false)
    (h : s.client.ep.Blocked .client)
    (hpeer : s.server.ep.Blocked .server ∨ s.server.ep.Done S.tables .server) : False := by
  obtain ⟨hu, ht⟩ := hs.together_of_blocked_client hsettled hload h
  have hopen := hs.gate_open hsettled hu ht h hpeer
  obtain ⟨before, hprefix, hbehind, hshort⟩ :=
    hs.starved (r := .client) hpaced ht (hsettled .client) ht.server h fun _ => hopen
  rcases hpeer with hblocked | hdone
  · obtain ⟨before', hprefix', hbehind', hshort'⟩ :=
      hs.starved (r := .server) hpaced ht (hsettled .server) ht.client hblocked
        fun hr => (nomatch hr)
    exact not_both_starved (d := false) hprefix hprefix' hbehind hbehind' hshort hshort'
  · have hle := hs.not_starved_of_done (r := .client) ht (hdone ht.server).1 hprefix
    omega

end Handshake

/-- **No deadlock in a handshake.** -/
theorem handshake_not_deadlock (hs : Handshake S s) (hpaced : ∀ id, Paced (S.tables.straces id)) :
    ¬s.Deadlock S := by
  rintro ⟨hsettled, hload, r, hblocked, hpeer⟩
  cases r with
  | client => exact hs.not_blocked_client hpaced hsettled hload hblocked hpeer
  | server =>
    have hblocked : s.server.ep.Blocked .server := hblocked
    rcases hpeer with hclient | hdone
    · exact hs.not_blocked_client hpaced hsettled hload hclient (Or.inl hblocked)
    · -- the client waits in the page for the server's `TEND`
      have hcursor : CursorInv S.tables .server s.server.ep := hs.gates.pages.cursor .server
      obtain ⟨hwaits, hurls⟩ := hs.follows.ends.running hblocked.mode
        (hblocked.sentTend hcursor.reached)
      have hpages := hs.follows.ends.pages
      have ht : Together s := ⟨hwaits.stmode, hblocked.mode, by
        rw [hurls, Nat.add_zero] at hpages
        exact hpages, hload⟩
      obtain ⟨before, hprefix, -, hshort⟩ := hs.starved (r := .server) hpaced ht
        (hsettled .server) ht.client hblocked fun hr => (nomatch hr)
      have hle := hs.not_starved_of_done (r := .server) ht (hdone ht.client).1 hprefix
      omega

end Stuck

/-! ## Runs -/

/-- The traces of all clusters were loaded, made relative and split. -/
def Tables.Prepared (T : Tables) : Prop :=
  ∀ id, ∃ last l, (∀ x ∈ l, x.expected = 0) ∧
    T.straces id = (splitTrace last (changeToRelativeTime l)).1

theorem Tables.Prepared.paced {T : Tables} (h : T.Prepared) (id : ℤ) : Paced (T.straces id) := by
  obtain ⟨last, l, hzero, hid⟩ := h id
  rw [hid]
  exact paced_splitTrace last (expected_changeToRelativeTime hzero)

/-- Tables with one page, `a`, whose trace is prepared from `l`. -/
def tracedTables (l : List StPair) : Tables where
  clusters := ⟨fun _ => [([97], 1)], Hashmap.pos_pageA⟩
  straces id := if id = 1 then (splitTrace 0 (changeToRelativeTime l)).1 else []

theorem prepared_tracedTables (h : ∀ x ∈ l, x.expected = 0) : (tracedTables l).Prepared := by
  intro id
  unfold tracedTables
  dsimp only
  by_cases hid : id = 1
  · exact ⟨0, l, h, if_pos hid⟩
  · exact ⟨0, [], by simp, if_neg hid⟩

/-- A request, its reply and a second request. -/
def repliedTrace : List StPair := [⟨-150, 0, 0, 0⟩, ⟨200, 400000, 0, 0⟩, ⟨-30, 800000, 0, 0⟩]

/-- The page up to the client's second entry. -/
def secondEntryWaits : List NetEvent :=
  [.socks (urlRequest 97), .slot .client (openSlot 100000), .netInput .server 320,
    .parse .server 0 fun _ => 0, .slot .client (openSlot 1000000),
    .slot .server (openSlot 1100000)]

/-- A request of two packets that are merged, its reply and a second request. -/
def mergedRequest : List StPair :=
  [⟨-100, 0, 0, 0⟩, ⟨-50, 10, 0, 0⟩, ⟨200, 400000, 0, 0⟩, ⟨-30, 800000, 0, 0⟩]

/-- The page up to the second entry of the client; the server tries its first one in between. -/
def mergedPage : List NetEvent :=
  [.socks (urlRequest 97), .slot .client (openSlot 100000), .netInput .server 320,
    .parse .server 0 fun _ => 0, .slot .server (openSlot 200000),
    .slot .client (openSlot 1000000)]

end CSBuFLO
