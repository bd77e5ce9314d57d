/-
# The two ends of a page

While both ends replay a page, each entry of one end waits for bytes of the other, and the second
entry of the client for the acknowledgement of the URL.  `Handshake` relates the two ends:

* `client` : what the client has sent of the page before the server knows of it;
* `balanced` : what an end has read and its peer has sent, the end has counted, and the server has
  credit for its first entry;
* `url`, `urlack` : where the URL and its acknowledgement stand in the byte streams.

The source gives none of this for free.  `HandshakeGuard` is what a run has to meet: the gate of
`UrlAck.lean`, a first client entry that expects nothing, and, when the URL reaches the server, a
trace in which `set_first_sent` finds the credit for the server's first entry and a server with
room for the acknowledgement.
-/
import CSBuFLO.Credit
import CSBuFLO.Follow
import CSBuFLO.UrlAck

namespace CSBuFLO

variable {κ : Type}

/-! ## The client at the start of a page -/

variable {x : Planned}

section Client

variable {σ β : Type} {T : Tables} {inp : SlotInput} {e e' : Endpoint σ β} {o : ℕ}

/-- The client of a page with `o` outstanding acknowledgements: its first entry expects nothing,
its second flag is set between the first entry and the second, and no second entry is sent as long
as the acknowledgement is outstanding. -/
structure ClientInv (T : Tables) (e : Endpoint σ β) (o : ℕ) : Prop where
  opens : ∀ x ∈ (ownItems T .client e.g.clusterId).head?, x.expected = 0
  second : e.g.firstClient = false → e.g.secondClient = true → (e.behind T .client).length = 1
  early : o ≠ 0 → (e.behind T .client).length ≤ 1

theorem ClientInv.mono {o' : ℕ} (h : ClientInv T e o) (hle : o' ≤ o) : ClientInv T e o' :=
  ⟨h.opens, h.second, fun ho => h.early (by omega)⟩

/-- The first entry of the page is the one that is treated first. -/
theorem head?_of_itemSlot {r : Role} (h : ItemSlot T r inp e e' x) (he : CursorInv T r e)
    (hnil : e.behind T r = []) : x.item ∈ (ownItems T r e.g.clusterId).head? := by
  obtain ⟨rest, hrest⟩ := upto_isPrefix T r e'.g
  rw [h.upto he.cursor, h.cluster, hnil] at hrest
  rw [← hrest]
  rfl

theorem behind_eq_nil_of_first {r : Role} (h : ItemSlot T r inp e e' x) (he : CursorInv T r e)
    (hfirst : e.g.firstClient = true) : e.behind T r = [] := by
  have hone := number_eq_one he h hfirst
  have hnumber := h.number
  exact List.length_eq_zero_iff.mp (by omega)

/-- The first entry of the client does not wait. -/
theorem ClientInv.first_goes (h : ClientInv T e o) (he : CursorInv T .client e)
    (hx : ItemSlot T .client inp e e' x) (hfirst : e.g.firstClient = true) : x.verdict = .go := by
  have hzero := h.opens x.item (head?_of_itemSlot hx he (behind_eq_nil_of_first hx he hfirst))
  have hopen : (Role.client = .client → e.g.gateClosed = false) := by
    intro _
    unfold Globals.gateClosed
    rw [hfirst]
    rfl
  rw [hx.verdict, admitItem_of_open hopen, hzero]
  exact waitVerdict_eq_go.mpr (Nat.zero_le _)

/-- A closed gate is not passed, unless the breaker lets the entry go. -/
theorem ClientInv.gate (h : ClientInv T e o) (hx : ItemSlot T .client inp e e' x)
    (hgated : (Plan.entry x).Gated e.g.receivedSofar) (hgo : x.verdict = .go) :
    e.g.gateClosed = false := by
  cases hclosed : e.g.gateClosed with
  | false => rfl
  | true =>
    have hmax := admitItem_of_closed hclosed 0 x.item
    have hle := waitVerdict_eq_go.mp (hx.verdict.symm.trans hgo)
    unfold Globals.gateClosed at hclosed
    simp only [Bool.and_eq_true, Bool.not_eq_true'] at hclosed
    have hone := h.second hclosed.1.1 hclosed.1.2
    have hreceived := hgated.2 (by rw [hx.number, hone])
    omega

/-- A slot that treats an entry. -/
theorem ClientInv.itemSlot (h : ClientInv T e o) (he : CursorInv T .client e)
    (hx : ItemSlot T .client inp e e' x) (hgated : (Plan.entry x).Gated e.g.receivedSofar)
    (hacked : x.number = 2 → x.verdict ≠ .wait → o = 0) : ClientInv T e' o := by
  have hbehind := hx.behind_eq he.cursor
  have hnumber := hx.number
  refine ⟨?_, fun _ hsecond => ?_, fun ho => ?_⟩
  · rw [hx.cluster]
    exact h.opens
  · rw [hx.secondClient] at hsecond
    have hbreaker : x.verdict ≠ .breaker := by
      intro hb
      rw [if_pos ⟨rfl, hb⟩] at hsecond
      cases hsecond
    rw [if_neg fun hb => hbreaker hb.2] at hsecond
    cases hfirst : e.g.firstClient with
    | true =>
      have hgo := h.first_goes he hx hfirst
      rw [hbehind, if_neg (by rw [hgo]; decide), behind_eq_nil_of_first hx he hfirst]
      rfl
    | false =>
      -- the flag was set before, and the entry waits
      cases hflag : e.g.secondClient with
      | false => simp [admitItem, hfirst, hflag] at hsecond
      | true =>
        have hone := h.second hfirst hflag
        have hclosed : e.g.gateClosed = true := by
          cases hack : e.g.urlack with
          | true => simp [admitItem, hfirst, hflag, hack] at hsecond
          | false => simp [Globals.gateClosed, hfirst, hflag, hack]
        have hwait : x.verdict = .wait := by
          cases hv : x.verdict with
          | wait => rfl
          | breaker => exact absurd hv hbreaker
          | go =>
            rw [h.gate hx hgated hv] at hclosed
            cases hclosed
        rw [hbehind, if_pos hwait]
        exact hone
  · have hlen := h.early ho
    rw [hbehind]
    split
    · exact hlen
    · rename_i hwait
      have hne : x.number ≠ 2 := fun htwo => ho (hacked htwo hwait)
      rw [List.length_append, List.length_singleton]
      omega

/-- **A slot of the client.** -/
theorem ClientInv.slot {c : Codec σ β} (h : ClientInv T e o) (he : CursorInv T .client e)
    (hslot : slot c T .client inp e = .returned e') (hload : e.g.onloadFlag = false)
    (hgated : (slotPlan T .client inp e).Gated e.g.receivedSofar)
    (hacked : ∀ x, slotPlan T .client inp e = .entry x → x.number = 2 → x.verdict ≠ .wait → o = 0) :
    ClientInv T e' o := by
  have hplan := slot_cursor hslot he.reached
  cases hp : slotPlan T .client inp e with
  | nothing =>
    rw [hp] at hplan
    have hbehind := (behind_of_sameScript T .client hplan.same).2
    have hscript := hplan.same.script
    refine ⟨?_, fun hf hsec => ?_, fun ho => hbehind ▸ h.early ho⟩
    · rw [show e'.g.clusterId = e.g.clusterId from congrArg Script.clusterId hscript]
      exact h.opens
    · rw [hbehind]
      exact h.second ((congrArg Script.firstClient hscript).symm.trans hf)
        ((congrArg Script.secondClient hscript).symm.trans hsec)
  | ends =>
    -- without a load event the last entry is already behind
    rw [hp] at hplan
    have hbehind := behind_of_ends he hp hload hplan
    refine ⟨?_, fun hf hsec => ?_, fun ho => hbehind ▸ h.early ho⟩
    · rw [hplan.cluster]
      exact h.opens
    · rw [hbehind]
      exact h.second (hplan.firstClient.symm.trans hf) (hplan.secondClient.symm.trans hsec)
  | entry x =>
    rw [hp] at hplan hgated
    exact h.itemSlot he hplan hgated (hacked x hp)

/-- What the client has sent before the server knows of the page, the first entry of the server
expects. -/
theorem ClientInv.bytes_behind_le (h : ClientInv T e o) (hpaced : Paced (T.straces e.g.clusterId))
    (hlen : (e.behind T .client).length ≤ 1) {y : StPair}
    (hy : y ∈ (ownItems T .server e.g.clusterId).head?) :
    bytes false (e.behind T .client) ≤ y.expected := by
  obtain ⟨rest, hrest⟩ := behind_prefix T .client e
  match hbehind : e.behind T .client with
  | [] => exact Nat.zero_le _
  | [x] =>
    have hhead : x ∈ (ownItems T .client e.g.clusterId).head? := by
      rw [← hrest, hbehind]
      rfl
    have hown : ownItem false x = true := by
      have hmem : x ∈ ownItems T .client e.g.clusterId := List.mem_of_mem_head? hhead
      exact (List.mem_filter.mp hmem).2
    rw [bytes_cons, if_pos hown, bytes_nil, Nat.zero_add]
    exact hpaced.first_le hhead (h.opens x hhead) hy
  | _ :: _ :: _ =>
    rw [hbehind] at hlen
    simp only [List.length_cons] at hlen
    omega

theorem ClientInv.flag {ev : EndpointEvent} (h : ClientInv T e o) (hflag : FlagStep ev e e') :
    ClientInv T e' o := by
  have hbehind := (hflag.behind T .client).2
  refine ⟨?_, fun hf hsec => ?_, fun ho => hbehind ▸ h.early ho⟩
  · rw [hflag.clusterId]
    exact h.opens
  · rw [hbehind]
    exact h.second (hflag.firstClient.symm.trans hf) (hflag.secondClient.symm.trans hsec)

/-- The gate is or will be open: the acknowledgement has arrived, or the second entry is past the
gate. -/
def Globals.acked (g : Globals) : Prop :=
  g.urlack = true ∨ (g.firstClient = false ∧ g.secondClient = false)

theorem acked_slot {c : Codec σ β} (he : CursorInv T .client e)
    (hslot : CSBuFLO.slot c T .client inp e = .returned e') (h : e.g.acked) : e'.g.acked := by
  have hplan := slot_cursor hslot he.reached
  cases hp : slotPlan T .client inp e with
  | nothing =>
    rw [hp] at hplan
    have hscript := hplan.same.script
    exact h.imp (congrArg Script.urlack hscript).trans fun hflags =>
      ⟨(congrArg Script.firstClient hscript).trans hflags.1,
        (congrArg Script.secondClient hscript).trans hflags.2⟩
  | ends =>
    rw [hp] at hplan
    exact h.imp hplan.urlack.trans fun hflags =>
      ⟨hplan.firstClient.trans hflags.1, hplan.secondClient.trans hflags.2⟩
  | entry x =>
    rw [hp] at hplan
    unfold Globals.acked
    rw [hplan.urlack, hplan.firstClient, hplan.secondClient]
    cases hfirst : e.g.firstClient with
    | true =>
      -- the first entry leaves an early acknowledgement alone
      rcases h with hack | hflags
      · exact Or.inl (by simp [admitItem, hfirst, hack])
      · rw [hfirst] at hflags
        cases hflags.1
    | false =>
      -- the second one uses it up together with its flag
      right
      refine ⟨rfl, ?_⟩
      split
      · rfl
      · cases hsecond : e.g.secondClient with
        | false => simp [admitItem, hfirst, hsecond]
        | true =>
          rcases h with hack | hflags
          · simp [admitItem, hfirst, hsecond, hack]
          · rw [hsecond] at hflags
            cases hflags.2

/-- An acknowledgement that arrives is noted. -/
theorem urlack_of_packet {c : Codec σ β} {ts : ℕ} {payload : List UInt8} {beyond : ℕ → UInt8}
    (h : packetReadPollSeqnr c T ts payload beyond e = some e')
    (hm : Msg.ofPayload payload = some .urlack) : e'.g.urlack = true := by
  cases payload with
  | nil => cases hm
  | cons t data =>
    obtain ⟨n, hn, hdata⟩ := Option.map_eq_some_iff.mp hm
    unfold packetReadPollSeqnr at h
    dsimp only at h
    rw [hn] at h
    cases n with
    | urlack =>
      rw [← Option.some.inj h]
    | _ => cases hdata

theorem acked_flag {ev : EndpointEvent} (hflag : FlagStep ev e e') (h : e.g.acked) :
    e'.g.acked := by
  rcases h with hack | hflags
  · left
    rcases hflag.urlack with hsame | hset
    · exact hsame.trans hack
    · exact hset.1
  · exact Or.inr ⟨hflag.firstClient.trans hflags.1, hflag.secondClient.trans hflags.2⟩

end Client

/-! ## The server at the start of a page -/

/-- The entries of an end that follow its first one without waiting. -/
def firstBurst : List StPair → List StPair
  | [] => []
  | x :: l => x :: l.takeWhile fun y => decide (y.expected = 0)

/-- There is room for what ends at byte `mark` of the server's stream: if the client's second
entry waits for it and the server cannot finish without the client, the first entry takes along
all that is queued, or the entries that follow it without waiting reach the mark. -/
def Room {σ β : Type} (T : Tables) (e : Endpoint σ β) (mark : ℕ) : Prop :=
  2 ≤ (ownItems T .client e.g.clusterId).length →
    firstBurst (ownItems T .server e.g.clusterId) ≠ ownItems T .server e.g.clusterId →
    e.g.firstClient = true ∨
      (mark : ℤ) + bytes true (e.behind T .server) ≤
        bytes true (firstBurst (ownItems T .server e.g.clusterId)) + e.committed

section Server

variable {σ β : Type} {c : Codec σ β} {T : Tables} {inp : SlotInput} {e e' : Endpoint σ β}
  {mark : ℕ}

/-- With credit for it, the first entry of the server does not wait. -/
theorem first_goes_of_credit (he : CursorInv T .server e) (hx : ItemSlot T .server inp e e' x)
    (hfirst : e.g.firstClient = true)
    (hcredit : ∀ y ∈ (ownItems T .server e.g.clusterId).head?, y.expected ≤ e.tally T .server) :
    x.verdict = .go := by
  have hnil := behind_eq_nil_of_first hx he hfirst
  have hle := hcredit x.item (head?_of_itemSlot hx he hnil)
  unfold Endpoint.tally at hle
  rw [hnil] at hle
  have hopen := admitItem_of_open (r := .server) (g := e.g) (fun hr => (nomatch hr)) 0 x.item
  rw [hx.verdict, hopen]
  exact waitVerdict_eq_go.mpr hle

/-- A slot of the server leaves room for what is queued. -/
theorem Room.slot (h : Room T e mark) (he : CursorInv T .server e)
    (hslot : slot c T .server inp e = .returned e') (hmode : e.g.stmode = .supertrace)
    (hload : e.g.onloadFlag = false) (hmark : mark ≤ e.pkt.wire.length + e.pkt.outputLen)
    (hcredit : ∀ y ∈ (ownItems T .server e.g.clusterId).head?, y.expected ≤ e.tally T .server) :
    Room T e' mark := by
  have hadvance := advance_slot hslot he hmode hload fun _ _ _ hr => (nomatch hr)
  intro hmany hmore
  rw [hadvance.cluster] at hmany hmore ⊢
  have hcommitted : e.committed + bytes true (e'.behind T .server) ≤
      e'.committed + bytes true (e.behind T .server) := hadvance.committed
  rcases h hmany hmore with hfirst | hroom
  · have hplan := slot_cursor hslot he.reached
    cases hp : slotPlan T .server inp e with
    | nothing =>
      rw [hp] at hplan
      exact Or.inl ((congrArg Script.firstClient hplan.same.script).trans hfirst)
    | ends =>
      rw [hp] at hplan
      exact Or.inl (hplan.firstClient.trans hfirst)
    | entry x =>
      -- the first entry takes along all that is queued
      rw [hp] at hplan
      have hgo := first_goes_of_credit he hplan hfirst hcredit
      have hnil := behind_eq_nil_of_first hplan he hfirst
      have hall := committed_first hslot he.reached hp (by rw [hgo]; decide) hfirst
      have hhead := head?_of_itemSlot hplan he hnil
      right
      rw [hplan.behind_eq he.cursor, if_neg (by rw [hgo]; decide), hnil]
      cases hown : ownItems T .server e.g.clusterId with
      | nil =>
        rw [hown] at hhead
        cases hhead
      | cons y rest =>
        rw [hown] at hhead
        obtain rfl : y = x.item := Option.some.inj hhead
        have hle : bytes true ([] ++ [x.item]) ≤ bytes true (firstBurst (x.item :: rest)) := by
          unfold firstBurst
          rw [List.nil_append, bytes_cons, bytes_cons, bytes_nil]
          omega
        omega
  · right
    omega

theorem Room.flag {ev : EndpointEvent} {n : ℕ} (h : Room T e mark)
    (hadvance : Advance T .server n e e')
    (hflag : FlagStep ev e e') : Room T e' mark := by
  intro hmany hmore
  rw [hflag.clusterId] at hmany hmore ⊢
  have hcommitted : e.committed + bytes true (e'.behind T .server) ≤
      e'.committed + bytes true (e.behind T .server) := hadvance.committed
  rcases h hmany hmore with hfirst | hroom
  · exact Or.inl (hflag.firstClient.trans hfirst)
  · right
    omega

end Server

/-! ## The guard -/

/-- The first entry of the client expects nothing: the trace does not begin with a server burst. -/
def FirstOpens (T : Tables) (id : ℤ) : Prop :=
  ∀ x ∈ (ownItems T .client id).head?, x.expected = 0

/-- The length of the acknowledgement of a URL on the wire. -/
def ackLength (blockSize macLen : ℕ) : ℕ := wireLength blockSize macLen 0 9

/-- A server to which the URL of the page `id` comes: by its trace, the first entry of the server
expects nothing or `set_first_sent` gets the right credit.  If the client has a second entry
and the server cannot finish without it, the first entries of the server have room for all that is
queued and for the acknowledgement, of `ack` bytes. -/
def Ready {σ β : Type} (T : Tables) (ack : ℕ) (id : ℤ) (e : Endpoint σ β) : Prop :=
  (∀ x ∈ (ownItems T .server id).head?,
      x.expected = 0 ∨ CreditReached e.g.firstExpected (T.straces id)) ∧
    (2 ≤ (ownItems T .client id).length →
      firstBurst (ownItems T .server id) ≠ ownItems T .server id →
      e.g.firstClient = true ∨
        (e.pkt.outputLen : ℤ) + ack ≤ bytes true (firstBurst (ownItems T .server id)) + e.g.w2w)

/-- The URL of a request that an event makes the client take. -/
def NetEvent.urlTaken (s : Network κ) : NetEvent → Option (List UInt8)
  | .socks p => if p 1 = 6 ∧ s.client.ep.g.stmode = .normal then some (setUrl p 3) else none
  | _ => none

/-- The URL in the packet that an event makes the server read. -/
def NetEvent.urlRead (S : Setup κ) (s : Network κ) (ev : NetEvent) : Option (List UInt8) :=
  match ev.at S s .server with
  | some (.packet _ payload beyond) =>
    match Msg.ofPayload payload with
    | some (.url _) => some (setUrl (memory payload.tail beyond) 4)
    | _ => none
  | _ => none

instance (T : Tables) (id : ℤ) : Decidable (FirstOpens T id) := by
  unfold FirstOpens
  infer_instance

instance {σ β : Type} (T : Tables) (ack : ℕ) (id : ℤ) (e : Endpoint σ β) :
    Decidable (Ready T ack id e) := by
  unfold Ready
  infer_instance

/-- The breaker does not let the second entry go while `o` acknowledgements are outstanding. -/
def Plan.Acked (o : ℕ) : Plan → Prop
  | .entry x => x.number = 2 → x.verdict = .breaker → o = 0
  | _ => True

instance (o : ℕ) : (p : Plan) → Decidable (p.Acked o)
  | .entry x => inferInstanceAs (Decidable (x.number = 2 → x.verdict = .breaker → o = 0))
  | .nothing => isTrue trivial
  | .ends => isTrue trivial

/-- A slot of the client in which the breaker respects the gate. -/
def NetEvent.Acked (S : Setup κ) (s : Network κ) : NetEvent → Prop
  | .slot .client inp => (slotPlan S.tables .client inp s.client.ep).Acked (outstanding S.tables s)
  | _ => True

instance (S : Setup κ) (s : Network κ) : (ev : NetEvent) → Decidable (ev.Acked S s)
  | .slot .client inp => inferInstanceAs (Decidable
      ((slotPlan S.tables .client inp s.client.ep).Acked (outstanding S.tables s)))
  | .slot .server _ => isTrue trivial
  | .socks _ => isTrue trivial
  | .data _ _ _ => isTrue trivial
  | .netInput _ _ => isTrue trivial
  | .parse _ _ _ => isTrue trivial

/-- **The condition on a run**: the gate is in order and the breaker respects it; when the client
takes the request for a page with a trace, the client's first entry expects nothing; and when the
URL of a page with a trace reaches the server, the server is ready. -/
def HandshakeGuard (S : Setup κ) (s : Network κ) (ev : NetEvent) (s' : Network κ) : Prop :=
  AckGuard S s ev s' ∧ ev.Acked S s ∧
    (∀ u ∈ ev.urlTaken s, hmLookup S.tables.clusters u ≠ -1 →
      FirstOpens S.tables (hmLookup S.tables.clusters u)) ∧
    ∀ u ∈ ev.urlRead S s, hmLookup S.tables.clusters u ≠ -1 →
      Ready S.tables (ackLength S.toClient.cipher.blockSize S.toClient.macLen)
        (hmLookup S.tables.clusters u) s.server.ep

instance (S : Setup κ) (s : Network κ) (ev : NetEvent) (s' : Network κ) :
    Decidable (HandshakeGuard S s ev s') := by
  unfold HandshakeGuard
  infer_instance

/-! ## The server at the start of a page -/

section Start

variable {σ β : Type} {c : Codec σ β} {T : Tables} {payload : List UInt8} {beyond : ℕ → UInt8}
  {e e' : Endpoint σ β}

/-- A server that has started the page with credit for its first entry and with room for the
acknowledgement, which is queued. -/
structure Readied (T : Tables) (e : Endpoint σ β) : Prop where
  credit : ∀ x ∈ (ownItems T .server e.g.clusterId).head?, x.expected ≤ e.g.receivedSofar
  room : 2 ≤ (ownItems T .client e.g.clusterId).length →
    firstBurst (ownItems T .server e.g.clusterId) ≠ ownItems T .server e.g.clusterId →
    e.g.firstClient = true ∨
      (e.pkt.outputLen : ℤ) ≤ bytes true (firstBurst (ownItems T .server e.g.clusterId)) + e.g.w2w

/-- **A server that is ready starts the page so.** -/
theorem Ready.start (hpaced : ∀ id, Paced (T.straces id))
    (hready : hmLookup T.clusters (setUrl (memory payload.tail beyond) 4) ≠ -1 →
      Ready T (ackLength c.blockSize c.macLen)
        (hmLookup T.clusters (setUrl (memory payload.tail beyond) 4)) e)
    (h : startServerPage c T payload beyond e = some e') (hmode : e'.g.stmode = .supertrace) :
    Readied T e' := by
  unfold startServerPage setClusterId at h
  dsimp only at h
  split at h
  · rename_i hid
    obtain ⟨hcredit, hroom⟩ := hready hid
    obtain ⟨pkt, hpkt, rfl⟩ := Option.map_eq_some_iff.mp h
    have hlen : pkt.outputLen = e.pkt.outputLen + ackLength c.blockSize c.macLen := by
      rw [outputLen_packetSend hpkt, length_notifyPayload, c.length_arc4random]
      rfl
    constructor
    · intro x hx
      rw [setFirstSent_eq] at hx
      refine expected_le_firstExpected hid rfl (hpaced _) hx ?_
      exact hcredit x hx
    · rw [setFirstSent_eq]
      intro hmany hmore
      refine (hroom hmany hmore).imp id fun hfits => ?_
      show (pkt.outputLen : ℤ) ≤ _
      rw [hlen]
      push_cast
      exact hfits
  · rw [← Option.some.inj h] at hmode
    cases hmode

theorem startServerPage_of_packet {ts : ℕ} {u : List UInt8}
    (h : packetReadPollSeqnr c T ts payload beyond e = some e')
    (hm : Msg.ofPayload payload = some (.url u)) :
    startServerPage c T payload beyond e = some e' := by
  cases payload with
  | nil => cases hm
  | cons t data =>
    obtain ⟨n, hn, hdata⟩ := Option.map_eq_some_iff.mp hm
    unfold packetReadPollSeqnr at h
    dsimp only at h
    rw [hn] at h
    cases n with
    | url => exact h
    | _ => cases hdata

end Start

/-- **A server whose page starts in a guarded run has its credit and its room.** -/
theorem readied_start {S : Setup κ} {s s' : Network κ} {ev : NetEvent}
    (hpaced : ∀ id, Paced (S.tables.straces id)) (hG : HandshakeGuard S s ev s')
    (h : netStep S s ev = some s') (hpage : s'.server.ep.page ≠ s.server.ep.page)
    (hmode : s'.server.ep.g.stmode = .supertrace) : Readied S.tables s'.server.ep := by
  obtain ⟨ts, payload, beyond, u, hev, hu, -, -, -⟩ := start_server h hpage
  have hat := netStep_at h .server
  rw [hev] at hat
  have hread : ev.urlRead S s = some (setUrl (memory payload.tail beyond) 4) := by
    unfold NetEvent.urlRead
    rw [hev]
    dsimp only
    rw [hu]
  exact Ready.start (c := packetCodec S.toClient) hpaced (hG.2.2.2 _ hread)
    (startServerPage_of_packet hat hu) hmode

/-! ## The invariant -/

/-- Both ends replay the same page, and no load event was seen. -/
structure Together (s : Network κ) : Prop where
  client : s.client.ep.g.stmode = .supertrace
  server : s.server.ep.g.stmode = .supertrace
  page : s.client.ep.page = s.server.ep.page
  load : s.client.ep.g.onloadFlag = false

/-- The client replays its page, has not finished it and has seen no load event. -/
structure Underway (s : Network κ) : Prop where
  mode : s.client.ep.g.stmode = .supertrace
  sentTend : s.client.ep.g.sentTend = false
  load : s.client.ep.g.onloadFlag = false

/-- Both ends keep count: what the peer has sent of the page, the bytes of its entries first, and
the end has read, the end has counted; and the server has counted what its first entry expects. -/
structure Balanced (S : Setup κ) (s : Network κ) : Prop where
  counted : ∀ r, ownItems S.tables r (s.side r).ep.g.clusterId ≠ [] →
    (bytes r.peer.isPos ((s.side r.peer).ep.behind S.tables r.peer) : ℤ) + (s.side r).inbox.read ≤
      (s.side r.peer).ep.committed + (s.side r).ep.tally S.tables r
  credit : ∀ x ∈ (ownItems S.tables .server s.server.ep.g.clusterId).head?,
    x.expected ≤ s.server.ep.tally S.tables .server

/-- **The invariant of the handshake.** -/
structure Handshake (S : Setup κ) (s : Network κ) : Prop where
  gates : GateInv S s
  follows : Follows S.tables s.proto
  client : s.client.ep.g.stmode = .supertrace → s.client.ep.g.onloadFlag = false →
    ClientInv S.tables s.client.ep (outstanding S.tables s)
  balanced : Together s → Balanced S s
  url : Underway s → s.client.ep.page ≠ s.server.ep.page → ∃ u mark,
    hmLookup S.tables.clusters u ≠ -1 ∧
    Pending S.toServer (.url u) s.server.inbox s.client.ep.pkt mark ∧
    (s.client.ep.g.firstClient = true ∨ (mark : ℤ) ≤ s.client.ep.committed)
  urlack : Underway s → s.client.ep.page = s.server.ep.page → s.client.ep.g.acked ∨ ∃ mark,
    Pending S.toClient .urlack s.client.inbox s.server.ep.pkt mark ∧
    Room S.tables s.server.ep mark

/-! ## One event of a guarded run -/

namespace Handshake

variable {S : Setup κ} {s s' : Network κ} {ev : NetEvent}

/-- The client's part within a page. -/
theorem advance_client (hs : Handshake S s) (hG : HandshakeGuard S s ev s')
    (h : netStep S s ev = some s') (hpage : s'.client.ep.page = s.client.ep.page)
    (hmode : s.client.ep.g.stmode = .supertrace) (hload : s.client.ep.g.onloadFlag = false) :
    Advance S.tables .client (ev.bytesRead S s .client) s.client.ep s'.client.ep := by
  have hcursor := hs.gates.pages.cursor .client
  refine advance_netStep hcursor h hpage hmode hload fun inp x hev hplan hgo _ => ?_
  subst hev
  have hgated : (slotPlan S.tables .client inp s.client.ep).Gated s.client.ep.g.receivedSofar :=
    hG.1
  have hslot : slot (packetCodec (S.keys .client)) S.tables .client inp s.client.ep =
      .returned s'.client.ep := endpointStep_slot.mp (netStep_at h .client)
  have hitem := slot_cursor hslot hcursor.reached
  have hplan : slotPlan S.tables .client inp s.client.ep = .entry x := hplan
  rw [hplan] at hitem hgated
  exact (hs.client hmode hload).gate hitem hgated hgo

/-- The server's part within a page. -/
theorem advance_server (hs : Handshake S s) (h : netStep S s ev = some s')
    (hpage : s'.server.ep.page = s.server.ep.page) (ht : Together s) :
    Advance S.tables .server (ev.bytesRead S s .server) s.server.ep s'.server.ep :=
  advance_netStep (hs.gates.pages.cursor .server) h hpage ht.server
    ((hs.follows.sameInfo ht.page).2 ht.load) fun _ _ _ _ _ hr => (nomatch hr)

/-- The client is never behind the server, and starts no page that both are in. -/
theorem page_client_eq (hs : Handshake S s) (h : netStep S s ev = some s')
    (hpage : s'.client.ep.page = s'.server.ep.page) : s'.client.ep.page = s.client.ep.page := by
  by_contra hne
  obtain ⟨p, -, hstep, hep⟩ := start_client hs.gates.pages h hne
  have hpages : s.client.ep.page = s.server.ep.page + urls (s.inFlight .client) :=
    hs.follows.ends.pages
  have hnext := hstep.page
  rw [hep] at hpage
  omega

/-- Ends that replay a page together did so before the event, or the server has started it. -/
theorem together_before (hs : Handshake S s) (h : netStep S s ev = some s') (ht : Together s')
    (hpage : s'.server.ep.page = s.server.ep.page) : Together s := by
  have hclient := hs.page_client_eq h ht.page
  have hbefore : Before s.client.ep s'.client.ep := before_netStep (r := .client) h hclient
  have hserver : Before s.server.ep s'.server.ep := before_netStep (r := .server) h hpage
  exact ⟨hbefore.stmode ht.client, hserver.stmode ht.server,
    (hclient.symm.trans ht.page).trans hpage, hbefore.onload ht.load⟩

theorem underway_before (h : netStep S s ev = some s') (hu : Underway s')
    (hpage : s'.client.ep.page = s.client.ep.page) : Underway s := by
  have hbefore : Before s.client.ep s'.client.ep := before_netStep (r := .client) h hpage
  exact ⟨hbefore.stmode hu.mode, hbefore.sentTend hu.sentTend, hbefore.onload hu.load⟩

theorem client_netStep (hs : Handshake S s) (hG : HandshakeGuard S s ev s')
    (h : netStep S s ev = some s') (hmode : s'.client.ep.g.stmode = .supertrace)
    (hload : s'.client.ep.g.onloadFlag = false) :
    ClientInv S.tables s'.client.ep (outstanding S.tables s') := by
  have hcursor := hs.gates.pages.cursor .client
  by_cases hpage : s'.client.ep.page = s.client.ep.page
  · have hbefore : Before s.client.ep s'.client.ep := before_netStep (r := .client) h hpage
    have hclient := hs.client (hbefore.stmode hmode) (hbefore.onload hload)
    refine ClientInv.mono ?_ (outstanding_le hs.gates.pages h hpage)
    rcases side_cases (r := .client) h hpage with ⟨-, hep⟩ | ⟨inp, rfl, hslot⟩ | ⟨_, -, -, -, hflag⟩
    · have hep : s'.client.ep = s.client.ep := hep
      rw [hep]
      exact hclient
    · refine hclient.slot hcursor hslot (hbefore.onload hload) hG.1 fun x hplan htwo hwait => ?_
      have hacked : (slotPlan S.tables .client inp s.client.ep).Acked (outstanding S.tables s) :=
        hG.2.1
      have hitem := slot_cursor hslot hcursor.reached
      have hplan : slotPlan S.tables .client inp (s.side .client).ep = .entry x := hplan
      rw [hplan] at hitem
      have hsize : x.size ≠ 0 := by
        have hpos := ownItem_false.mp hitem.own
        rw [hitem.size, if_neg hwait, admitItem_size]
        have habs := itemSize_eq_abs hitem.own
        rw [abs_of_neg hpos] at habs
        split <;> omega
      have hplan : slotPlan S.tables .client inp s.client.ep = .entry x := hplan
      -- past the gate with its acknowledgement, or by a breaker that respects it
      rcases hs.gates.secondAcked hG.1 h inp x rfl hplan htwo hsize with hzero | hbreaker
      · exact hzero
      · rw [hplan] at hacked
        exact hacked htwo hbreaker
    · exact hclient.flag hflag
  · obtain ⟨p, rfl, hstep, -⟩ := start_client hs.gates.pages h hpage
    have hwait := hs.gates.pages.not_waiting (r := .client) h hpage
    have hbehind := hstep.behind .client hmode hwait
    obtain ⟨hp, hnormal, hurl, -⟩ := hstep.request p rfl
    have hopens : ∀ x ∈ (ownItems S.tables .client s'.client.ep.g.clusterId).head?,
        x.expected = 0 := by
      rw [hstep.clusterId, hurl]
      refine hG.2.2.1 _ (if_pos ⟨hp, hnormal⟩) fun hid => ?_
      have hsuper := hstep.stmode
      rw [hurl, hid, hmode] at hsuper
      cases hsuper
    refine ⟨hopens, fun hf => ?_, fun _ => ?_⟩
    · rw [(hstep.request p rfl).2.2.2 hmode] at hf
      cases hf
    · rw [hbehind]
      exact Nat.zero_le _

/-- What is behind the client when the server starts the page. -/
theorem length_behind_le (hs : Handshake S s) {ts : ℕ} {payload : List UInt8} {beyond : ℕ → UInt8}
    {u : List UInt8} (hev : ev.at S s .server = some (.packet ts payload beyond))
    (hu : Msg.ofPayload payload = some (.url u)) (hid : hmLookup S.tables.clusters u ≠ -1)
    (hmode : s.client.ep.g.stmode = .supertrace) (hload : s.client.ep.g.onloadFlag = false) :
    (s.client.ep.behind S.tables .client).length ≤ 1 := by
  refine (hs.client hmode hload).early ?_
  obtain ⟨rest, hflight⟩ := inFlight_of_packet hs.gates.pages.channels hev hu
  have hflight : s.inFlight .client = .url u :: rest := hflight
  have htrace : Msg.isTraceUrl S.tables (.url u) = true := decide_eq_true hid
  unfold outstanding
  rw [hflight, List.countP_cons_of_pos htrace]
  omega

/-- **The server starts the page**: what the client has sent is covered by the credit. -/
theorem balanced_start (hs : Handshake S s) (hpaced : ∀ id, Paced (S.tables.straces id))
    (hG : HandshakeGuard S s ev s') (h : netStep S s ev = some s')
    (hpage : s'.server.ep.page ≠ s.server.ep.page) (ht : Together s') : Balanced S s' := by
  obtain ⟨ts, payload, beyond, u, hev, hu, hstep, hclient, -⟩ := start_server h hpage
  have hpages' := hs.gates.pages.netStep h
  obtain ⟨-, hsuper⟩ := url_arrives hs.gates.pages.channels h hev hu
  have hlen := hs.length_behind_le hev hu (hsuper ht.server).1 (hclient ▸ ht.client)
    (hclient ▸ ht.load)
  have hinv := hs.client (hclient ▸ ht.client) (hclient ▸ ht.load)
  rw [← hclient] at hlen hinv
  have hwait := hs.gates.pages.not_waiting (r := .server) h hpage
  have hnil : s'.server.ep.behind S.tables .server = [] := hstep.behind .server ht.server hwait
  have htally : s'.server.ep.tally S.tables .server = s'.server.ep.g.receivedSofar := by
    unfold Endpoint.tally
    rw [hnil]
    rfl
  have hready := (readied_start hpaced hG h hpage ht.server).credit
  rw [← htally] at hready
  have hnonneg : ∀ r, 0 ≤ (s'.side r).ep.g.w2w := fun r => (hpages'.cursor r).reached.nonneg
  refine ⟨fun r hown => ?_, hready⟩
  cases r with
  | client =>
    -- the server has sent nothing of the page, and no more is read than was written
    have hread : s'.client.inbox.read ≤ s'.server.ep.pkt.wire.length :=
      hpages'.channels.toClient.read_le
    have hw : 0 ≤ s'.server.ep.g.w2w := hnonneg .server
    show (bytes true (s'.server.ep.behind S.tables .server) : ℤ) + s'.client.inbox.read ≤
      s'.server.ep.committed + s'.client.ep.tally S.tables .client
    rw [hnil, bytes_nil]
    unfold Endpoint.committed
    omega
  | server =>
    -- what was counted of the client's first entry is lost, but the credit covers it
    have hread : s'.server.inbox.read ≤ s'.client.ep.pkt.wire.length :=
      hpages'.channels.toServer.read_le
    have hw : 0 ≤ s'.client.ep.g.w2w := hnonneg .client
    have hfollows := inv_netStep (G := fun _ _ => True) (I := Follows S.tables)
      (fun _ _ hi hp => hi.step hp) (fun _ _ => trivial) ⟨hs.gates.pages.channels, hs.follows⟩ h
    have hid : s'.server.ep.g.clusterId = s'.client.ep.g.clusterId :=
      (hfollows.2.sameInfo ht.page).1
    have hown : ownItems S.tables .server s'.server.ep.g.clusterId ≠ [] := hown
    obtain ⟨y, rest, hcons⟩ := List.exists_cons_of_ne_nil hown
    have hy : y ∈ (ownItems S.tables .server s'.server.ep.g.clusterId).head? := by
      rw [hcons]
      rfl
    have hcredit := hready y hy
    rw [hid] at hy
    have hle := hinv.bytes_behind_le (hpaced _) hlen hy
    show (bytes false (s'.client.ep.behind S.tables .client) : ℤ) + s'.server.inbox.read ≤
      s'.client.ep.committed + s'.server.ep.tally S.tables .server
    unfold Endpoint.committed
    omega

/-- **Within the page**, every event keeps the balance. -/
theorem balanced_netStep (hs : Handshake S s) (hG : HandshakeGuard S s ev s')
    (h : netStep S s ev = some s') (hpage : s'.server.ep.page = s.server.ep.page)
    (ht : Together s') : Balanced S s' := by
  have ht0 := hs.together_before h ht hpage
  have hclient := hs.advance_client hG h (hs.page_client_eq h ht.page) ht0.client ht0.load
  have hserver := hs.advance_server h hpage ht0
  have hadvance : ∀ r, Advance S.tables r (ev.bytesRead S s r) (s.side r).ep (s'.side r).ep := by
    intro r
    cases r
    · exact hclient
    · exact hserver
  refine ⟨fun r hown => ?_, fun x hx => ?_⟩
  · -- the peer commits what it passes, and the end counts what it reads
    rw [(hadvance r).cluster] at hown
    have hbalanced := (hs.balanced ht0).counted r hown
    have hread := read_netStep h r
    have htally := (hadvance r).tally
    have hcommitted := (hadvance r.peer).committed
    omega
  · rw [hserver.cluster] at hx
    have hcredit := (hs.balanced ht0).credit x hx
    have htally := hserver.tally
    omega

/-- The first entry of the client takes the URL along. -/
theorem url_sent (hs : Handshake S s) (hG : HandshakeGuard S s ev s')
    (h : netStep S s ev = some s') (hpage : s'.client.ep.page = s.client.ep.page)
    (hu : Underway s) {mark : ℕ}
    (hmark : mark ≤ s.client.ep.pkt.wire.length + s.client.ep.pkt.outputLen)
    (hsent : s.client.ep.g.firstClient = true ∨ (mark : ℤ) ≤ s.client.ep.committed) :
    s'.client.ep.g.firstClient = true ∨ (mark : ℤ) ≤ s'.client.ep.committed := by
  have hcursor := hs.gates.pages.cursor .client
  have hadvance := hs.advance_client hG h hpage hu.mode hu.load
  rcases hsent with hfirst | hsent
  · rcases side_cases (r := .client) h hpage with ⟨-, hep⟩ | ⟨inp, -, hslot⟩ | ⟨_, -, -, -, hflag⟩
    · exact Or.inl ((congrArg (fun e => e.g.firstClient) hep).trans hfirst)
    · have hplan := slot_cursor hslot hcursor.reached
      cases hp : slotPlan S.tables .client inp (s.side .client).ep with
      | nothing =>
        rw [hp] at hplan
        exact Or.inl ((congrArg Script.firstClient hplan.same.script).trans hfirst)
      | ends =>
        rw [hp] at hplan
        exact Or.inl (hplan.firstClient.trans hfirst)
      | entry x =>
        -- the first entry may grow to all that is queued, and it does not wait
        rw [hp] at hplan
        have hgo := (hs.client hu.mode hu.load).first_goes hcursor hplan hfirst
        have hall : (s.client.ep.pkt.wire.length : ℤ) + s.client.ep.pkt.outputLen ≤
            s'.client.ep.committed :=
          committed_first hslot hcursor.reached hp (by rw [hgo]; decide) hfirst
        right
        omega
    · exact Or.inl (hflag.firstClient.trans hfirst)
  · exact Or.inr (hsent.trans hadvance.committed_le)

theorem url_netStep (hs : Handshake S s) (hG : HandshakeGuard S s ev s')
    (h : netStep S s ev = some s') (hfollows : Follows S.tables s'.proto) (hu : Underway s')
    (hne : s'.client.ep.page ≠ s'.server.ep.page) :
    ∃ u mark, hmLookup S.tables.clusters u ≠ -1 ∧
      Pending S.toServer (.url u) s'.server.inbox s'.client.ep.pkt mark ∧
      (s'.client.ep.g.firstClient = true ∨ (mark : ℤ) ≤ s'.client.ep.committed) := by
  by_cases hpage : s'.client.ep.page = s.client.ep.page
  · have hu0 := underway_before h hu hpage
    have hpages : s.client.ep.page = s.server.ep.page + urls (s.inFlight .client) :=
      hs.follows.ends.pages
    have hpages' : s'.client.ep.page = s'.server.ep.page + urls (s'.inFlight .client) :=
      hfollows.ends.pages
    have hne0 : s.client.ep.page ≠ s.server.ep.page := by
      intro heq
      by_cases hserver : s'.server.ep.page = s.server.ep.page
      · exact hne (by rw [hpage, heq, hserver])
      · obtain ⟨_, _, _, _, -, -, hstep, -⟩ := start_server h hserver
        have hnext := hstep.page
        omega
    obtain ⟨u, mark, hid, hp, hsent⟩ := hs.url hu0 hne0
    rcases pending_netStep (r := .client) h hp with hp' | ⟨ts, payload, beyond, hev, hm⟩
    · exact ⟨u, mark, hid, hp', hs.url_sent hG h hpage hu0 hp.mark_le hsent⟩
    · -- the URL arrives: it was the last one under way
      have hlast := hs.follows.ends.lastOnly
      obtain ⟨rest, hflight⟩ := inFlight_of_packet (r := .server) hs.gates.pages.channels hev hm
      have hflight : s.inFlight .client = .url u :: rest := hflight
      rw [Network.queued_client_proto, hflight] at hlast
      have hnext := (url_arrives hs.gates.pages.channels h hev hm).1
      rw [hflight, urls_cons_url, hlast.1 hid] at hpages
      omega
  · obtain ⟨p, rfl, hstep, -⟩ := start_client hs.gates.pages h hpage
    obtain ⟨u, hmem, hid⟩ := hfollows.exists_url hu.mode hne
    have hcarries := (hs.gates.pages.netStep h).channels.toServer
    exact ⟨u, _, hid, hcarries.pending hmem, Or.inl ((hstep.request p rfl).2.2.2 hu.mode)⟩

theorem acked_netStep (hs : Handshake S s) (h : netStep S s ev = some s')
    (hpage : s'.client.ep.page = s.client.ep.page) (hacked : s.client.ep.g.acked) :
    s'.client.ep.g.acked := by
  rcases side_cases (r := .client) h hpage with ⟨-, hep⟩ | ⟨inp, -, hslot⟩ | ⟨_, -, -, -, hflag⟩
  · have hep : s'.client.ep = s.client.ep := hep
    rw [hep]
    exact hacked
  · exact acked_slot (hs.gates.pages.cursor .client) hslot hacked
  · exact acked_flag hflag hacked

theorem room_netStep (hs : Handshake S s) (h : netStep S s ev = some s')
    (hpage : s'.server.ep.page = s.server.ep.page) (ht : Together s) {mark : ℕ}
    (hmark : mark ≤ s.server.ep.pkt.wire.length + s.server.ep.pkt.outputLen)
    (hroom : Room S.tables s.server.ep mark) : Room S.tables s'.server.ep mark := by
  rcases side_cases (r := .server) h hpage with ⟨-, hep⟩ | ⟨inp, -, hslot⟩ | ⟨_, -, -, -, hflag⟩
  · have hep : s'.server.ep = s.server.ep := hep
    rw [hep]
    exact hroom
  · exact hroom.slot (hs.gates.pages.cursor .server) hslot ht.server
      ((hs.follows.sameInfo ht.page).2 ht.load) hmark (hs.balanced ht).credit
  · exact hroom.flag (hs.advance_server h hpage ht) hflag

theorem urlack_netStep (hs : Handshake S s) (hpaced : ∀ id, Paced (S.tables.straces id))
    (hG : HandshakeGuard S s ev s') (h : netStep S s ev = some s')
    (hfollows : Follows S.tables s'.proto) (hu : Underway s')
    (heq : s'.client.ep.page = s'.server.ep.page) :
    s'.client.ep.g.acked ∨ ∃ mark,
      Pending S.toClient .urlack s'.client.inbox s'.server.ep.pkt mark ∧
      Room S.tables s'.server.ep mark := by
  have hclient := hs.page_client_eq h heq
  have hu0 := underway_before h hu hclient
  by_cases hpage : s'.server.ep.page = s.server.ep.page
  · have heq0 : s.client.ep.page = s.server.ep.page := (hclient.symm.trans heq).trans hpage
    rcases hs.urlack hu0 heq0 with hacked | ⟨mark, hp, hroom⟩
    · exact Or.inl (hs.acked_netStep h hclient hacked)
    · have ht : Together s :=
        ⟨hu0.mode, hs.follows.follows hu0.mode hu0.sentTend heq0, heq0, hu0.load⟩
      rcases pending_netStep (r := .server) h hp with hp' | ⟨ts, payload, beyond, hev, hm⟩
      · exact Or.inr ⟨mark, hp', hs.room_netStep h hpage ht hp.mark_le hroom⟩
      · have hat := netStep_at h .client
        have hev : ev.at S s .client = some (.packet ts payload beyond) := hev
        rw [hev] at hat
        exact Or.inl (Or.inl (urlack_of_packet hat hm))
  · -- the server has just queued the acknowledgement
    obtain ⟨ts, payload, beyond, u, hev, hm, hstep, -, hin⟩ := start_server h hpage
    have hsuper : s'.server.ep.g.stmode = .supertrace := hfollows.follows hu.mode hu.sentTend heq
    have hmem := ((url_arrives hs.gates.pages.channels h hev hm).2 hsuper).2
    rw [← hin] at hmem
    have hcarries := (hs.gates.pages.netStep h).channels.toClient
    refine Or.inr ⟨_, hcarries.pending hmem, fun hmany hmore => ?_⟩
    have hwait := hs.gates.pages.not_waiting (r := .server) h hpage
    have hnil : s'.server.ep.behind S.tables .server = [] := hstep.behind .server hsuper hwait
    rw [hnil, bytes_nil]
    refine ((readied_start hpaced hG h hpage hsuper).room hmany hmore).imp id fun hfits => ?_
    unfold Endpoint.committed
    push_cast
    omega

/-- **Every event of a guarded run keeps the handshake.** -/
theorem netStep (hs : Handshake S s) (hpaced : ∀ id, Paced (S.tables.straces id))
    (hG : HandshakeGuard S s ev s') (h : netStep S s ev = some s') : Handshake S s' := by
  have hfollows : Follows S.tables s'.proto :=
    (inv_netStep (G := fun _ _ => True) (I := Follows S.tables) (fun _ _ hi hp => hi.step hp)
      (fun _ _ => trivial) ⟨hs.gates.pages.channels, hs.follows⟩ h).2
  have hbalance : Together s' → Balanced S s' := by
    intro ht
    by_cases hpage : s'.server.ep.page = s.server.ep.page
    · exact hs.balanced_netStep hG h hpage ht
    · exact hs.balanced_start hpaced hG h hpage ht
  exact
    { gates := (hs.gates.netStep hG.1 h).1
      follows := hfollows
      client := hs.client_netStep hG h
      balanced := hbalance
      url := hs.url_netStep hG h hfollows
      urlack := hs.urlack_netStep hpaced hG h hfollows }

end Handshake

theorem Network.Fresh.handshake {S : Setup κ} {s : Network κ} (h : s.Fresh S) : Handshake S s := by
  have hmode : s.client.ep.g.stmode ≠ .supertrace := by
    obtain ⟨snd, hep⟩ := h.side_eq .client
    have hclient : s.client.ep = { pkt := { snd := snd } } := hep
    rw [hclient]
    exact fun hm => (nomatch hm)
  exact
    { gates := ⟨h.pages, fun hm => absurd hm hmode⟩
      follows := h.proto ▸ follows_init S.tables
      client := fun hm => absurd hm hmode
      balanced := fun ht => absurd ht.client hmode
      url := fun hu => absurd hu.mode hmode
      urlack := fun hu => absurd hu.mode hmode }

end CSBuFLO
