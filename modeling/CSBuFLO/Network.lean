/-
# The connection: two endpoints and the bytes between them

A client and a server endpoint with the byte-exact packet layer of `PacketRead.lean` in
both directions.  Bytes accepted by the kernel at one end can be read at the other end in
pieces of any size; what was read is decrypted and handled packet by packet.  The events
of the two ends interleave in every possible way.

The invariant `Carries` says, for one direction, that what the receiver has read and what
is still under way are the encoding of a sequence of packets, and that the notifications
in this sequence are exactly those the sender has queued and the receiver has not handled
yet.  So notifications arrive in order, unchanged and once each.
-/
import CSBuFLO.Control
import CSBuFLO.Transparency

namespace CSBuFLO

variable {κ : Type}

/-! ## State and events -/

/-- The other end. -/
def Role.peer : Role → Role
  | .client => .server
  | .server => .client

/-- The receiving half of an endpoint: the decoder, the number of bytes read so far and the
number of notifications handled so far. -/
structure Inbox (κ : Type) where
  recv : RecvState κ
  read : ℕ := 0
  seen : ℕ := 0

/-- One end of the connection. -/
structure Side (κ : Type) where
  ep : Endpoint (SendState κ) UInt8
  inbox : Inbox κ

/-- The two ends. -/
structure Network (κ : Type) where
  client : Side κ
  server : Side κ

/-- What does not change: the keys of the two directions and the tables both ends have
loaded. -/
structure Setup (κ : Type) where
  toServer : Keys κ
  toClient : Keys κ
  tables : Tables

/-- The keys under which an end sends. -/
def Setup.keys (S : Setup κ) : Role → Keys κ
  | .client => S.toServer
  | .server => S.toClient

namespace Network

/-- One end of the network. -/
def side (s : Network κ) : Role → Side κ
  | .client => s.client
  | .server => s.server

/-- Replace one end. -/
def setSide (s : Network κ) (x : Side κ) : Role → Network κ
  | .client => { s with client := x }
  | .server => { s with server := x }

/-- The notifications an end has queued and its peer has not handled yet. -/
def inFlight (s : Network κ) (r : Role) : List Msg :=
  (s.side r).ep.pkt.queued.drop (s.side r.peer).inbox.seen

end Network

/-- What can happen. -/
inductive NetEvent where
  /-- The send slot of one end. -/
  | slot (r : Role) (inp : SlotInput)
  /-- A request on the client's SOCKS port. -/
  | socks (p : ℕ → UInt8)
  /-- The rest of the program queues a packet. -/
  | data (r : Role) (extraPad : ℕ) (payload : List UInt8)
  /-- One end reads `n` of the bytes its peer has written. -/
  | netInput (r : Role) (n : ℕ)
  /-- One end looks for a packet in what it has read, and handles it. -/
  | parse (r : Role) (curTs : ℕ) (beyond : ℕ → UInt8)

instance (K : Keys κ) (x : ℕ) (payload : List UInt8) : Decidable (Sendable K x payload) :=
  decidable_of_iff
    ((payload.head?.any fun t => acceptedType t && t != msgNewkeys) = true ∧ (x = 0 ∨ x = 64) ∧
      1 + payload.length + padLength K.cipher.blockSize x (5 + payload.length) ≤ packetMaxSize) (by
    constructor
    · rintro ⟨htype, hextra, hfits⟩
      cases payload with
      | nil => simp at htype
      | cons t data => exact ⟨⟨t, data, rfl, by simpa using htype⟩, hextra, hfits⟩
    · rintro ⟨⟨t, data, rfl, htype⟩, hextra, hfits⟩
      exact ⟨by simpa using htype, hextra, hfits⟩)

/-- An event of one endpoint. -/
def Side.act (S : Setup κ) (r : Role) (x : Side κ) (ev : EndpointEvent) : Option (Side κ) :=
  (endpointStep (packetCodec (S.keys r)) S.tables r x.ep ev).map fun e => { x with ep := e }

/-- Handle what `packet_read_poll2` found. -/
def Side.handle (S : Setup κ) (r : Role) (curTs : ℕ) (beyond : ℕ → UInt8) (x : Side κ) :
    Option (List UInt8) × RecvState κ → Option (Side κ)
  | (none, recv) => some { x with inbox := { x.inbox with recv := recv } }
  | (some payload, recv) =>
    { x with inbox := { x.inbox with
        recv := recv
        seen := x.inbox.seen + (Msg.ofPayload payload).toList.length } }.act S r
      (.packet curTs payload beyond)

/-- One event of the network. -/
def netStep (S : Setup κ) (s : Network κ) : NetEvent → Option (Network κ)
  | .slot r inp => ((s.side r).act S r (.slot inp)).map (s.setSide · r)
  | .socks p => (s.client.act S .client (.socks p)).map (s.setSide · .client)
  | .data r x payload =>
    if Sendable (S.keys r) x payload then
      ((s.side r).act S r (.data x payload)).map (s.setSide · r)
    else none
  | .netInput r n =>
    let x := s.side r
    let waiting := (s.side r.peer).ep.pkt.wire.drop x.inbox.read
    if 0 < n ∧ n ≤ waiting.length then
      (packetProcessIncoming x.inbox.recv (waiting.take n)).bind fun recv =>
        ({ x with inbox := { x.inbox with recv := recv, read := x.inbox.read + n } }.act S r
          (.received n)).map (s.setSide · r)
    else none
  | .parse r curTs beyond =>
    let x := s.side r
    (packetReadPoll2 (S.keys r.peer) x.inbox.recv).bind fun d =>
      (x.handle S r curTs beyond d).map (s.setSide · r)

/-- The end that runs a slot asked for what the slot was told. -/
def NetEvent.asked (s : Network κ) : NetEvent → Bool
  | .slot r inp => (EndpointEvent.slot inp).asked (s.side r).ep
  | _ => true

/-! ## One direction -/

/-- What a sender has queued and the receiver has not handled is under way. -/
structure Carries (K : Keys κ) (inbox : Inbox κ) (p : PacketState (SendState κ) UInt8) : Prop where
  read_le : inbox.read ≤ p.wire.length
  seen_le : inbox.seen ≤ p.queued.length
  owes : ∃ ps, RecvOwes K p.snd.link inbox.recv ps (p.wire.drop inbox.read ++ p.output) ∧
    (∀ payload ∈ ps, ProperUrl payload) ∧
    p.queued.drop inbox.seen = ps.filterMap Msg.ofPayload

variable {p : PacketState (SendState κ) UInt8}

/-- Random draws do not matter. -/
theorem Carries.draw {K : Keys κ} {inbox : Inbox κ} (h : Carries K inbox p) (n : ℕ) :
    Carries K inbox { p with snd := ((packetCodec K).arc4random p.snd n).2 } :=
  ⟨h.read_le, h.seen_le, h.owes⟩

/-- Sending a packet. -/
theorem Carries.packetSend {K : Keys κ} {inbox : Inbox κ} {b : Bool} {x : ℕ} {payload : List UInt8}
    {p' : PacketState (SendState κ) UInt8} (hp : Carries K inbox p)
    (h : packetSend (packetCodec K) b x payload p = some p') (hx : x = 0 ∨ x = 64)
    (htype : ∃ t data, payload = t :: data ∧ acceptedType t)
    (hfits : 1 + payload.length + padLength K.cipher.blockSize x (5 + payload.length)
      ≤ packetMaxSize) (hurl : ProperUrl payload) : Carries K inbox p' := by
  obtain ⟨bs, heq, hstream⟩ := packetStream_packetSend h hx htype hfits
  have hqueued := queued_packetSend h
  obtain ⟨ps, howes, hproper, hnotes⟩ := hp.owes
  refine ⟨?_, ?_, ps ++ [payload], ?_, ?_, ?_⟩
  · rw [heq]; exact hp.read_le
  · rw [hqueued, List.length_append]
    exact le_trans hp.seen_le (Nat.le_add_right _ _)
  · have := howes.extend hstream
    rw [List.append_assoc] at this
    rw [heq]
    exact this
  · intro q hq
    rcases List.mem_append.mp hq with hq | hq
    · exact hproper q hq
    · obtain rfl := List.mem_singleton.mp hq
      exact hurl
  · rw [hqueued, List.drop_append_of_le_length hp.seen_le, hnotes, List.filterMap_append]
    cases hm : Msg.ofPayload payload <;> simp [hm]

theorem properUrl_of_ofMsg {t : UInt8} {data : List UInt8} (h : Notify.ofMsg t ≠ some .url) :
    ProperUrl (t :: data) := by
  rintro data' heq
  have ht : t = Notify.url.msg := (List.cons.inj heq).1
  rw [ht, Notify.ofMsg_msg] at h
  exact absurd rfl h

theorem length_urlPayload {url : List UInt8} (h : StoredUrl url) {random : List UInt8}
    (hr : random.length = urlFill url) : (urlPayload url random).length = 305 := by
  obtain ⟨body, rfl, -, hlen⟩ := h
  simp [urlPayload, hr, urlFill]
  omega

/-- Everything the sending side does keeps the packets coming. -/
theorem sendInv_carries (K : Keys κ) (inbox : Inbox κ) :
    SendInv (packetCodec K) (Sendable K) (Carries K inbox) where
  notify {n p p'} hn hp h := by
    have hlen := (packetCodec K).length_arc4random p.snd 4
    have hpad := padLength_bounds K.blockSize_eq
      (5 + (notifyPayload n ((packetCodec K).arc4random p.snd 4).1).length)
    have := K.blockSize_eq
    refine (hp.draw 4).packetSend h (Or.inl rfl) ⟨_, _, rfl, by cases n <;> decide⟩ ?_ ?_
    · rw [length_notifyPayload, hlen] at *
      unfold packetMaxSize
      omega
    · exact properUrl_of_ofMsg (by rw [Notify.ofMsg_msg]; exact fun hc => hn (Option.some.inj hc))
  url {url p p'} hurl hp h := by
    have hlen := length_urlPayload hurl ((packetCodec K).length_arc4random p.snd (urlFill url))
    have hpad := padLength_bounds K.blockSize_eq (5 + 305)
    have := K.blockSize_eq
    refine (hp.draw (urlFill url)).packetSend h (Or.inl rfl) ⟨_, _, rfl, by decide⟩ ?_ ?_
    · rw [hlen]
      unfold packetMaxSize
      omega
    · exact fun data _ => ⟨url, _, hurl, rfl⟩
  data {x payload p p'} hplain hok hp h := by
    obtain ⟨t, data, rfl, ht, -⟩ := hok.type
    refine hp.packetSend h hok.extra ⟨t, data, rfl, ht⟩ hok.fits (properUrl_of_ofMsg ?_)
    rw [Option.isNone_iff_eq_none.mp hplain]
    exact fun hc => by cases hc
  pad n p p' hn hp h := by
    have hlen := (packetCodec K).length_arc4random p.snd n
    have hpad := padLength_bounds K.blockSize_eq
      (5 + (ignorePayload ((packetCodec K).arc4random p.snd n).1).length)
    have := K.blockSize_eq
    refine (hp.draw n).packetSend h (Or.inl rfl) ⟨_, _, rfl, by decide⟩ ?_ ?_
    · rw [length_ignorePayload, hlen] at *
      unfold packetMaxSize
      omega
    · exact properUrl_of_ofMsg (by decide)
  write n acc p hp hn hacc := by
    have hwire : (p.wire ++ p.output.take acc).drop inbox.read ++ p.output.drop acc =
        p.wire.drop inbox.read ++ p.output := by
      rw [List.drop_append_of_le_length hp.read_le, List.append_assoc, List.take_append_drop]
    refine ⟨?_, hp.seen_le, ?_⟩
    · exact le_trans hp.read_le (by simp [PacketState.consume, PacketState.handOver])
    · obtain ⟨ps, howes, hrest⟩ := hp.owes
      exact ⟨ps, by rw [← hwire] at howes; exact howes, hrest⟩
  time t p hp := ⟨hp.read_le, hp.seen_le, hp.owes⟩
  tau t p hp := ⟨hp.read_le, hp.seen_le, hp.owes⟩

/-- Reading a piece of what was written never fails. -/
theorem Carries.netInput {K : Keys κ} {inbox : Inbox κ} {n : ℕ} {recv : RecvState κ}
    (hp : Carries K inbox p) (hn : n ≤ (p.wire.drop inbox.read).length)
    (h : packetProcessIncoming inbox.recv ((p.wire.drop inbox.read).take n) = some recv) :
    Carries K { inbox with recv := recv, read := inbox.read + n } p := by
  obtain ⟨ps, howes, hrest⟩ := hp.owes
  have hcut : p.wire.drop inbox.read ++ p.output =
      (p.wire.drop inbox.read).take n ++ (p.wire.drop (inbox.read + n) ++ p.output) := by
    rw [← List.append_assoc, ← List.drop_drop, List.take_append_drop]
  rw [hcut] at howes
  obtain ⟨d, hd, hd'⟩ := (owes_packetDecoder K p.snd.link).feed howes
  obtain rfl : recv = d := Option.some.inj (h.symm.trans hd)
  have hle := hp.read_le
  rw [List.length_drop] at hn
  exact ⟨by dsimp only; omega, hp.seen_le, ps, hd', hrest⟩

/-- **Reading a packet.**  A packet found is the next one; if it is a notification, it is
the first one under way. -/
theorem Carries.poll {K : Keys κ} {inbox : Inbox κ} {found : Option (List UInt8)}
    {recv : RecvState κ} (hp : Carries K inbox p)
    (h : packetReadPoll2 K inbox.recv = some (found, recv)) :
    match found with
    | none => Carries K { inbox with recv := recv } p
    | some payload => ProperUrl payload ∧
        Carries K { inbox with
          recv := recv, seen := inbox.seen + (Msg.ofPayload payload).toList.length } p ∧
        p.queued.drop inbox.seen = (Msg.ofPayload payload).toList ++
          p.queued.drop (inbox.seen + (Msg.ofPayload payload).toList.length) := by
  obtain ⟨ps, howes, hproper, hnotes⟩ := hp.owes
  obtain ⟨d, hd, hd', -⟩ | ⟨payload, ps', d, rfl, hd, hd'⟩ :=
    (owes_packetDecoder K p.snd.link).poll howes
  · obtain ⟨rfl, rfl⟩ := Prod.mk.inj (Option.some.inj (h.symm.trans hd))
    exact ⟨hp.read_le, hp.seen_le, ps, hd', hproper, hnotes⟩
  · obtain ⟨rfl, rfl⟩ := Prod.mk.inj (Option.some.inj (h.symm.trans hd))
    have hsplit : p.queued.drop inbox.seen =
        (Msg.ofPayload payload).toList ++ ps'.filterMap Msg.ofPayload := by
      rw [hnotes, List.filterMap_cons]
      cases Msg.ofPayload payload <;> rfl
    have hdrop : p.queued.drop (inbox.seen + (Msg.ofPayload payload).toList.length) =
        ps'.filterMap Msg.ofPayload := by
      rw [← List.drop_drop, hsplit, List.drop_left]
    refine ⟨hproper payload List.mem_cons_self, ⟨hp.read_le, ?_, ps', hd', ?_, hdrop⟩, ?_⟩
    · have hlen := congrArg List.length hsplit
      have hle := hp.seen_le
      rw [List.length_drop, List.length_append] at hlen
      dsimp only
      omega
    · exact fun q hq => hproper q (List.mem_cons_of_mem payload hq)
    · rw [hdrop, hsplit]

end CSBuFLO
