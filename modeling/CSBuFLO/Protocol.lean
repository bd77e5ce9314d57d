/-
# The notification protocol

The abstract protocol of the two ends: their control views and two queues of notifications
under way.  A view's `queued` holds here what the peer has not handled yet.

`ProtoStep` has five kinds of steps: a control step of either end, a request on the
client's SOCKS port, and the delivery of the oldest notification to either end.  It has a
parameter `G` that restricts when requests arrive.

`refines_netStep` connects it to the byte-exact connection of `Network.lean`: every event
there is a sequence of steps here.  An invariant of the protocol is therefore an invariant
of the connection (`inv_network`).
-/
import CSBuFLO.Network

namespace CSBuFLO

open Relation (ReflTransGen)

/-! ## The abstract protocol -/

/-- The control views of the two ends; `queued` is what is under way to the peer. -/
structure Proto where
  client : Ctl := {}
  server : Ctl := {}
  deriving DecidableEq

/-- One step of the protocol. -/
inductive ProtoStep (T : Tables) (G : Ctl → (ℕ → UInt8) → Prop) : Proto → Proto → Prop where
  | client {s : Proto} {k : Ctl} (h : CtlStep .client s.client k) :
      ProtoStep T G s { s with client := k }
  | server {s : Proto} {k : Ctl} (h : CtlStep .server s.server k) :
      ProtoStep T G s { s with server := k }
  | socks {s : Proto} (p : ℕ → UInt8) (h : G s.client p) :
      ProtoStep T G s { s with client := s.client.socks T p }
  | toServer {s : Proto} {m : Msg} {ms : List Msg} (h : s.client.queued = m :: ms) :
      ProtoStep T G s { client := { s.client with queued := ms }, server := s.server.receive T m }
  | toClient {s : Proto} {m : Msg} {ms : List Msg} (h : s.server.queued = m :: ms) :
      ProtoStep T G s { client := s.client.receive T m, server := { s.server with queued := ms } }

variable {T : Tables} {n : ℕ} {payload : List UInt8}

theorem ProtoStep.mono {G G' : Ctl → (ℕ → UInt8) → Prop} {s s' : Proto} (hG : ∀ k p, G k p → G' k p)
    (h : ProtoStep T G s s') : ProtoStep T G' s s' := by
  cases h with
  | client h => exact .client h
  | server h => exact .server h
  | socks p h => exact .socks p (hG _ p h)
  | toServer h => exact .toServer h
  | toClient h => exact .toClient h

/-! ## What the server sends -/

/-- The notifications the server queues. -/
def Msg.fromServer : Msg → Bool
  | .tend => true
  | .normal => true
  | .urlack => true
  | _ => false

theorem fromServer_ctlStep {k k' : Ctl} (h : CtlStep .server k k')
    (hk : ∀ m ∈ k.queued, m.fromServer = true) : ∀ m ∈ k'.queued, m.fromServer = true := by
  have happend : ∀ m', m'.fromServer = true → ∀ m ∈ k.queued ++ [m'], m.fromServer = true := by
    intro m' hm' m hm
    rcases List.mem_append.mp hm with hm | hm
    · exact hk m hm
    · rwa [List.mem_singleton.mp hm]
  cases h with
  | tend => exact happend .tend rfl
  | toCsbuflo => exact hk
  | toNormal => exact happend .normal rfl
  | paddingdone hr => cases hr

theorem fromServer_receive (T : Tables) (k : Ctl) (m : Msg)
    (hk : ∀ m ∈ k.queued, m.fromServer = true) :
    ∀ m' ∈ (k.receive T m).queued, m'.fromServer = true := by
  cases m with
  | url u =>
    unfold Ctl.receive
    dsimp only
    split
    · intro m' hm'
      rcases List.mem_append.mp hm' with hm' | hm'
      · exact hk m' hm'
      · rw [List.mem_singleton.mp hm']; rfl
    · exact hk
  | normal =>
    unfold Ctl.receive
    dsimp only
    split <;> exact hk
  | _ => exact hk

/-! ## The view of an endpoint with a peer that has handled some notifications -/

section View

variable {σ β : Type}

/-- The control view of an endpoint whose peer has handled `n` notifications. -/
def Endpoint.view (e : Endpoint σ β) (n : ℕ) : Ctl := { e.ctl with queued := e.pkt.queued.drop n }

variable {e e' : Endpoint σ β}

/-- A slot is a sequence of steps of the protocol. -/
theorem view_slot {c : Codec σ β} {r : Role} {inp : SlotInput} (h : slot c T r inp e = .returned e')
    (hn : n ≤ e.pkt.queued.length) : ReflTransGen (CtlStep r) (e.view n) (e'.view n) := by
  obtain ⟨ms, hms, hrun⟩ := requeue_of_reflTransGen (slot_ctl h)
  have hq : e'.pkt.queued = e.pkt.queued ++ ms := hms
  have := hrun (e.pkt.queued.drop n)
  unfold Endpoint.view
  rwa [hq, List.drop_append_of_le_length hn]

theorem view_packet {c : Codec σ β} {ts : ℕ} {beyond : ℕ → UInt8} (hurl : ProperUrl payload)
    (h : packetReadPollSeqnr c T ts payload beyond e = some e') (hn : n ≤ e.pkt.queued.length) :
    e'.view n = (e.view n).deliver T (Msg.ofPayload payload) := by
  have hctl := ctl_packetReadPollSeqnr hurl h
  have hq : e'.pkt.queued = e'.ctl.queued := rfl
  unfold Endpoint.view
  rw [hq, hctl]
  cases Msg.ofPayload payload with
  | none => rfl
  | some m =>
    cases m with
    | url u =>
      unfold Ctl.deliver Ctl.receive
      dsimp only
      split
      · simp only [Ctl.queue, Ctl.startPage]
        rw [show e.ctl.queued = e.pkt.queued from rfl, List.drop_append_of_le_length hn]
      · rfl
    | normal =>
      unfold Ctl.deliver Ctl.receive
      dsimp only
      split <;> rfl
    | _ => rfl

theorem view_socks {c : Codec σ β} {p : ℕ → UInt8} (h : socksControl c T p e = some e')
    (hn : n ≤ e.pkt.queued.length) : e'.view n = (e.view n).socks T p := by
  have hctl := ctl_socksControl h
  have hq : e'.pkt.queued = e'.ctl.queued := rfl
  unfold Endpoint.view
  rw [hq, hctl]
  unfold Ctl.socks
  have hdrop : ∀ m : Msg, (e.ctl.queued ++ [m]).drop n = e.pkt.queued.drop n ++ [m] :=
    fun m => List.drop_append_of_le_length hn
  split_ifs <;> simp only [Ctl.queue, Ctl.startPage, hdrop]
  rfl

theorem view_data {c : Codec σ β} {r : Role} {x : ℕ}
    (h : endpointStep c T r e (.data x payload) = some e') : e'.view n = e.view n := by
  have hctl := ctl_data h
  have hq : e'.pkt.queued = e.pkt.queued := congrArg Ctl.queued hctl
  unfold Endpoint.view
  rw [hctl, hq]

end View

/-! ## Refinement -/

variable {κ : Type}

/-- Both directions carry what was queued. -/
structure Channels (S : Setup κ) (s : Network κ) : Prop where
  toServer : Carries S.toServer s.server.inbox s.client.ep.pkt
  toClient : Carries S.toClient s.client.inbox s.server.ep.pkt

/-- The protocol state of a connection. -/
def Network.proto (s : Network κ) : Proto where
  client := s.client.ep.view s.server.inbox.seen
  server := s.server.ep.view s.client.inbox.seen

@[simp] theorem Network.queued_client_proto (s : Network κ) :
    s.proto.client.queued = s.inFlight .client := rfl

section Steps

variable {T : Tables} {G : Ctl → (ℕ → UInt8) → Prop} {k k' v v' : Ctl}

/-- Control steps of the client are steps of the protocol. -/
theorem protoSteps_client (h : ReflTransGen (CtlStep .client) k k') :
    ReflTransGen (ProtoStep T G) ⟨k, v⟩ ⟨k', v⟩ :=
  h.lift (fun k => (⟨k, v⟩ : Proto)) fun _ _ hstep => .client hstep

/-- Control steps of the server are steps of the protocol. -/
theorem protoSteps_server (h : ReflTransGen (CtlStep .server) v v') :
    ReflTransGen (ProtoStep T G) ⟨k, v⟩ ⟨k, v'⟩ :=
  h.lift (fun v => (⟨k, v⟩ : Proto)) fun _ _ hstep => .server hstep

/-- Handling a packet at the client delivers the notification in it, if there is one. -/
theorem protoSteps_toClient {found : Option Msg} {rest : List Msg}
    (h : v.queued = found.toList ++ rest) :
    ReflTransGen (ProtoStep T G) ⟨k, v⟩ ⟨k.deliver T found, { v with queued := rest }⟩ := by
  cases found with
  | none =>
    have hv : v.queued = rest := h
    subst hv
    exact .refl
  | some m => exact .single (ProtoStep.toClient (s := ⟨k, v⟩) h)

/-- Handling a packet at the server delivers the notification in it, if there is one. -/
theorem protoSteps_toServer {found : Option Msg} {rest : List Msg}
    (h : k.queued = found.toList ++ rest) :
    ReflTransGen (ProtoStep T G) ⟨k, v⟩ ⟨{ k with queued := rest }, v.deliver T found⟩ := by
  cases found with
  | none =>
    have hk : k.queued = rest := h
    subst hk
    exact .refl
  | some m => exact .single (ProtoStep.toServer (s := ⟨k, v⟩) h)

end Steps

variable {S : Setup κ} {s : Network κ}

theorem Side.act_eq_some {r : Role} {x x' : Side κ} {ev : EndpointEvent}
    (h : x.act S r ev = some x') :
    ∃ e, endpointStep (packetCodec (S.keys r)) S.tables r x.ep ev = some e ∧
      x' = { x with ep := e } := by
  obtain ⟨e, he, rfl⟩ := Option.map_eq_some_iff.mp h
  exact ⟨e, he, rfl⟩

/-- The rest of the program only queues what can be sent. -/
theorem netStep_data {s' : Network κ} {r : Role} (h : netStep S s (.data r n payload) = some s') :
    Sendable (S.keys r) n payload ∧
      ∃ x, (s.side r).act S r (.data n payload) = some x ∧ s' = s.setSide x r := by
  unfold netStep at h
  dsimp only at h
  split at h
  · rename_i hok
    obtain ⟨x, hx, rfl⟩ := Option.map_eq_some_iff.mp h
    exact ⟨hok, x, hx, rfl⟩
  · cases h

/-- An end reads bytes that its peer has written, into its inbox. -/
theorem netStep_netInput {s' : Network κ} {r : Role} (h : netStep S s (.netInput r n) = some s') :
    n ≤ ((s.side r.peer).ep.pkt.wire.drop (s.side r).inbox.read).length ∧
      ∃ recv x, packetProcessIncoming (s.side r).inbox.recv
          (((s.side r.peer).ep.pkt.wire.drop (s.side r).inbox.read).take n) = some recv ∧
        { s.side r with inbox := { (s.side r).inbox with
            recv := recv, read := (s.side r).inbox.read + n } }.act S r (.received n) = some x ∧
        s' = s.setSide x r := by
  unfold netStep at h
  dsimp only at h
  split at h
  · rename_i hn
    obtain ⟨recv, hrecv, h⟩ := Option.bind_eq_some_iff.mp h
    obtain ⟨x, hx, rfl⟩ := Option.map_eq_some_iff.mp h
    exact ⟨hn.2, recv, x, hrecv, hx, rfl⟩
  · cases h

section Refinement

variable {S : Setup κ} {G : Ctl → (ℕ → UInt8) → Prop} {s s' : Network κ} {r : Role} {x : Side κ}

/-- A packet found by one end is handled. -/
theorem refines_handle {ts : ℕ} {beyond : ℕ → UInt8} {d : Option (List UInt8) × RecvState κ}
    (h : Channels S s) (hd : packetReadPoll2 (S.keys r.peer) (s.side r).inbox.recv = some d)
    (hx : (s.side r).handle S r ts beyond d = some x) :
    Channels S (s.setSide x r) ∧
      ReflTransGen (ProtoStep S.tables G) s.proto (s.setSide x r).proto := by
  obtain ⟨found, recv⟩ := d
  cases r with
  | client =>
    have hpoll := h.toClient.poll hd
    cases found with
    | none =>
      obtain rfl := Option.some.inj hx
      exact ⟨⟨h.toServer, hpoll⟩, .refl⟩
    | some payload =>
      obtain ⟨hurl, hcarries, hflight⟩ := hpoll
      obtain ⟨e, he, rfl⟩ := Side.act_eq_some hx
      have hsteps := protoSteps_toClient (T := S.tables) (G := G) (k := s.proto.client)
        (v := s.proto.server) hflight
      have hview : e.view s.server.inbox.seen =
          s.proto.client.deliver S.tables (Msg.ofPayload payload) :=
        view_packet hurl he h.toServer.seen_le
      rw [← hview] at hsteps
      exact ⟨⟨(sendInv_carries _ _).packetReadPollSeqnr he h.toServer, hcarries⟩, hsteps⟩
  | server =>
    have hpoll := h.toServer.poll hd
    cases found with
    | none =>
      obtain rfl := Option.some.inj hx
      exact ⟨⟨hpoll, h.toClient⟩, .refl⟩
    | some payload =>
      obtain ⟨hurl, hcarries, hflight⟩ := hpoll
      obtain ⟨e, he, rfl⟩ := Side.act_eq_some hx
      have hsteps := protoSteps_toServer (T := S.tables) (G := G) (k := s.proto.client)
        (v := s.proto.server) hflight
      have hview : e.view s.client.inbox.seen =
          s.proto.server.deliver S.tables (Msg.ofPayload payload) :=
        view_packet hurl he h.toClient.seen_le
      rw [← hview] at hsteps
      exact ⟨⟨hcarries, (sendInv_carries _ _).packetReadPollSeqnr he h.toClient⟩, hsteps⟩

/-- A slot of one end. -/
theorem refines_slot {inp : SlotInput} (h : Channels S s)
    (hx : (s.side r).act S r (.slot inp) = some x) :
    Channels S (s.setSide x r) ∧
      ReflTransGen (ProtoStep S.tables G) s.proto (s.setSide x r).proto := by
  obtain ⟨e, he, rfl⟩ := Side.act_eq_some hx
  have hslot := endpointStep_slot.mp he
  cases r with
  | client =>
    exact ⟨⟨(sendInv_carries _ _).slot hslot h.toServer, h.toClient⟩,
      protoSteps_client (view_slot hslot h.toServer.seen_le)⟩
  | server =>
    exact ⟨⟨h.toServer, (sendInv_carries _ _).slot hslot h.toClient⟩,
      protoSteps_server (view_slot hslot h.toClient.seen_le)⟩

/-- A packet of the rest of the program. -/
theorem refines_data (h : Channels S s) (hok : Sendable (S.keys r) n payload)
    (hx : (s.side r).act S r (.data n payload) = some x) :
    Channels S (s.setSide x r) ∧ (s.setSide x r).proto = s.proto := by
  obtain ⟨e, he, rfl⟩ := Side.act_eq_some hx
  have hdata : ∀ m payload', EndpointEvent.data n payload = .data m payload' →
      Sendable (S.keys r) m payload' := by
    rintro _ _ ⟨rfl, rfl⟩
    exact hok
  cases r with
  | client =>
    exact ⟨⟨(sendInv_carries _ _).endpointStep he hdata h.toServer, h.toClient⟩,
      congrArg (fun k => (⟨k, _⟩ : Proto)) (view_data he)⟩
  | server =>
    exact ⟨⟨h.toServer, (sendInv_carries _ _).endpointStep he hdata h.toClient⟩,
      congrArg (fun v => (⟨_, v⟩ : Proto)) (view_data he)⟩

/-- **The connection refines the protocol.**  Every event of the connection keeps both
directions intact and is a sequence of protocol steps. -/
theorem refines_netStep {ev : NetEvent} (hG : ∀ p, ev = .socks p → G s.proto.client p)
    (h : Channels S s) (hs : netStep S s ev = some s') :
    Channels S s' ∧ ReflTransGen (ProtoStep S.tables G) s.proto s'.proto := by
  cases ev with
  | slot r inp =>
    obtain ⟨x, hx, rfl⟩ := Option.map_eq_some_iff.mp hs
    exact refines_slot h hx
  | socks p =>
    obtain ⟨x, hx, rfl⟩ := Option.map_eq_some_iff.mp hs
    obtain ⟨e, he, rfl⟩ := Side.act_eq_some hx
    have hview : e.view s.server.inbox.seen = s.proto.client.socks S.tables p :=
      view_socks he h.toServer.seen_le
    refine ⟨⟨(sendInv_carries _ _).socksControl he h.toServer, h.toClient⟩, .single ?_⟩
    have hstep := ProtoStep.socks (T := S.tables) p (hG p rfl)
    rw [← hview] at hstep
    exact hstep
  | data r n payload =>
    obtain ⟨hok, x, hx, rfl⟩ := netStep_data hs
    obtain ⟨hchannels, heq⟩ := refines_data h hok hx
    exact ⟨hchannels, heq ▸ .refl⟩
  | netInput r n =>
    obtain ⟨hn, recv, x, hrecv, hx, rfl⟩ := netStep_netInput hs
    obtain ⟨e, he, rfl⟩ := Side.act_eq_some hx
    obtain rfl := Option.some.inj he
    cases r with
    | client => exact ⟨⟨h.toServer, h.toClient.netInput hn hrecv⟩, .refl⟩
    | server => exact ⟨⟨h.toServer.netInput hn hrecv, h.toClient⟩, .refl⟩
  | parse r ts beyond =>
    obtain ⟨d, hd, hs⟩ := Option.bind_eq_some_iff.mp hs
    obtain ⟨x, hx, rfl⟩ := Option.map_eq_some_iff.mp hs
    exact refines_handle h hd hx

end Refinement

/-! ## Runs of the connection -/

/-- A connection after the key exchange: both ends are in normal mode, nothing is queued or
under way, and the ciphers and counters of the two ends of each direction agree. -/
structure Network.Fresh (S : Setup κ) (s : Network κ) : Prop where
  client_eq : ∃ snd, s.client.ep = { pkt := { snd := snd } } ∧ ∃ ctx,
    s.server.inbox = { recv := { ctx := ctx, seqnr := snd.seqnr, packets := snd.packets } } ∧
    S.toServer.cipher.Synced snd.ctx ctx
  server_eq : ∃ snd, s.server.ep = { pkt := { snd := snd } } ∧ ∃ ctx,
    s.client.inbox = { recv := { ctx := ctx, seqnr := snd.seqnr, packets := snd.packets } } ∧
    S.toClient.cipher.Synced snd.ctx ctx

theorem carries_fresh {K : Keys κ} {snd : SendState κ} {ctx : κ} (h : K.cipher.Synced snd.ctx ctx) :
    Carries K { recv := { ctx := ctx, seqnr := snd.seqnr, packets := snd.packets } }
      { snd := snd } :=
  ⟨le_refl _, le_refl _, [], .between rfl rfl h (PacketStream.nil _), by simp, rfl⟩

/-- Nothing is under way at the start. -/
theorem Network.Fresh.channels (h : s.Fresh S) : Channels S s := by
  obtain ⟨⟨snd, hep, ctx, hin, hsync⟩, ⟨snd', hep', ctx', hin', hsync'⟩⟩ := h
  refine ⟨?_, ?_⟩
  · rw [hep, hin]; exact carries_fresh hsync
  · rw [hep', hin']; exact carries_fresh hsync'

theorem Network.Fresh.proto (h : s.Fresh S) : s.proto = {} := by
  obtain ⟨⟨snd, hep, ctx, hin, -⟩, ⟨snd', hep', ctx', hin', -⟩⟩ := h
  unfold Network.proto
  rw [hep, hin, hep', hin']
  rfl

/-- A state that some sequence of events reaches. -/
def Reachable (S : Setup κ) (s : Network κ) : Prop :=
  ∃ s0 : Network κ, s0.Fresh S ∧ ∃ evs, Transition.run (netStep S) s0 evs = some s

theorem Reachable.step {s' : Network κ} {ev : NetEvent} (h : Reachable S s)
    (hs : netStep S s ev = some s') : Reachable S s' := by
  obtain ⟨s0, h0, evs, hrun⟩ := h
  refine ⟨s0, h0, evs ++ [ev], ?_⟩
  rw [Transition.run_append, hrun, Option.bind_some, Transition.run, hs]
  rfl

/-- What every protocol step keeps, every event of the connection keeps. -/
theorem inv_netStep {G : Ctl → (ℕ → UInt8) → Prop} {I : Proto → Prop}
    (hstep : ∀ s s', I s → ProtoStep S.tables G s s' → I s') {s' : Network κ} {ev : NetEvent}
    (hG : ∀ p, ev = .socks p → G s.proto.client p) (h : Channels S s ∧ I s.proto)
    (hs : netStep S s ev = some s') : Channels S s' ∧ I s'.proto := by
  obtain ⟨hchannels, hsteps⟩ := refines_netStep hG h.1 hs
  exact ⟨hchannels, Transition.inv_reflTransGen hstep hsteps h.2⟩

/-- **Invariant rule.**  What holds of the initial protocol state and is kept by every
protocol step holds in every reachable state of the connection. -/
theorem inv_network {I : Proto → Prop} (hinit : I {})
    (hstep : ∀ s s', I s → ProtoStep S.tables (fun _ _ => True) s s' → I s') (h : Reachable S s) :
    I s.proto := by
  obtain ⟨s0, h0, evs, hrun⟩ := h
  have hall := Transition.inv_run (I := fun s => Channels S s ∧ I s.proto)
    (fun s ev s' hs => inv_netStep hstep (fun _ _ => trivial) hs) hrun
    ⟨h0.channels, h0.proto ▸ hinit⟩
  exact hall.2

/-! ## A connection without encryption -/

/-- Both directions without encryption and MAC. -/
def plainSetup (T : Tables) : Setup Unit where
  toServer := identityKeys 8 0 blockSize_eight
  toClient := identityKeys 8 0 blockSize_eight
  tables := T

/-- A fresh connection. -/
def plainStart : Network Unit where
  client := ⟨{ pkt := { snd := ⟨(), 0, 0, fun _ => 0⟩ } }, { recv := ⟨(), 0, 0, [], [], 0, 0⟩ }⟩
  server := ⟨{ pkt := { snd := ⟨(), 0, 0, fun _ => 0⟩ } }, { recv := ⟨(), 0, 0, [], [], 0, 0⟩ }⟩

theorem fresh_plainStart (T : Tables) : plainStart.Fresh (plainSetup T) :=
  ⟨⟨_, rfl, (), rfl, trivial⟩, ⟨_, rfl, (), rfl, trivial⟩⟩

theorem reachable_of_run {evs : List NetEvent} {s : Network Unit}
    (h : Transition.run (netStep (plainSetup T)) plainStart evs = some s) :
    Reachable (plainSetup T) s :=
  ⟨plainStart, fresh_plainStart T, evs, h⟩

end CSBuFLO
