/-
# Global requests and remote forwards (`channels.c`, `clientloop.c`, `serverloop.c`, `ssh.c`)

A client asks the server to listen on ports for it (`tcpip-forward`).  Replies to global requests
carry no number: the client keeps the callbacks of its requests in a queue, `global_confirms`, and
the next reply is for the first of them.  The connections that the server accepts come back as
`forwarded-tcpip` channels that name the port they were accepted on, and the client looks up in
`permitted_opens` where to connect them to.

`Replies.lean` is about the callbacks, `ForwardTargets.lean` about the connections.
-/
import CSBuFLO.Misc
import CSBuFLO.Negotiate
import CSBuFLO.RunLength
import CSBuFLO.Socks

namespace CSBuFLO

/-! ## Messages -/

/-- `Forward` of the options. -/
structure Forward where
  listenHost : Option (List UInt8)
  listenPort : UInt16
  connectHost : List UInt8
  connectPort : UInt16
  deriving DecidableEq, Repr

/-- Where the connections of a forward go. -/
def Forward.target (f : Forward) : List UInt8 × UInt16 := (f.connectHost, f.connectPort)

/-- The callbacks for replies, each with what its `ctx` points to. -/
inductive Callback where
  /-- `NULL`. -/
  | placeholder
  | confirmRemoteForward (i : ℕ)
  | muxConfirmRemoteForward (ctx : ℕ)
  | roamingReply
  deriving DecidableEq, Repr

/-- The global requests of the client.  The forward that a request was sent for is not part of
the message. -/
inductive GlobalRequest where
  | tcpipForward (address : List UInt8) (port : UInt16) (origin : Forward)
  | cancelTcpipForward (address : List UInt8) (port : UInt16)
  | keepalive
  | noMoreSessions
  | roaming (recvBufSize : ℕ)
  deriving DecidableEq, Repr

/-- A request on its way.  The callback that the client has registered for its reply is not part
of the message. -/
structure SentRequest where
  request : GlobalRequest
  wantReply : Bool
  callback : Option Callback
  deriving DecidableEq, Repr

/-- `SSH2_MSG_REQUEST_SUCCESS`, with the allocated port if one was put, or
`SSH2_MSG_REQUEST_FAILURE`. -/
inductive RequestReply where
  | success (port : Option ℕ)
  | failure
  deriving DecidableEq, Repr

/-- What the server sends.  The request that a reply answers, and the forward that a connection
was accepted for, are not part of the messages. -/
inductive ToClient where
  | reply (r : RequestReply) (m : SentRequest)
  | opened (listenAddress : List UInt8) (listenPort : UInt16) (origin : Forward)
  deriving DecidableEq, Repr

/-- The request that a message answers. -/
def ToClient.answers : ToClient → Option SentRequest
  | .reply _ m => some m
  | .opened .. => none

/-! ## The client -/

/-- An entry of `permitted_opens`. -/
structure PermittedOpen where
  hostToConnect : Option (List UInt8)
  portToConnect : UInt16
  listenPort : UInt16
  deriving DecidableEq, Repr

/-- The options that are read here. -/
structure FwdOptions where
  remoteForwards : List Forward
  exitOnForwardFailure : Bool := false
  forkAfterAuthentication : Bool := false
  serverAliveCountMax : ℕ := 3
  /-- `datafellows & SSH_BUG_RFWD_ADDR`. -/
  rfwdAddrBug : Bool := false

structure FwdClient where
  permittedOpens : List PermittedOpen := []
  globalConfirms : List (Callback × ℕ) := []
  allocatedPorts : ℕ → ℕ := fun _ => 0
  remoteForwardConfirmsReceived : ℕ := 0
  /-- Whether `fork_postauth` was called. -/
  forked : Bool := false
  keepAliveTimeouts : ℕ := 0

section Client

variable (o : FwdOptions)

/-- `address_to_bind`. -/
def addressToBind (listenHost : Option (List UInt8)) : List UInt8 :=
  match listenHost with
  | none => if o.rfwdAddrBug then ascii "127.0.0.1" else ascii "localhost"
  | some host =>
    if host = [] ∨ host = ascii "*" then if o.rfwdAddrBug then ascii "0.0.0.0" else []
    else host

/-- `channel_request_remote_forwarding`: the request, and the entry for the connections that come
back. -/
def channelRequestRemoteForwarding (f : Forward) (c : FwdClient) : GlobalRequest × FwdClient :=
  (.tcpipForward (addressToBind o f.listenHost) f.listenPort f,
    { c with
      permittedOpens := c.permittedOpens ++ [⟨some f.connectHost, f.connectPort, f.listenPort⟩] })

/-- Whether an entry is for a port. -/
def PermittedOpen.isFor (port : UInt16) (e : PermittedOpen) : Bool :=
  e.hostToConnect.isSome && e.listenPort == port

/-- `channel_request_rforward_cancel`; no request is sent for a port that is not there. -/
def channelRequestRforwardCancel (host : Option (List UInt8)) (port : UInt16) (c : FwdClient) :
    Option (GlobalRequest × FwdClient) :=
  match c.permittedOpens.findIdx? (PermittedOpen.isFor port) with
  | none => none
  | some i =>
    some (.cancelTcpipForward (host.getD []) port,
      { c with permittedOpens := c.permittedOpens.set i ⟨none, 0, 0⟩ })

/-- `channel_connect_by_listen_address`: where to connect to. -/
def channelConnectByListenAddress (port : UInt16) (c : FwdClient) :
    Option (List UInt8 × UInt16) :=
  (c.permittedOpens.find? (PermittedOpen.isFor port)).bind fun e =>
    e.hostToConnect.map fun host => (host, e.portToConnect)

/-- `client_register_global_confirm`; `none` is `fatal`. -/
def clientRegisterGlobalConfirm (cb : Callback) (c : FwdClient) : Option FwdClient :=
  (RunLength.push intMax c.globalConfirms cb).map fun q => { c with globalConfirms := q }

/-- What `ssh_session2` does before it enters the main loop: it goes to the background at once,
unless the replies to the remote forwards decide whether it goes on at all. -/
def forkBeforeLoop (c : FwdClient) : FwdClient :=
  { c with
    forked := c.forked || (o.forkAfterAuthentication &&
      !(o.exitOnForwardFailure && decide (0 < o.remoteForwards.length))) }

/-- The end of `ssh_confirm_remote_forward`. -/
def countConfirm (c : FwdClient) : FwdClient :=
  { c with
    remoteForwardConfirmsReceived := c.remoteForwardConfirmsReceived + 1
    forked := c.forked || (o.forkAfterAuthentication &&
      c.remoteForwardConfirmsReceived + 1 == o.remoteForwards.length) }

/-- `ssh_confirm_remote_forward`; `none` is `fatal`. -/
def sshConfirmRemoteForward (i : ℕ) (r : RequestReply) (c : FwdClient) : Option FwdClient :=
  (o.remoteForwards[i]?).bind fun rfwd =>
    match r with
    | .success port =>
      if rfwd.listenPort = 0 then
        -- a reply without a port is a short packet
        port.map fun p =>
          countConfirm o { c with allocatedPorts := Function.update c.allocatedPorts i p }
      else some (countConfirm o c)
    | .failure => if o.exitOnForwardFailure then none else some (countConfirm o c)

/-- `gc->cb(type, seq, gc->ctx)`.  What the other two callbacks do is not modelled. -/
def runCallback (r : RequestReply) (c : FwdClient) : Callback → Option FwdClient
  | .confirmRemoteForward i => sshConfirmRemoteForward o i r c
  | .placeholder | .muxConfirmRemoteForward _ | .roamingReply => some c

/-- `client_global_request_reply`, with the callback that was run. -/
def clientGlobalRequestReply (r : RequestReply) (c : FwdClient) :
    Option (Option Callback × FwdClient) :=
  match RunLength.pop c.globalConfirms with
  | none => some (none, c)
  | some (cb, rest) =>
    (runCallback o r c cb).map fun c => (some cb, { c with globalConfirms := rest })

end Client

/-! ## The server -/

/-- A channel of type `SSH_CHANNEL_RPORT_LISTENER`, with the forward it was made for. -/
structure Listener where
  path : List UInt8
  listeningPort : UInt16
  origin : Forward
  deriving DecidableEq, Repr

structure FwdServer where
  listeners : List Listener := []
  noMoreSessions : Bool := false

/-- The options and the user of a server. -/
structure FwdServerOptions where
  allowTcpForwarding : Bool := true
  noPortForwardingFlag : Bool := false
  root : Bool := false

/-- What binding the addresses of a listener gives: on how many it could listen, and the port of
the first one. -/
structure Bound where
  sockets : ℕ
  port : ℕ
  deriving DecidableEq, Repr

/-- `IPPORT_RESERVED`. -/
def ipportReserved : UInt16 := 1024

/-- `channel_setup_remote_fwd_listener`, with `allocated_listen_port`; `none` is a failure. -/
def channelSetupRemoteFwdListener (bound : Bound) (address : List UInt8) (port : UInt16)
    (origin : Forward) (s : FwdServer) : Option (ℕ × FwdServer) :=
  if niMaxhost ≤ address.length then none
  else if bound.sockets = 0 then none
  else
    some (if port = 0 then bound.port else 0,
      { s with listeners := s.listeners ++ List.replicate bound.sockets ⟨address, port, origin⟩ })

/-- `channel_cancel_rport_listener`. -/
def channelCancelRportListener (address : List UInt8) (port : UInt16) (s : FwdServer) :
    Bool × FwdServer :=
  let found := fun l : Listener => l.path = address && l.listeningPort = port
  (s.listeners.any found, { s with listeners := s.listeners.filter fun l => !found l })

/-- The reply of `server_input_global_request` to a request that succeeded. -/
def successReply (allocated : ℕ) : RequestReply :=
  .success (if allocated > 0 then some allocated else none)

/-- `server_input_global_request`: the result of a request. -/
def serverInputGlobalRequest (o : FwdServerOptions) (bound : Bound) (m : SentRequest)
    (s : FwdServer) : RequestReply × FwdServer :=
  match m.request with
  | .tcpipForward address port origin =>
    if !o.allowTcpForwarding || o.noPortForwardingFlag || (!m.wantReply && port == 0) ||
        (port != 0 && decide (port < ipportReserved) && !o.root) then (.failure, s)
    else
      match channelSetupRemoteFwdListener bound address port origin s with
      | none => (.failure, s)
      | some (allocated, s') => (successReply allocated, s')
  | .cancelTcpipForward address port =>
    let r := channelCancelRportListener address port s
    (if r.1 then successReply 0 else .failure, r.2)
  | .noMoreSessions => (successReply 0, { s with noMoreSessions := true })
  | .keepalive | .roaming _ => (.failure, s)

/-! ## The two together -/

/-- Both ends and what is on its way between them.  The other fields are history: the forwards that
were requested, the ports that were cancelled, the requests that want a reply, the replies with the
callbacks they have run, and the connections with where they were connected to. -/
structure FwdState where
  client : FwdClient := {}
  server : FwdServer := {}
  toServer : List SentRequest := []
  toClient : List ToClient := []
  initialised : Bool := false
  requested : List Forward := []
  cancelled : List UInt16 := []
  asked : List SentRequest := []
  handled : List (Option Callback × RequestReply × SentRequest) := []
  connects : List (Forward × Option (List UInt8 × UInt16)) := []

inductive FwdEvent where
  | initForwarding
  | muxForward (f : Forward) (ctx : ℕ)
  | cmdlineForward (f : Forward)
  | rforwardCancel (host : Option (List UInt8)) (port : UInt16)
  | serverAliveCheck
  | requestRoaming (recvBufSize : ℕ)
  | requestNoMoreSessions
  | serve (bound : Bound)
  | accept (k : ℕ)
  | clientReads
  deriving DecidableEq, Repr

/-- `packet_send` of a global request. -/
def FwdState.send (m : SentRequest) (s : FwdState) : FwdState :=
  { s with
    toServer := s.toServer ++ [m]
    asked := if m.wantReply then s.asked ++ [m] else s.asked }

/-- A request with a callback. -/
def FwdState.ask (request : GlobalRequest) (cb : Callback) (s : FwdState) : Option FwdState :=
  (clientRegisterGlobalConfirm cb s.client).map fun c =>
    { s.send ⟨request, true, some cb⟩ with client := c }

/-- `channel_request_remote_forwarding`. -/
def FwdState.request (o : FwdOptions) (f : Forward) (s : FwdState) : FwdState :=
  { s with
    client := (channelRequestRemoteForwarding o f s.client).2
    requested := s.requested ++ [f] }

/-- A forward with a callback. -/
def FwdState.askForward (o : FwdOptions) (s : FwdState) (f : Forward) (cb : Callback) :
    Option FwdState :=
  (s.request o f).ask (channelRequestRemoteForwarding o f s.client).1 cb

/-- The loop of `ssh_init_forwarding` over the remote forwards. -/
def initRemoteForwards (o : FwdOptions) : ℕ → List Forward → FwdState → Option FwdState
  | _, [], s => some s
  | i, f :: fs, s =>
    (s.askForward o f (.confirmRemoteForward i)).bind (initRemoteForwards o (i + 1) fs)

/-- One event; `none` is `fatal`, or an event that cannot happen.  Every packet that the client
reads sets `keep_alive_timeouts` to 0. -/
def fwdStep (o : FwdOptions) (so : FwdServerOptions) (s : FwdState) : FwdEvent → Option FwdState
  | .initForwarding =>
    if s.initialised then none
    else
      (initRemoteForwards o 0 o.remoteForwards { s with initialised := true }).map fun s =>
        { s with client := forkBeforeLoop o s.client }
  | .muxForward f ctx => s.askForward o f (.muxConfirmRemoteForward ctx)
  | .cmdlineForward f =>
    -- `process_cmdline` registers no callback
    some ((s.request o f).send ⟨(channelRequestRemoteForwarding o f s.client).1, true, none⟩)
  | .rforwardCancel host port =>
    match channelRequestRforwardCancel host port s.client with
    | none => some s
    | some (request, c) =>
      some ({ s with client := c, cancelled := s.cancelled ++ [port] }.send
        ⟨request, false, none⟩)
  | .serverAliveCheck =>
    if s.client.keepAliveTimeouts + 1 > o.serverAliveCountMax then none
    else
      { s with client := { s.client with
        keepAliveTimeouts := s.client.keepAliveTimeouts + 1 } }.ask .keepalive .placeholder
  | .requestRoaming size => s.ask (.roaming size) .roamingReply
  | .requestNoMoreSessions => some (s.send ⟨.noMoreSessions, false, none⟩)
  | .serve bound =>
    match s.toServer with
    | [] => none
    | m :: ms =>
      let r := serverInputGlobalRequest so bound m s.server
      some { s with
        server := r.2
        toServer := ms
        toClient := if m.wantReply then s.toClient ++ [.reply r.1 m] else s.toClient }
  | .accept k =>
    (s.server.listeners[k]?).map fun l =>
      { s with toClient := s.toClient ++ [.opened l.path l.listeningPort l.origin] }
  | .clientReads =>
    match s.toClient with
    | [] => none
    | .reply r m :: ms =>
      (clientGlobalRequestReply o r { s.client with keepAliveTimeouts := 0 }).map fun x =>
        { s with client := x.2, toClient := ms, handled := s.handled ++ [(x.1, r, m)] }
    | .opened _ port origin :: ms =>
      some { s with
        client := { s.client with keepAliveTimeouts := 0 }
        toClient := ms
        connects := s.connects ++ [(origin, channelConnectByListenAddress port s.client)] }

/-- **What a step can do.** -/
inductive FwdMove (o : FwdOptions) (so : FwdServerOptions) (s : FwdState) :
    FwdEvent → FwdState → Prop where
  | init {s' : FwdState} (hnew : s.initialised = false)
      (hs : initRemoteForwards o 0 o.remoteForwards { s with initialised := true } = some s') :
      FwdMove o so s .initForwarding { s' with client := forkBeforeLoop o s'.client }
  | mux {f : Forward} {ctx : ℕ} {s' : FwdState}
      (hs : s.askForward o f (.muxConfirmRemoteForward ctx) = some s') :
      FwdMove o so s (.muxForward f ctx) s'
  | cmdline (f : Forward) :
      FwdMove o so s (.cmdlineForward f)
        ((s.request o f).send ⟨(channelRequestRemoteForwarding o f s.client).1, true, none⟩)
  | cancelUnknown {host : Option (List UInt8)} {port : UInt16}
      (hfind : s.client.permittedOpens.findIdx? (PermittedOpen.isFor port) = none) :
      FwdMove o so s (.rforwardCancel host port) s
  | cancel {host : Option (List UInt8)} {port : UInt16} {i : ℕ}
      (hfind : s.client.permittedOpens.findIdx? (PermittedOpen.isFor port) = some i) :
      FwdMove o so s (.rforwardCancel host port)
        ({ s with
          client := { s.client with
            permittedOpens := s.client.permittedOpens.set i ⟨none, 0, 0⟩ }
          cancelled := s.cancelled ++ [port] }.send
          ⟨.cancelTcpipForward (host.getD []) port, false, none⟩)
  | alive {s' : FwdState}
      (hs : { s with client := { s.client with
        keepAliveTimeouts := s.client.keepAliveTimeouts + 1 } }.ask .keepalive .placeholder =
          some s') :
      FwdMove o so s .serverAliveCheck s'
  | roaming {size : ℕ} {s' : FwdState} (hs : s.ask (.roaming size) .roamingReply = some s') :
      FwdMove o so s (.requestRoaming size) s'
  | sessions : FwdMove o so s .requestNoMoreSessions (s.send ⟨.noMoreSessions, false, none⟩)
  | serve {bound : Bound} {m : SentRequest} {ms : List SentRequest} (hto : s.toServer = m :: ms) :
      FwdMove o so s (.serve bound) { s with
        server := (serverInputGlobalRequest so bound m s.server).2
        toServer := ms
        toClient := if m.wantReply then
            s.toClient ++ [.reply (serverInputGlobalRequest so bound m s.server).1 m]
          else s.toClient }
  | accept {k : ℕ} {l : Listener} (hl : s.server.listeners[k]? = some l) :
      FwdMove o so s (.accept k)
        { s with toClient := s.toClient ++ [.opened l.path l.listeningPort l.origin] }
  | reply {r : RequestReply} {m : SentRequest} {ms : List ToClient}
      {x : Option Callback × FwdClient} (hto : s.toClient = .reply r m :: ms)
      (hx : clientGlobalRequestReply o r { s.client with keepAliveTimeouts := 0 } = some x) :
      FwdMove o so s .clientReads
        { s with client := x.2, toClient := ms, handled := s.handled ++ [(x.1, r, m)] }
  | opened {address : List UInt8} {port : UInt16} {origin : Forward} {ms : List ToClient}
      (hto : s.toClient = .opened address port origin :: ms) :
      FwdMove o so s .clientReads { s with
        client := { s.client with keepAliveTimeouts := 0 }
        toClient := ms
        connects := s.connects ++ [(origin, channelConnectByListenAddress port s.client)] }

theorem FwdMove.of_step {o : FwdOptions} {so : FwdServerOptions} {s s' : FwdState} {ev : FwdEvent}
    (hs : fwdStep o so s ev = some s') : FwdMove o so s ev s' := by
  cases ev with
  | initForwarding =>
    rw [fwdStep] at hs
    split_ifs at hs with hnew
    obtain ⟨s1, hs1, rfl⟩ := Option.map_eq_some_iff.mp hs
    exact .init (Bool.eq_false_of_not_eq_true hnew) hs1
  | muxForward f ctx => exact .mux hs
  | cmdlineForward f =>
    obtain rfl := Option.some.inj hs
    exact .cmdline f
  | rforwardCancel host port =>
    rw [fwdStep, channelRequestRforwardCancel] at hs
    cases hfind : s.client.permittedOpens.findIdx? (PermittedOpen.isFor port) with
    | none =>
      rw [hfind] at hs
      obtain rfl := Option.some.inj hs
      exact .cancelUnknown hfind
    | some i =>
      rw [hfind] at hs
      obtain rfl := Option.some.inj hs
      exact .cancel hfind
  | serverAliveCheck =>
    rw [fwdStep] at hs
    split_ifs at hs
    exact .alive hs
  | requestRoaming size => exact .roaming hs
  | requestNoMoreSessions =>
    obtain rfl := Option.some.inj hs
    exact .sessions
  | serve bound =>
    rw [fwdStep] at hs
    cases hto : s.toServer with
    | nil =>
      rw [hto] at hs
      cases hs
    | cons m ms =>
      rw [hto] at hs
      obtain rfl := Option.some.inj hs
      exact .serve hto
  | accept k =>
    obtain ⟨l, hl, rfl⟩ := Option.map_eq_some_iff.mp hs
    exact .accept hl
  | clientReads =>
    rw [fwdStep] at hs
    cases hto : s.toClient with
    | nil =>
      rw [hto] at hs
      cases hs
    | cons msg ms =>
      rw [hto] at hs
      cases msg with
      | reply r m =>
        obtain ⟨x, hx, rfl⟩ := Option.map_eq_some_iff.mp hs
        exact .reply hto hx
      | opened address port origin =>
        obtain rfl := Option.some.inj hs
        exact .opened hto

/-- The configured forward that a callback is for. -/
def Callback.index : Callback → Option ℕ
  | .confirmRemoteForward i => some i
  | _ => none

/-- What a callback does to the counts and the ports. -/
theorem runCallback_cases {o : FwdOptions} {r : RequestReply} {c c' : FwdClient} {cb : Callback}
    (h : runCallback o r c cb = some c') :
    (cb.index = none ∧ c' = c) ∨
      ∃ i f, cb = .confirmRemoteForward i ∧ o.remoteForwards[i]? = some f ∧
        (r = .failure → o.exitOnForwardFailure = false) ∧
        ((∃ p, r = .success (some p) ∧ f.listenPort = 0 ∧ c' = countConfirm o
            { c with allocatedPorts := Function.update c.allocatedPorts i p }) ∨
          ((∀ p, r = .success (some p) → f.listenPort ≠ 0) ∧ c' = countConfirm o c)) := by
  cases cb with
  | confirmRemoteForward i =>
    obtain ⟨f, hf, h⟩ := Option.bind_eq_some_iff.mp h
    refine Or.inr ⟨i, f, rfl, hf, ?_⟩
    cases r with
    | success port =>
      refine ⟨fun hr => RequestReply.noConfusion hr, ?_⟩
      dsimp only at h
      split_ifs at h with hzero
      · obtain ⟨p, rfl, rfl⟩ := Option.map_eq_some_iff.mp h
        exact Or.inl ⟨p, rfl, hzero, rfl⟩
      · exact Or.inr ⟨fun _ _ => hzero, (Option.some.inj h).symm⟩
    | failure =>
      dsimp only at h
      split_ifs at h with hexit
      exact ⟨fun _ => Bool.eq_false_of_not_eq_true hexit,
        Or.inr ⟨fun p hp => RequestReply.noConfusion hp, (Option.some.inj h).symm⟩⟩
  | placeholder => exact Or.inl ⟨rfl, (Option.some.inj h).symm⟩
  | muxConfirmRemoteForward ctx => exact Or.inl ⟨rfl, (Option.some.inj h).symm⟩
  | roamingReply => exact Or.inl ⟨rfl, (Option.some.inj h).symm⟩

/-- Callbacks leave the permitted targets alone. -/
theorem clientGlobalRequestReply_permittedOpens {o : FwdOptions} {r : RequestReply}
    {c : FwdClient} {x : Option Callback × FwdClient}
    (hx : clientGlobalRequestReply o r c = some x) : x.2.permittedOpens = c.permittedOpens := by
  unfold clientGlobalRequestReply at hx
  cases hpop : RunLength.pop c.globalConfirms with
  | none =>
    rw [hpop] at hx
    exact Option.some.inj hx ▸ rfl
  | some e =>
    rw [hpop] at hx
    obtain ⟨c', hc', rfl⟩ := Option.map_eq_some_iff.mp hx
    rcases runCallback_cases hc' with ⟨-, rfl⟩ | ⟨i, f, -, -, -, ⟨p, -, -, rfl⟩ | ⟨-, rfl⟩⟩
    · rfl
    · rfl
    · rfl

/-- A forward of port 8080, and one of a port that the server chooses; the client is to go to the
background if both succeed. -/
def twoForwards : FwdOptions where
  remoteForwards := [⟨none, 8080, ascii "a", 80⟩, ⟨none, 0, ascii "b", 22⟩]
  exitOnForwardFailure := true
  forkAfterAuthentication := true

end CSBuFLO
