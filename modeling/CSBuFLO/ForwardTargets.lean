/-
# Where forwarded connections go

The server names the port that it has accepted a connection on, and the client connects it to the
first entry of `permitted_opens` for this port.  With a port for each forward, a connection that
the server accepts for a forward is connected to the target of this forward, and refused only
after the client has cancelled the port (`forwards_to_target`).
-/
import CSBuFLO.Forwarding

namespace CSBuFLO

/-- What is on its way, listened for and permitted comes from forwards that were requested. -/
structure FwdTargetInv (s : FwdState) : Prop where
  requests : ∀ m ∈ s.toServer, ∀ address port origin,
    m.request = .tcpipForward address port origin →
      origin ∈ s.requested ∧ port = origin.listenPort
  listeners : ∀ l ∈ s.server.listeners,
    l.origin ∈ s.requested ∧ l.listeningPort = l.origin.listenPort
  opens : ∀ address port origin, .opened address port origin ∈ s.toClient →
    origin ∈ s.requested ∧ port = origin.listenPort
  permitted : ∀ e ∈ s.client.permittedOpens, ∀ host, e.hostToConnect = some host →
    ∃ f ∈ s.requested, f.listenPort = e.listenPort ∧ f.target = (host, e.portToConnect)
  kept : ∀ f ∈ s.requested,
    (∃ e ∈ s.client.permittedOpens, e.isFor f.listenPort = true) ∨ f.listenPort ∈ s.cancelled
  connects : ∀ x ∈ s.connects, x.1 ∈ s.requested ∧
    (∀ target, x.2 = some target →
      ∃ f ∈ s.requested, f.listenPort = x.1.listenPort ∧ f.target = target) ∧
    (x.2 = none → x.1.listenPort ∈ s.cancelled)

theorem fwdTargetInv_init : FwdTargetInv {} where
  requests := fun _ h => nomatch h
  listeners := fun _ h => nomatch h
  opens := fun _ _ _ h => nomatch h
  permitted := fun _ h => nomatch h
  kept := fun _ h => nomatch h
  connects := fun _ h => nomatch h

variable {s : FwdState}

/-- Nothing depends on the rest of the client. -/
theorem FwdTargetInv.client {c : FwdClient} (h : FwdTargetInv s)
    (hc : c.permittedOpens = s.client.permittedOpens) : FwdTargetInv { s with client := c } where
  requests := h.requests
  listeners := h.listeners
  opens := h.opens
  permitted := by
    dsimp only
    rw [hc]
    exact h.permitted
  kept := by
    dsimp only
    rw [hc]
    exact h.kept
  connects := h.connects

/-- A request on its way. -/
theorem FwdTargetInv.send {m : SentRequest} (h : FwdTargetInv s)
    (hm : ∀ address port origin, m.request = .tcpipForward address port origin →
      origin ∈ s.requested ∧ port = origin.listenPort) : FwdTargetInv (s.send m) where
  requests := by
    intro m' hm' address port origin hreq
    rcases List.mem_append.mp hm' with hold | hnew
    · exact h.requests m' hold address port origin hreq
    · rw [List.mem_singleton.mp hnew] at hreq
      exact hm address port origin hreq
  listeners := h.listeners
  opens := h.opens
  permitted := h.permitted
  kept := h.kept
  connects := h.connects

theorem FwdTargetInv.ask {s' : FwdState} {request : GlobalRequest} {cb : Callback}
    (h : FwdTargetInv s)
    (hm : ∀ address port origin, request = .tcpipForward address port origin →
      origin ∈ s.requested ∧ port = origin.listenPort) (hs : s.ask request cb = some s') :
    FwdTargetInv s' := by
  obtain ⟨c, hc, rfl⟩ := Option.map_eq_some_iff.mp hs
  obtain ⟨q, -, rfl⟩ := Option.map_eq_some_iff.mp hc
  exact (h.send (m := ⟨request, true, some cb⟩) hm).client rfl

/-- **A forward that is requested** gets an entry of its own. -/
theorem FwdTargetInv.request {o : FwdOptions} (h : FwdTargetInv s) (f : Forward) :
    FwdTargetInv (s.request o f) := by
  have hold : ∀ {g : Forward}, g ∈ s.requested → g ∈ s.requested ++ [f] := fun hg =>
    List.mem_append_left _ hg
  have hnew : f ∈ s.requested ++ [f] := List.mem_append_right _ (List.mem_singleton.mpr rfl)
  constructor
  case requests =>
    intro m hm address port origin hreq
    obtain ⟨horigin, hport⟩ := h.requests m hm address port origin hreq
    exact ⟨hold horigin, hport⟩
  case listeners => exact fun l hl => ⟨hold (h.listeners l hl).1, (h.listeners l hl).2⟩
  case opens =>
    intro address port origin hmem
    obtain ⟨horigin, hport⟩ := h.opens address port origin hmem
    exact ⟨hold horigin, hport⟩
  case permitted =>
    intro e he host hhost
    rcases List.mem_append.mp he with he | he
    · obtain ⟨g, hg, htarget⟩ := h.permitted e he host hhost
      exact ⟨g, hold hg, htarget⟩
    · rw [List.mem_singleton.mp he] at hhost ⊢
      obtain rfl := Option.some.inj hhost
      exact ⟨f, hnew, rfl, rfl⟩
  case kept =>
    intro g hg
    rcases List.mem_append.mp hg with hg | hg
    · rcases h.kept g hg with ⟨e, he, hfor⟩ | hcancel
      · exact Or.inl ⟨e, List.mem_append_left _ he, hfor⟩
      · exact Or.inr hcancel
    · rw [List.mem_singleton.mp hg]
      refine Or.inl ⟨_, List.mem_append_right _ (List.mem_singleton.mpr rfl), ?_⟩
      simp [PermittedOpen.isFor]
  case connects =>
    intro x hx
    obtain ⟨horigin, hsome, hnone⟩ := h.connects x hx
    refine ⟨hold horigin, fun target htarget => ?_, hnone⟩
    obtain ⟨g, hg, hport⟩ := hsome target htarget
    exact ⟨g, hold hg, hport⟩

theorem FwdTargetInv.askForward {o : FwdOptions} {s' : FwdState} {f : Forward} {cb : Callback}
    (h : FwdTargetInv s) (hs : s.askForward o f cb = some s') : FwdTargetInv s' := by
  refine (h.request f).ask (fun address port origin hreq => ?_) hs
  obtain ⟨-, rfl, rfl⟩ := GlobalRequest.tcpipForward.inj hreq
  exact ⟨List.mem_append_right _ (List.mem_singleton.mpr rfl), rfl⟩

theorem FwdTargetInv.initRemoteForwards {o : FwdOptions} {fs : List Forward} {i : ℕ} {s' : FwdState}
    (h : FwdTargetInv s) (hs : initRemoteForwards o i fs s = some s') : FwdTargetInv s' := by
  induction fs generalizing i s with
  | nil => exact Option.some.inj hs ▸ h
  | cons f fs ih =>
    obtain ⟨s1, h1, hs⟩ := Option.bind_eq_some_iff.mp hs
    exact ih (h.askForward h1) hs

/-- **Cancelling** clears an entry for the port. -/
theorem FwdTargetInv.cancel {port : UInt16} {i : ℕ} (h : FwdTargetInv s)
    (hfind : s.client.permittedOpens.findIdx? (PermittedOpen.isFor port) = some i) :
    FwdTargetInv { s with
      client := { s.client with permittedOpens := s.client.permittedOpens.set i ⟨none, 0, 0⟩ }
      cancelled := s.cancelled ++ [port] } := by
  obtain ⟨hi, hfor, -⟩ := List.findIdx?_eq_some_iff_getElem.mp hfind
  constructor
  case requests => exact h.requests
  case listeners => exact h.listeners
  case opens => exact h.opens
  case permitted =>
    intro e he host hhost
    rcases List.mem_or_eq_of_mem_set he with he | rfl
    · exact h.permitted e he host hhost
    · cases hhost
  case kept =>
    intro f hf
    by_cases hport : f.listenPort = port
    · exact Or.inr (List.mem_append_right _ (List.mem_singleton.mpr hport))
    · rcases h.kept f hf with ⟨e, he, hef⟩ | hcancel
      · -- the entry that is cleared is for another port
        obtain ⟨j, hj, rfl⟩ := List.getElem_of_mem he
        have hne : i ≠ j := by
          rintro rfl
          unfold PermittedOpen.isFor at hfor hef
          rw [Bool.and_eq_true, beq_iff_eq] at hfor hef
          exact hport (hef.2.symm.trans hfor.2)
        refine Or.inl ⟨s.client.permittedOpens[j], ?_, hef⟩
        have hget : (s.client.permittedOpens.set i ⟨none, 0, 0⟩)[j]? =
            some s.client.permittedOpens[j] := by
          rw [List.getElem?_set_ne hne, List.getElem?_eq_getElem hj]
        exact List.mem_of_getElem? hget
      · exact Or.inr (List.mem_append_left _ hcancel)
  case connects =>
    intro x hx
    obtain ⟨horigin, hsome, hnone⟩ := h.connects x hx
    exact ⟨horigin, hsome, fun hx => List.mem_append_left _ (hnone hx)⟩

/-- The listeners after a request are those before it, and those of its forward. -/
theorem mem_listeners_of_serve {so : FwdServerOptions} {bound : Bound} {m : SentRequest}
    {s : FwdServer} {l : Listener}
    (hl : l ∈ (serverInputGlobalRequest so bound m s).2.listeners) :
    l ∈ s.listeners ∨ m.request = .tcpipForward l.path l.listeningPort l.origin := by
  unfold serverInputGlobalRequest at hl
  cases hreq : m.request with
  | tcpipForward address port origin =>
    rw [hreq] at hl
    dsimp only at hl
    split at hl
    · exact Or.inl hl
    · unfold channelSetupRemoteFwdListener at hl
      by_cases hlong : niMaxhost ≤ address.length
      · rw [if_pos hlong] at hl
        exact Or.inl hl
      · by_cases hnone : bound.sockets = 0
        · rw [if_neg hlong, if_pos hnone] at hl
          exact Or.inl hl
        · rw [if_neg hlong, if_neg hnone] at hl
          rcases List.mem_append.mp hl with hl | hl
          · exact Or.inl hl
          · rw [List.eq_of_mem_replicate hl]
            exact Or.inr rfl
  | cancelTcpipForward address port =>
    rw [hreq] at hl
    exact Or.inl (List.mem_of_mem_filter hl)
  | keepalive =>
    rw [hreq] at hl
    exact Or.inl hl
  | noMoreSessions =>
    rw [hreq] at hl
    exact Or.inl hl
  | roaming size =>
    rw [hreq] at hl
    exact Or.inl hl

/-- **Serving a request** adds listeners of its forward only. -/
theorem FwdTargetInv.serve {so : FwdServerOptions} {bound : Bound} {m : SentRequest}
    {ms : List SentRequest} {r : RequestReply} (h : FwdTargetInv s) (hto : s.toServer = m :: ms) :
    FwdTargetInv { s with
      server := (serverInputGlobalRequest so bound m s.server).2
      toServer := ms
      toClient := if m.wantReply then s.toClient ++ [.reply r m] else s.toClient } where
  requests := fun m' hm' => h.requests m' (hto ▸ List.mem_cons_of_mem _ hm')
  listeners := by
    intro l hl
    rcases mem_listeners_of_serve hl with hold | hnew
    · exact h.listeners l hold
    · exact h.requests m (hto ▸ List.mem_cons_self) _ _ _ hnew
  opens := by
    intro address port origin hmem
    dsimp only at hmem
    split at hmem
    · rcases List.mem_append.mp hmem with hmem | hmem
      · exact h.opens address port origin hmem
      · cases List.mem_singleton.mp hmem
    · exact h.opens address port origin hmem
  permitted := h.permitted
  kept := h.kept
  connects := h.connects

/-- **A connection** is connected to a permitted target of its port. -/
theorem FwdTargetInv.opened {address : List UInt8} {port : UInt16} {origin : Forward}
    {ms : List ToClient} (h : FwdTargetInv s)
    (hto : s.toClient = .opened address port origin :: ms) :
    FwdTargetInv { s with
      toClient := ms
      connects := s.connects ++ [(origin, channelConnectByListenAddress port s.client)] } where
  requests := h.requests
  listeners := h.listeners
  opens := fun address' port' origin' hmem =>
    h.opens address' port' origin' (hto ▸ List.mem_cons_of_mem _ hmem)
  permitted := h.permitted
  kept := h.kept
  connects := by
    intro x hx
    rcases List.mem_append.mp hx with hx | hx
    · exact h.connects x hx
    · rw [List.mem_singleton.mp hx]
      obtain ⟨horigin, rfl⟩ := h.opens address port origin (hto ▸ List.mem_cons_self)
      refine ⟨horigin, fun target htarget => ?_, fun hnone => ?_⟩
      · obtain ⟨e, he, hmap⟩ := Option.bind_eq_some_iff.mp htarget
        obtain ⟨host, hhost, rfl⟩ := Option.map_eq_some_iff.mp hmap
        have hfor := List.find?_some he
        unfold PermittedOpen.isFor at hfor
        rw [Bool.and_eq_true, beq_iff_eq] at hfor
        obtain ⟨f, hf, hport, hftarget⟩ :=
          h.permitted e (List.mem_of_find?_eq_some he) host hhost
        exact ⟨f, hf, hport.trans hfor.2, hftarget⟩
      · refine (h.kept origin horigin).resolve_left fun ⟨e, he, hfor⟩ => ?_
        unfold channelConnectByListenAddress at hnone
        obtain ⟨e', he'⟩ := Option.isSome_iff_exists.mp (List.find?_isSome.mpr ⟨e, he, hfor⟩)
        have hfor' := List.find?_some he'
        unfold PermittedOpen.isFor at hfor'
        rw [Bool.and_eq_true] at hfor'
        obtain ⟨host, hhost⟩ := Option.isSome_iff_exists.mp hfor'.1
        dsimp only at hnone
        rw [he', Option.bind_some, hhost] at hnone
        cases hnone

theorem FwdTargetInv.step {o : FwdOptions} {so : FwdServerOptions} {s' : FwdState} {ev : FwdEvent}
    (h : FwdTargetInv s) (hs : FwdMove o so s ev s') : FwdTargetInv s' := by
  cases hs with
  | init _ hs =>
    have hinit : FwdTargetInv { s with initialised := true } :=
      ⟨h.requests, h.listeners, h.opens, h.permitted, h.kept, h.connects⟩
    exact (hinit.initRemoteForwards hs).client rfl
  | mux hs => exact h.askForward hs
  | cmdline f =>
    refine (h.request f).send fun address port origin hreq => ?_
    obtain ⟨-, rfl, rfl⟩ := GlobalRequest.tcpipForward.inj hreq
    exact ⟨List.mem_append_right _ (List.mem_singleton.mpr rfl), rfl⟩
  | cancelUnknown _ => exact h
  | cancel hfind => exact (h.cancel hfind).send fun _ _ _ hreq => GlobalRequest.noConfusion hreq
  | alive hs =>
    have halive : FwdTargetInv { s with client := { s.client with
        keepAliveTimeouts := s.client.keepAliveTimeouts + 1 } } := h.client rfl
    exact halive.ask (fun _ _ _ hreq => GlobalRequest.noConfusion hreq) hs
  | roaming hs => exact h.ask (fun _ _ _ hreq => GlobalRequest.noConfusion hreq) hs
  | sessions => exact h.send fun _ _ _ hreq => GlobalRequest.noConfusion hreq
  | serve hto => exact h.serve hto
  | @accept k l hl =>
    refine ⟨h.requests, h.listeners, fun address port origin hmem => ?_, h.permitted, h.kept,
      h.connects⟩
    rcases List.mem_append.mp hmem with hmem | hmem
    · exact h.opens address port origin hmem
    · obtain ⟨rfl, rfl, rfl⟩ := ToClient.opened.inj (List.mem_singleton.mp hmem)
      exact h.listeners l (List.mem_of_getElem? hl)
  | @reply r m ms x hto hx =>
    have hread : FwdTargetInv { s with toClient := ms, handled := s.handled ++ [(x.1, r, m)] } :=
      ⟨h.requests, h.listeners, fun address port origin hmem =>
        h.opens address port origin (hto ▸ List.mem_cons_of_mem _ hmem),
        h.permitted, h.kept, h.connects⟩
    have hpermitted := clientGlobalRequestReply_permittedOpens hx
    exact hread.client hpermitted
  | opened hto => exact (h.opened hto).client rfl

/-- **Every forward has its own connections.**  In every run, with any interleaving of requests,
replies, cancellations and connections: a connection is connected to the target of a forward that
was requested for its port, and it finds no entry of `permitted_opens` only if the client has
cancelled the port.  If all forwards have ports of their own, the target is that of the forward
the server has accepted the connection for. -/
theorem forwards_to_target {o : FwdOptions} {so : FwdServerOptions} {es : List FwdEvent}
    {s : FwdState} (hrun : Transition.run (fwdStep o so) {} es = some s) :
    (∀ f target, (f, some target) ∈ s.connects →
      ∃ g ∈ s.requested, g.listenPort = f.listenPort ∧ g.target = target) ∧
      (∀ f, (f, none) ∈ s.connects → f.listenPort ∈ s.cancelled) ∧
      ((s.requested.map Forward.listenPort).Nodup →
        ∀ f target, (f, some target) ∈ s.connects → target = f.target) := by
  have hinv : FwdTargetInv s :=
    Transition.inv_run (fun _ _ _ h hs => h.step (.of_step hs)) hrun fwdTargetInv_init
  refine ⟨fun f target hmem => (hinv.connects _ hmem).2.1 target rfl,
    fun f hmem => (hinv.connects _ hmem).2.2 rfl, fun hnodup f target hmem => ?_⟩
  obtain ⟨hf, hsome, -⟩ := hinv.connects _ hmem
  obtain ⟨g, hg, hport, htarget⟩ := hsome target rfl
  rw [← htarget, List.inj_on_of_nodup_map hnodup hg hf hport]

/-- Two forwards, a connection for each, and one more that is on its way when its port is
cancelled. -/
def cancelledForward : List FwdEvent :=
  [.initForwarding, .serve ⟨1, 8080⟩, .serve ⟨1, 4022⟩, .accept 1, .accept 0, .accept 0,
    .clientReads, .clientReads, .clientReads, .clientReads, .rforwardCancel none 8080,
    .clientReads]

theorem forwards_to_target_cancelledForward :
    ∃ s, Transition.run (fwdStep twoForwards {}) {} cancelledForward = some s ∧
      s.connects.map (fun x => x.1.listenPort) = [0, 8080, 8080] ∧
      (∀ f target, (f, some target) ∈ s.connects → target = f.target) ∧
      ∀ f, (f, none) ∈ s.connects → f.listenPort ∈ s.cancelled := by
  obtain ⟨s, hs, hconnects, hdistinct⟩ : ∃ s,
      Transition.run (fwdStep twoForwards {}) {} cancelledForward = some s ∧
      s.connects.map (fun x => x.1.listenPort) = [0, 8080, 8080] ∧
      (s.requested.map Forward.listenPort).Nodup := by
    decide +kernel
  obtain ⟨-, hnone, htarget⟩ := forwards_to_target hs
  exact ⟨s, hs, hconnects, htarget hdistinct, hnone⟩

end CSBuFLO
