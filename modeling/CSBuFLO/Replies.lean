/-
# Replies to global requests

Every reply runs the callback of the request it answers (`replies_matched`): the queue of the
client holds the callbacks of the requests that wait, in the order in which the server answers
them, and coalescing equal callbacks does not change which one is next.

A forward that is typed at the escape prompt sends a request without a callback, and the queue is
off by one from then on (`cmdline_reply_mismatch`).
-/
import CSBuFLO.Forwarding

namespace CSBuFLO

/-! ## The queue of callbacks -/

/-- The requests that wait for their reply: those that the server has answered come first. -/
def FwdState.waiting (s : FwdState) : List SentRequest :=
  s.toClient.filterMap ToClient.answers ++ s.toServer.filter SentRequest.wantReply

/-- The configured forward that a request was sent for. -/
def SentRequest.index (m : SentRequest) : Option ℕ := m.callback.bind Callback.index

/-- The queue holds the callbacks of the requests that wait, in order, and those that were handled
have had their own. -/
structure ReplyInv (s : FwdState) : Prop where
  positive : RunLength.Positive s.client.globalConfirms
  queue : (RunLength.expand s.client.globalConfirms).map some =
    s.waiting.map SentRequest.callback
  order : s.handled.map (fun h => h.2.2) ++ s.waiting = s.asked
  matched : ∀ h ∈ s.handled, h.1 = h.2.2.callback

theorem replyInv_init : ReplyInv {} where
  positive := fun _ h => nomatch h
  queue := rfl
  order := rfl
  matched := fun _ h => nomatch h

variable {s s' : FwdState} {o : FwdOptions}

/-- What an event that neither sends nor reads a reply may change. -/
theorem ReplyInv.of_eq (h : ReplyInv s)
    (hconfirms : s'.client.globalConfirms = s.client.globalConfirms)
    (hwaiting : s'.waiting = s.waiting) (hasked : s'.asked = s.asked)
    (hhandled : s'.handled = s.handled) : ReplyInv s' := by
  constructor
  · rw [hconfirms]
    exact h.positive
  · rw [hconfirms, hwaiting]
    exact h.queue
  · rw [hhandled, hwaiting, hasked]
    exact h.order
  · rw [hhandled]
    exact h.matched

theorem waiting_send (s : FwdState) (m : SentRequest) :
    (s.send m).waiting = s.waiting ++ if m.wantReply then [m] else [] := by
  unfold FwdState.waiting FwdState.send
  rw [List.filter_append, ← List.append_assoc]
  cases hwant : m.wantReply with
  | true => simp [hwant]
  | false => simp [hwant]

/-- **Asking** puts the request and its callback at the ends of the two queues. -/
theorem ReplyInv.ask {request : GlobalRequest} {cb : Callback} (h : ReplyInv s)
    (hs : s.ask request cb = some s') : ReplyInv s' := by
  obtain ⟨c, hc, rfl⟩ := Option.map_eq_some_iff.mp hs
  obtain ⟨q, hq, rfl⟩ := Option.map_eq_some_iff.mp hc
  have hwaiting : (s.send ⟨request, true, some cb⟩).waiting =
      s.waiting ++ [⟨request, true, some cb⟩] := waiting_send s _
  constructor
  case positive => exact h.positive.push hq
  case queue =>
    change (RunLength.expand q).map some =
      (s.send ⟨request, true, some cb⟩).waiting.map SentRequest.callback
    rw [RunLength.expand_push hq, hwaiting, List.map_append, List.map_append, h.queue]
    rfl
  case order =>
    change s.handled.map _ ++ (s.send ⟨request, true, some cb⟩).waiting = s.asked ++ _
    rw [hwaiting, ← List.append_assoc, h.order]
  case matched => exact h.matched

theorem ReplyInv.askForward {f : Forward} {cb : Callback} (h : ReplyInv s)
    (hs : s.askForward o f cb = some s') : ReplyInv s' := by
  have hrequest : ReplyInv (s.request o f) := h.of_eq rfl rfl rfl rfl
  exact hrequest.ask hs

theorem ReplyInv.initRemoteForwards {fs : List Forward} {i : ℕ} (h : ReplyInv s)
    (hs : initRemoteForwards o i fs s = some s') : ReplyInv s' := by
  induction fs generalizing i s with
  | nil => exact Option.some.inj hs ▸ h
  | cons f fs ih =>
    obtain ⟨s1, h1, hs⟩ := Option.bind_eq_some_iff.mp hs
    exact ih (h.askForward h1) hs

/-- **Reading a reply** runs the first callback, which is that of the request it answers. -/
theorem ReplyInv.reply {r : RequestReply} {m : SentRequest} {ms : List ToClient}
    {x : Option Callback × FwdClient} (h : ReplyInv s) (hto : s.toClient = .reply r m :: ms)
    (hx : clientGlobalRequestReply o r { s.client with keepAliveTimeouts := 0 } = some x) :
    ReplyInv { s with
      client := x.2, toClient := ms, handled := s.handled ++ [(x.1, r, m)] } ∧
      x.1 = m.callback := by
  have hwaiting : s.waiting = m :: (ms.filterMap ToClient.answers ++
      s.toServer.filter SentRequest.wantReply) := by
    unfold FwdState.waiting
    rw [hto]
    rfl
  have hqueue := h.queue
  have horder := h.order
  rw [hwaiting] at hqueue horder
  unfold clientGlobalRequestReply at hx
  dsimp only at hx
  cases hpop : RunLength.pop s.client.globalConfirms with
  | none =>
    -- the queue is not empty: the request waits
    rw [RunLength.expand_of_pop_none hpop] at hqueue
    cases hqueue
  | some e =>
    obtain ⟨cb, rest⟩ := e
    rw [hpop] at hx
    obtain ⟨c, hc, rfl⟩ := Option.map_eq_some_iff.mp hx
    obtain ⟨hexpand, hpositive⟩ := RunLength.expand_pop h.positive hpop
    rw [hexpand, List.map_cons, List.map_cons] at hqueue
    obtain ⟨hcb, hrest⟩ := List.cons.inj hqueue
    refine ⟨⟨hpositive, hrest, ?_, ?_⟩, hcb⟩
    · dsimp only
      rw [List.map_append, List.append_assoc]
      exact horder
    · intro y hy
      rcases List.mem_append.mp hy with hy | hy
      · exact h.matched y hy
      · rw [List.mem_singleton.mp hy]
        exact hcb

/-- Every request with a reply to come has registered its callback. -/
def FwdEvent.registers : FwdEvent → Bool
  | .cmdlineForward _ => false
  | _ => true

theorem ReplyInv.step {so : FwdServerOptions} {ev : FwdEvent} (h : ReplyInv s)
    (hreg : ev.registers = true) (hs : FwdMove o so s ev s') : ReplyInv s' := by
  cases hs with
  | init _ hs =>
    have hinit : ReplyInv { s with initialised := true } := h.of_eq rfl rfl rfl rfl
    exact (hinit.initRemoteForwards hs).of_eq rfl rfl rfl rfl
  | mux hs => exact h.askForward hs
  | cmdline f => cases hreg
  | cancelUnknown _ => exact h
  | cancel _ => exact h.of_eq rfl ((waiting_send _ _).trans (List.append_nil _)) rfl rfl
  | alive hs =>
    have halive : ReplyInv { s with client := { s.client with
        keepAliveTimeouts := s.client.keepAliveTimeouts + 1 } } := h.of_eq rfl rfl rfl rfl
    exact halive.ask hs
  | roaming hs => exact h.ask hs
  | sessions => exact h.of_eq rfl ((waiting_send _ _).trans (List.append_nil _)) rfl rfl
  | @serve bound m ms hto =>
    refine h.of_eq rfl ?_ rfl rfl
    unfold FwdState.waiting
    rw [hto]
    cases hwant : m.wantReply with
    | true => simp [hwant, ToClient.answers]
    | false => simp [hwant]
  | accept _ =>
    refine h.of_eq rfl ?_ rfl rfl
    unfold FwdState.waiting
    simp [ToClient.answers]
  | reply hto hx => exact (h.reply hto hx).1
  | opened hto =>
    refine h.of_eq rfl ?_ rfl rfl
    unfold FwdState.waiting
    rw [hto]
    rfl

/-! ## The configured forwards -/

/-- The configured forwards whose callbacks have been run, in order. -/
def FwdState.confirmed (s : FwdState) : List ℕ :=
  s.handled.filterMap fun h => h.1.bind Callback.index

/-- The replies to the configured forwards are counted and the allocated ports are recorded.  With
`ExitOnForwardFailure` no forward has failed, and the client goes to the background when all
replies are there. -/
structure ForkInv (o : FwdOptions) (s : FwdState) : Prop where
  received : s.client.remoteForwardConfirmsReceived = s.confirmed.length
  configured : s.asked.filterMap SentRequest.index =
    if s.initialised then List.range o.remoteForwards.length else []
  forked : s.client.forked = true → o.exitOnForwardFailure = true →
    o.remoteForwards.length ≤ s.client.remoteForwardConfirmsReceived
  succeeded : o.exitOnForwardFailure = true → ∀ i r m,
    (some (.confirmRemoteForward i), r, m) ∈ s.handled → r ≠ .failure
  allocated : ∀ i p m, (some (.confirmRemoteForward i), .success (some p), m) ∈ s.handled →
    (∃ f, o.remoteForwards[i]? = some f ∧ f.listenPort = 0) → s.client.allocatedPorts i = p

theorem forkInv_init (o : FwdOptions) : ForkInv o {} where
  received := rfl
  configured := rfl
  forked := fun h => nomatch h
  succeeded := fun _ _ _ _ h => nomatch h
  allocated := fun _ _ _ h => nomatch h

/-- What an event other than a reply may change: requests for other callbacks are added. -/
theorem ForkInv.of_eq (h : ForkInv o s)
    (hreceived : s'.client.remoteForwardConfirmsReceived =
      s.client.remoteForwardConfirmsReceived) (hforked : s'.client.forked = s.client.forked)
    (hports : s'.client.allocatedPorts = s.client.allocatedPorts)
    (hhandled : s'.handled = s.handled) (hinit : s'.initialised = s.initialised)
    (hasked : s'.asked.filterMap SentRequest.index = s.asked.filterMap SentRequest.index) :
    ForkInv o s' := by
  constructor
  · unfold FwdState.confirmed
    rw [hreceived, hhandled]
    exact h.received
  · rw [hasked, hinit]
    exact h.configured
  · rw [hforked, hreceived]
    exact h.forked
  · rw [hhandled]
    exact h.succeeded
  · rw [hhandled, hports]
    exact h.allocated

/-- Sending a request for another callback. -/
theorem filterMap_asked_send {m : SentRequest} (hm : m.index = none) :
    (s.send m).asked.filterMap SentRequest.index = s.asked.filterMap SentRequest.index := by
  unfold FwdState.send
  dsimp only
  split
  · rw [List.filterMap_append, List.filterMap_cons_none hm, List.filterMap_nil, List.append_nil]
  · rfl

theorem ForkInv.ask {request : GlobalRequest} {cb : Callback} (h : ForkInv o s)
    (hcb : cb.index = none) (hs : s.ask request cb = some s') : ForkInv o s' := by
  obtain ⟨c, hc, rfl⟩ := Option.map_eq_some_iff.mp hs
  obtain ⟨q, -, rfl⟩ := Option.map_eq_some_iff.mp hc
  exact h.of_eq rfl rfl rfl rfl rfl
    (filterMap_asked_send (m := ⟨request, true, some cb⟩) hcb)

/-- The loop asks for the forwards from `i` on. -/
theorem initRemoteForwards_asked {fs : List Forward} {i : ℕ}
    (hs : initRemoteForwards o i fs s = some s') :
    s'.asked.filterMap SentRequest.index =
        s.asked.filterMap SentRequest.index ++ List.range' i fs.length ∧
      s'.handled = s.handled ∧ s'.initialised = s.initialised ∧
      s'.client.remoteForwardConfirmsReceived = s.client.remoteForwardConfirmsReceived ∧
      s'.client.forked = s.client.forked ∧
      s'.client.allocatedPorts = s.client.allocatedPorts := by
  induction fs generalizing i s with
  | nil =>
    obtain rfl := Option.some.inj hs
    exact ⟨(List.append_nil _).symm, rfl, rfl, rfl, rfl, rfl⟩
  | cons f fs ih =>
    obtain ⟨s1, h1, hs⟩ := Option.bind_eq_some_iff.mp hs
    obtain ⟨c, hc, rfl⟩ := Option.map_eq_some_iff.mp h1
    obtain ⟨q, -, rfl⟩ := Option.map_eq_some_iff.mp hc
    obtain ⟨hasked, hrest⟩ := ih hs
    refine ⟨?_, hrest⟩
    rw [hasked]
    simp [FwdState.send, FwdState.request, SentRequest.index, Callback.index,
      List.range'_succ]

/-- The forwards that were confirmed are the first ones. -/
theorem confirmed_prefix {n : ℕ} (hreply : ReplyInv s)
    (hconfigured : s.asked.filterMap SentRequest.index =
      if s.initialised then List.range n else []) : s.confirmed <+: List.range n := by
  have hindex : s.confirmed = (s.handled.map fun h => h.2.2).filterMap SentRequest.index := by
    unfold FwdState.confirmed
    rw [List.filterMap_map]
    refine List.filterMap_congr fun h hh => ?_
    rw [hreply.matched h hh]
    rfl
  have hasked : s.confirmed <+: s.asked.filterMap SentRequest.index := by
    rw [hindex, ← hreply.order, List.filterMap_append]
    exact List.prefix_append _ _
  rw [hconfigured] at hasked
  split at hasked
  · exact hasked
  · exact hasked.trans List.nil_prefix

/-- One more reply. -/
theorem confirmed_handled {cb : Option Callback} {r : RequestReply} {m : SentRequest}
    (hs : s'.handled = s.handled ++ [(cb, r, m)]) :
    s'.confirmed = s.confirmed ++ (cb.bind Callback.index).toList := by
  unfold FwdState.confirmed
  rw [hs, List.filterMap_append]
  cases hindex : cb.bind Callback.index with
  | none => simp [hindex]
  | some i => simp [hindex]

section Reply

variable {o : FwdOptions} {s s' : FwdState} {r : RequestReply} {m : SentRequest}

/-- A reply to another request. -/
theorem ForkInv.reply_other {cb : Option Callback} (h : ForkInv o s)
    (hcb : cb.bind Callback.index = none)
    (hreceived : s'.client.remoteForwardConfirmsReceived =
      s.client.remoteForwardConfirmsReceived)
    (hforked : s'.client.forked = s.client.forked)
    (hports : s'.client.allocatedPorts = s.client.allocatedPorts)
    (hhandled : s'.handled = s.handled ++ [(cb, r, m)])
    (hinit : s'.initialised = s.initialised) (hasked : s'.asked = s.asked) : ForkInv o s' := by
  constructor
  · rw [confirmed_handled hhandled, hcb, hreceived, h.received, Option.toList_none,
      List.append_nil]
  · rw [hasked, hinit]
    exact h.configured
  · rw [hforked, hreceived]
    exact h.forked
  · intro hexit i r' m' hmem
    rw [hhandled] at hmem
    rcases List.mem_append.mp hmem with hmem | hmem
    · exact h.succeeded hexit i r' m' hmem
    · rw [← (Prod.mk.inj (List.mem_singleton.mp hmem)).1] at hcb
      cases hcb
  · intro i p m' hmem hzero
    rw [hhandled] at hmem
    rw [hports]
    rcases List.mem_append.mp hmem with hmem | hmem
    · exact h.allocated i p m' hmem hzero
    · rw [← (Prod.mk.inj (List.mem_singleton.mp hmem)).1] at hcb
      cases hcb

/-- A reply to the next configured forward, which has not been confirmed before. -/
theorem ForkInv.reply_configured {i : ℕ} {f : Forward} (h : ForkInv o s)
    (hf : o.remoteForwards[i]? = some f) (hfresh : i ∉ s.confirmed)
    (hexit : r = .failure → o.exitOnForwardFailure = false)
    (hcount : s'.client.remoteForwardConfirmsReceived =
      s.client.remoteForwardConfirmsReceived + 1)
    (hforked : s'.client.forked = (s.client.forked || (o.forkAfterAuthentication &&
      s.client.remoteForwardConfirmsReceived + 1 == o.remoteForwards.length)))
    (hports : ∀ j ≠ i, s'.client.allocatedPorts j = s.client.allocatedPorts j)
    (hport : ∀ p, r = .success (some p) → f.listenPort = 0 → s'.client.allocatedPorts i = p)
    (hhandled : s'.handled = s.handled ++ [(some (.confirmRemoteForward i), r, m)])
    (hinit : s'.initialised = s.initialised) (hasked : s'.asked = s.asked) : ForkInv o s' := by
  constructor
  · rw [confirmed_handled hhandled, hcount, h.received, List.length_append]
    rfl
  · rw [hasked, hinit]
    exact h.configured
  · rw [hforked, hcount]
    intro hnow hon
    rcases (Bool.or_eq_true _ _).mp hnow with hold | hnow
    · exact (h.forked hold hon).trans (Nat.le_succ _)
    · exact (beq_iff_eq.mp ((Bool.and_eq_true _ _).mp hnow).2).ge
  · intro hon j r' m' hmem
    rw [hhandled] at hmem
    rcases List.mem_append.mp hmem with hold | hnew
    · exact h.succeeded hon j r' m' hold
    · obtain ⟨-, hrm⟩ := Prod.mk.inj (List.mem_singleton.mp hnew)
      obtain ⟨rfl, -⟩ := Prod.mk.inj hrm
      intro hfailure
      exact Bool.false_ne_true ((hexit hfailure).symm.trans hon)
  · intro j q m' hmem hzero
    rw [hhandled] at hmem
    rcases List.mem_append.mp hmem with hold | hnew
    · have hne : j ≠ i := by
        rintro rfl
        exact hfresh (List.mem_filterMap.mpr ⟨_, hold, rfl⟩)
      rw [hports j hne]
      exact h.allocated j q m' hold hzero
    · obtain ⟨hcb, hrm⟩ := Prod.mk.inj (List.mem_singleton.mp hnew)
      obtain rfl := Callback.confirmRemoteForward.inj (Option.some.inj hcb)
      obtain ⟨hr, -⟩ := Prod.mk.inj hrm
      obtain ⟨g, hg, hzero⟩ := hzero
      obtain rfl := Option.some.inj (hf.symm.trans hg)
      exact hport q hr.symm hzero

/-- **A reply** to a configured forward is counted, and its port recorded. -/
theorem ForkInv.reply {ms : List ToClient} {x : Option Callback × FwdClient} (h : ForkInv o s)
    (hreply : ReplyInv s) (hto : s.toClient = .reply r m :: ms)
    (hx : clientGlobalRequestReply o r { s.client with keepAliveTimeouts := 0 } = some x) :
    ForkInv o { s with
      client := x.2, toClient := ms, handled := s.handled ++ [(x.1, r, m)] } := by
  have hnext := confirmed_prefix (hreply.reply hto hx).1 h.configured
  rw [confirmed_handled (s := s) rfl] at hnext
  unfold clientGlobalRequestReply at hx
  dsimp only at hx
  cases hpop : RunLength.pop s.client.globalConfirms with
  | none =>
    rw [hpop] at hx
    obtain rfl := Option.some.inj hx
    exact h.reply_other rfl rfl rfl rfl rfl rfl rfl
  | some e =>
    obtain ⟨cb, rest⟩ := e
    rw [hpop] at hx
    obtain ⟨c, hc, rfl⟩ := Option.map_eq_some_iff.mp hx
    rcases runCallback_cases hc with ⟨hcb, rfl⟩ | ⟨i, f, rfl, hf, hexit, hcases⟩
    · have hother : (some cb).bind Callback.index = none := hcb
      exact h.reply_other hother rfl rfl rfl rfl rfl rfl
    · have hnodup : (s.confirmed ++ [i]).Nodup := hnext.sublist.nodup List.nodup_range
      have hfresh : i ∉ s.confirmed := fun hold =>
        (List.nodup_append.mp hnodup).2.2 i hold i (List.mem_singleton.mpr rfl) rfl
      rcases hcases with ⟨p, rfl, -, rfl⟩ | ⟨hno, rfl⟩
      · refine h.reply_configured hf hfresh hexit rfl rfl (fun j hne => ?_) (fun q hq _ => ?_)
          rfl rfl rfl
        · exact Function.update_of_ne hne _ _
        · rw [← Option.some.inj (RequestReply.success.inj hq)]
          exact Function.update_self i _ _
      · exact h.reply_configured hf hfresh hexit rfl rfl (fun _ _ => rfl)
          (fun q hq hzero => absurd hzero (hno q hq)) rfl rfl rfl

end Reply

theorem ForkInv.step {so : FwdServerOptions} {ev : FwdEvent} (h : ForkInv o s) (hreply : ReplyInv s)
    (hs : FwdMove o so s ev s') : ForkInv o s' := by
  cases hs with
  | init hnew hs =>
    obtain ⟨hasked, hhandled, hinit, hreceived, hforked, hports⟩ := initRemoteForwards_asked hs
    have hnone := h.configured
    rw [hnew, if_neg Bool.false_ne_true] at hnone
    constructor
    · unfold FwdState.confirmed
      dsimp only
      rw [hhandled]
      exact hreceived.trans h.received
    · dsimp only
      rw [hasked, hinit, hnone, List.nil_append, if_pos rfl, List.range_eq_range']
    · -- with `ExitOnForwardFailure` the fork is put off, unless there is no reply to wait for
      intro hnow hon
      rcases (Bool.or_eq_true _ _).mp hnow with hold | hnow
      · have hle := h.forked (hforked.symm.trans hold) hon
        exact hle.trans hreceived.ge
      · have hdefer := ((Bool.and_eq_true _ _).mp hnow).2
        rw [hon, Bool.true_and, Bool.not_eq_true', decide_eq_false_iff_not] at hdefer
        omega
    · dsimp only
      rw [hhandled]
      exact h.succeeded
    · dsimp only
      rw [hhandled]
      intro i p m hmem hzero
      exact (congrFun hports i).trans (h.allocated i p m hmem hzero)
  | @mux f ctx _ hs =>
    have hrequest : ForkInv o (s.request o f) := h.of_eq rfl rfl rfl rfl rfl rfl
    exact hrequest.ask rfl hs
  | cmdline f => exact h.of_eq rfl rfl rfl rfl rfl (filterMap_asked_send rfl)
  | cancelUnknown _ => exact h
  | cancel _ => exact h.of_eq rfl rfl rfl rfl rfl rfl
  | alive hs =>
    have halive : ForkInv o { s with client := { s.client with
        keepAliveTimeouts := s.client.keepAliveTimeouts + 1 } } :=
      h.of_eq rfl rfl rfl rfl rfl rfl
    exact halive.ask rfl hs
  | roaming hs => exact h.ask rfl hs
  | sessions => exact h.of_eq rfl rfl rfl rfl rfl rfl
  | serve _ => exact h.of_eq rfl rfl rfl rfl rfl rfl
  | accept _ => exact h.of_eq rfl rfl rfl rfl rfl rfl
  | reply hto hx => exact h.reply hreply hto hx
  | opened _ => exact h.of_eq rfl rfl rfl rfl rfl rfl

/-- The server grants the two forwards and refuses the two keepalives that are sent meanwhile. -/
def answeredForwards : List FwdEvent :=
  [.initForwarding, .serverAliveCheck, .serve ⟨1, 8080⟩, .clientReads, .serve ⟨2, 4022⟩,
    .serverAliveCheck, .serve ⟨0, 0⟩, .clientReads, .serve ⟨0, 0⟩, .clientReads, .clientReads]

/-- **A forward from the escape prompt shifts the queue.**  Its reply runs the callback of the
request that was sent after it, whose own reply then finds the queue empty. -/
theorem cmdline_reply_mismatch :
    (Transition.run (fwdStep { remoteForwards := [] } {}) {}
      [.initForwarding, .cmdlineForward ⟨none, 8080, ascii "a", 80⟩,
        .muxForward ⟨none, 80, ascii "b", 22⟩ 7, .serve ⟨1, 8080⟩, .serve ⟨0, 0⟩, .clientReads,
        .clientReads]).map
        (fun s => s.handled.map fun h => (h.1, h.2.1, h.2.2.callback)) =
      some [(some (.muxConfirmRemoteForward 7), .success none, none),
        (none, .failure, some (.muxConfirmRemoteForward 7))] := by
  decide +kernel

end CSBuFLO
