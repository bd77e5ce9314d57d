/-
# The control view of an endpoint

Most of an endpoint's state is about sizes and times.  What the two ends tell each other
about a page depends on little of it: the mode, the page's URL and cluster, the load and
end-of-transcript flags, the page lock and the notifications queued so far.  `Ctl` is that
view, and `CtlStep` lists all a send slot can do to it:

* queue `TEND` (once, in transcript mode);
* leave transcript mode for csbuflo mode, after the own and the peer's `TEND`;
* switch to normal mode, from transcript mode after both `TEND`s or from csbuflo mode;
* on the client, queue `PADDINGDONE` before leaving csbuflo mode.

`slot_ctl` says that every slot refines a sequence of these steps.
-/
import CSBuFLO.Endpoint

namespace CSBuFLO

open Relation (ReflTransGen)

variable {σ β : Type}

/-! ## Queued notifications -/

/-- A notification as its receiver understands it. -/
inductive Msg where
  | onload
  | unload
  | paddingdone
  | url (url : List UInt8)
  | sync
  | tend
  | normal
  | urlack
  deriving DecidableEq, Repr

/-- The notification a payload with number `n` and contents `data` carries. -/
def Msg.ofNotify (data : List UInt8) : Notify → Msg
  | .onload => .onload
  | .unload => .unload
  | .paddingdone => .paddingdone
  | .url => .url (setUrl (memory data fun _ => 0) 4)
  | .sync => .sync
  | .tend => .tend
  | .normal => .normal
  | .urlack => .urlack

/-- The notification in a payload, if it is one. -/
def Msg.ofPayload : List UInt8 → Option Msg
  | [] => none
  | t :: data => (Notify.ofMsg t).map (Msg.ofNotify data)

/-- Padding carries no message. -/
@[simp] theorem Msg.ofPayload_ignorePayload (r : List UInt8) :
    Msg.ofPayload (ignorePayload r) = none :=
  rfl

/-- A notification is recognised by its type, whatever filler it carries. -/
@[simp] theorem Msg.ofPayload_notifyPayload (n : Notify) (r : List UInt8) :
    Msg.ofPayload (notifyPayload n r) = some (Msg.ofNotify (putU32 r.length ++ r) n) := by
  simp [Msg.ofPayload, notifyPayload]

/-- A URL that fits its buffer is recognised with its text; the filler behind it is cut off. -/
theorem Msg.ofPayload_urlPayload {url : List UInt8} (h : StoredUrl url) (r : List UInt8) :
    Msg.ofPayload (urlPayload url r) = some (.url url) := by
  have := setUrl_urlPayload h r fun _ => 0
  simp only [urlPayload, List.tail_cons] at this
  simp [Msg.ofPayload, urlPayload, Msg.ofNotify, this]

/-- The notifications queued so far. -/
def PacketState.queued (p : PacketState σ β) : List Msg :=
  (p.sent.map Sent.payload).filterMap Msg.ofPayload

variable {c : Codec σ β} {p : PacketState σ β} {e e' : Endpoint σ β} {r : Role} {inp : SlotInput}
  {T : Tables} {payload : List UInt8}

/-- A packet that is sent joins the queue if it carries a message. -/
theorem queued_packetSend {b : Bool} {x : ℕ} {pl : List UInt8} {p' : PacketState σ β}
    (h : packetSend c b x pl p = some p') : p'.queued = p.queued ++ (Msg.ofPayload pl).toList := by
  obtain ⟨bs, s, -, rfl⟩ := packetSend_eq_some h
  simp [PacketState.queued, List.filterMap_append, List.filterMap_cons]
  cases Msg.ofPayload pl <;> rfl

/-- A notification joins the queue; its filler is random. -/
theorem queued_packetSendNotify {n : Notify} {p' : PacketState σ β}
    (h : packetSendNotify c n p = some p') :
    ∃ data, p'.queued = p.queued ++ [Msg.ofNotify data n] := by
  have := queued_packetSend h
  rw [Msg.ofPayload_notifyPayload] at this
  exact ⟨_, this⟩

theorem queued_packetSendUrl {url : List UInt8} {p' : PacketState σ β}
    (h : packetSendUrl c url p = some p') (hurl : StoredUrl url) :
    p'.queued = p.queued ++ [.url url] := by
  have := queued_packetSend h
  rw [Msg.ofPayload_urlPayload hurl] at this
  exact this

/-- Writing queues no notification. -/
theorem queued_packetWritePoll (c : Codec σ β) (inp : PollInput) (g : Globals)
    (p : PacketState σ β) : (packetWritePoll c inp g p).All fun r => r.2.queued = p.queued := by
  refine inv_packetWritePoll (I := fun q => q.queued = p.queued) ?_ ?_ ?_ inp g p rfl
  · intro n q q' _ hq h
    have := queued_packetSend h
    rw [Msg.ofPayload_ignorePayload] at this
    simpa using this.trans (congrArg (· ++ []) hq)
  · exact fun n acc q hq _ _ => hq
  · exact fun t q hq => hq

/-! ## The view -/

/-- The control view. -/
structure Ctl where
  stmode : StMode := .normal
  onload : Bool := false
  transcriptEnd : Bool := false
  sentTend : Bool := false
  url : List UInt8 := []
  clusterId : ℤ := -1
  serverEnteringNormal : Bool := false
  lockFile : Bool := false
  lockRemovals : ℕ := 0
  page : ℕ := 0
  transcripts : List ℕ := []
  tends : List ℕ := []
  queued : List Msg := []
  deriving DecidableEq

/-- The control view of an endpoint. -/
def Endpoint.ctl (e : Endpoint σ β) : Ctl where
  stmode := e.g.stmode
  onload := e.g.onloadFlag
  transcriptEnd := e.g.transcriptEnd
  sentTend := e.g.sentTend
  url := e.g.url
  clusterId := e.g.clusterId
  serverEnteringNormal := e.g.serverEnteringNormal
  lockFile := e.lockFile
  lockRemovals := e.lockRemovals
  page := e.page
  transcripts := e.transcripts
  tends := e.tends
  queued := e.pkt.queued

namespace Ctl

/-- Queue a notification. -/
def queue (k : Ctl) (m : Msg) : Ctl := { k with queued := k.queued ++ [m] }

/-- The client's test when it enters normal mode: if the server is there already, the lock
is removed. -/
def releaseLock (k : Ctl) : Ctl :=
  if k.serverEnteringNormal then
    { k with serverEnteringNormal := false, lockFile := false, lockRemovals := k.lockRemovals + 1 }
  else k

/-- Enter normal mode. -/
def enterNormal (k : Ctl) : Role → Ctl
  | .client => { k with stmode := .normal }.releaseLock
  | .server => { k.queue .normal with stmode := .normal }

end Ctl

/-- What a send slot can do to the control view. -/
inductive CtlStep (r : Role) : Ctl → Ctl → Prop where
  | tend {k : Ctl} (hmode : k.stmode = .supertrace) (hsent : k.sentTend = false) :
      CtlStep r k ({ k with sentTend := true, tends := k.page :: k.tends }.queue .tend)
  | toCsbuflo {k : Ctl} (hmode : k.stmode = .supertrace) (htend : k.transcriptEnd = true)
      (hsent : k.sentTend = true) : CtlStep r k { k with stmode := .csbuflo }
  | toNormal {k : Ctl}
      (h : (k.stmode = .supertrace ∧ k.transcriptEnd = true ∧ k.sentTend = true) ∨
        k.stmode = .csbuflo) : CtlStep r k (k.enterNormal r)
  | paddingdone {k : Ctl} (hr : r = .client) (hmode : k.stmode = .csbuflo) :
      CtlStep r k (k.queue .paddingdone)

/-! ## The steps of a slot refine control steps -/

/-- The handling of the unload flag does not touch the protocol state. -/
theorem ctl_unloadStep (now : ℕ) (e : Endpoint σ β) : (unloadStep now e).ctl = e.ctl := by
  unfold unloadStep
  split
  · split <;> rfl
  · rfl

/-- The cursor is not part of the control view. -/
theorem moveToNextStItem_eq (straces : ℤ → List StPair) (b : Bool) (g : Globals) :
    moveToNextStItem straces b g = { g with
      curItem := (moveToNextStItem straces b g).curItem
      stIndex := (moveToNextStItem straces b g).stIndex } := by
  unfold moveToNextStItem
  dsimp only
  split
  · rfl
  · split
    · rfl
    · split <;> rfl

/-- Moving to the next trace entry does not touch the protocol state. -/
theorem ctl_advanceCursor (T : Tables) (r : Role) (e : Endpoint σ β) :
    (advanceCursor T r e).ctl = e.ctl := by
  unfold advanceCursor
  dsimp only
  split
  · rfl
  · rw [moveToNextStItem_eq]
    rfl

/-- The draw for an early end moves the cursor and changes nothing else. -/
theorem shouldJumpTransEnd_eq (rand : ℕ) (g : Globals) :
    (shouldJumpTransEnd rand g).2 = { g with
      curItem := (shouldJumpTransEnd rand g).2.curItem
      stIndex := (shouldJumpTransEnd rand g).2.stIndex } := by
  unfold shouldJumpTransEnd
  split
  · rfl
  · split
    · rfl
    · split
      · rfl
      · split <;> rfl

/-- The rules for the first two items touch only their own flags. -/
theorem admitItem_eq (r : Role) (n : ℕ) (item : StPair) (g : Globals) :
    (admitItem r n item g).2.2 = { g with
      firstClient := (admitItem r n item g).2.2.firstClient
      secondClient := (admitItem r n item g).2.2.secondClient
      urlack := (admitItem r n item g).2.2.urlack } := by
  unfold admitItem
  dsimp only
  split
  · rfl
  · cases r with
    | server => rfl
    | client =>
      dsimp only
      split
      · split <;> rfl
      · rfl

theorem ctl_scheduleItem (r : Role) (inp : SlotInput) (n : ℕ) (item : StPair) (e : Endpoint σ β) :
    (scheduleItem r inp n item e).ctl = e.ctl := by
  unfold scheduleItem
  dsimp only
  have h := admitItem_eq r n item e.g
  generalize admitItem r n item e.g = a at h ⊢
  obtain ⟨size, expected, g⟩ := a
  dsimp only at h ⊢
  rw [h]
  split
  · rfl
  · cases r <;> rfl
  · rfl

/-- Sending a notification appends it to the view. -/
theorem ctl_withPkt_notify {n : Notify} (h : e.withPkt (packetSendNotify c n e.pkt) = some e') :
    ∃ data, e'.ctl = e.ctl.queue (Msg.ofNotify data n) ∧ e'.g = e.g := by
  obtain ⟨pkt, hpkt, rfl⟩ := Option.map_eq_some_iff.mp h
  obtain ⟨data, hdata⟩ := queued_packetSendNotify hpkt
  exact ⟨data, by simp [Endpoint.ctl, Ctl.queue, hdata], rfl⟩

/-- Going back to normal mode is the step `enterNormal` of the protocol. -/
theorem ctl_switchToNormal (h : switchToNormal c r e = some e') : e'.ctl = e.ctl.enterNormal r := by
  unfold switchToNormal at h
  cases r with
  | client =>
    dsimp only at h
    unfold Ctl.enterNormal Ctl.releaseLock
    split at h
    · rename_i hsen
      rw [← Option.some.inj h]
      simp [Endpoint.ctl, hsen]
    · rename_i hsen
      rw [← Option.some.inj h]
      simp [Endpoint.ctl, hsen]
  | server =>
    obtain ⟨e1, h1, rfl⟩ := Option.map_eq_some_iff.mp h
    obtain ⟨data, hctl, -⟩ := ctl_withPkt_notify h1
    rw [Ctl.enterNormal, show Msg.normal = Msg.ofNotify data .normal from rfl, ← hctl]
    rfl

/-- Queueing `TEND` takes at most one step of the protocol, and stays in transcript mode. -/
theorem ctl_queueTend (h : queueTend c e = some e') (hmode : e.g.stmode = .supertrace) :
    ReflTransGen (CtlStep r) e.ctl e'.ctl ∧ e'.g.stmode = .supertrace ∧
      (e'.g.w2w = 0 → e'.g.sentTend = true) := by
  unfold queueTend at h
  split at h
  · rename_i hcond
    obtain ⟨e1, h1, rfl⟩ := Option.map_eq_some_iff.mp h
    obtain ⟨data, hctl, hg⟩ := ctl_withPkt_notify h1
    refine ⟨.single ?_, by rw [hg]; exact hmode, fun _ => rfl⟩
    have hstep : CtlStep r e.ctl
        ({ e.ctl with sentTend := true, tends := e.page :: e.tends }.queue .tend) :=
      .tend hmode hcond.1
    have heq : ({ e1 with g := { e1.g with sentTend := true }, tends := e1.page :: e1.tends } :
        Endpoint σ β).ctl =
        { e1.ctl with sentTend := true, tends := e1.ctl.page :: e1.ctl.tends } := rfl
    rw [heq, hctl]
    exact hstep
  · rename_i hcond
    obtain rfl := Option.some.inj h
    refine ⟨.refl, hmode, fun hw => ?_⟩
    by_contra hsent
    exact hcond ⟨by simpa using hsent, hw⟩

/-- **Leaving transcript mode.**  Without budget the own `TEND` is queued already. -/
theorem ctl_leaveTranscript {n : ℕ} (h : leaveTranscript c r inp n e = some e')
    (hmode : e.g.stmode = .supertrace) (hsent : e.g.w2w = 0 → e.g.sentTend = true) :
    ReflTransGen (CtlStep r) e.ctl e'.ctl := by
  unfold leaveTranscript at h
  split at h
  · rename_i hcond
    have hnormal : CtlStep r e.ctl (e.ctl.enterNormal r) :=
      .toNormal (Or.inl ⟨hmode, hcond.1, hsent hcond.2⟩)
    split at h
    · rw [ctl_switchToNormal h]
      exact .single hnormal
    · split at h
      · obtain rfl := Option.some.inj h
        exact .refl
      · split at h
        · obtain rfl := Option.some.inj h
          exact .single (.toCsbuflo hmode hcond.1 (hsent hcond.2))
        · split at h
          · rw [ctl_switchToNormal h]
            exact .single hnormal
          · obtain rfl := Option.some.inj h
            exact .refl
  · obtain rfl := Option.some.inj h
    exact .refl

theorem ctl_endTranscript {n : ℕ} (h : endTranscript c r inp n e = some e')
    (hmode : e.g.stmode = .supertrace) : ReflTransGen (CtlStep r) e.ctl e'.ctl := by
  obtain ⟨e1, h1, h2⟩ := Option.bind_eq_some_iff.mp h
  obtain ⟨hsteps, hmode1, hsent1⟩ := ctl_queueTend (r := r) h1 hmode
  exact hsteps.trans (ctl_leaveTranscript h2 hmode1 hsent1)

/-- **A slot in transcript mode** is a run of the protocol. -/
theorem ctl_transcriptSlot {n : ℕ} (h : transcriptSlot c T r inp n e = some e')
    (hmode : e.g.stmode = .supertrace) : ReflTransGen (CtlStep r) e.ctl e'.ctl := by
  unfold transcriptSlot at h
  dsimp only at h
  have hctl := ctl_advanceCursor T r e
  have hmode1 : (advanceCursor T r e).g.stmode = .supertrace :=
    (congrArg Ctl.stmode hctl).trans hmode
  rw [← hctl]
  generalize advanceCursor T r e = e1 at h hmode1 ⊢
  split at h
  · exact ctl_endTranscript h hmode1
  · split at h
    · rw [← Option.some.inj h, ctl_scheduleItem]
    · have hj := shouldJumpTransEnd_eq inp.rand e1.g
      have hctl2 : ({ e1 with g := (shouldJumpTransEnd inp.rand e1.g).2 } : Endpoint σ β).ctl
          = e1.ctl := by rw [hj]; rfl
      split at h
      · rw [← hctl2]
        exact ctl_endTranscript h (by rw [hj]; exact hmode1)
      · rw [← Option.some.inj h, ctl_scheduleItem, hctl2]

/-- **Leaving csbuflo mode.**  The client announces it with `PADDINGDONE`. -/
theorem ctl_leaveCsbuflo (h : leaveCsbuflo c r e = some e') (hmode : e.g.stmode = .csbuflo) :
    ReflTransGen (CtlStep r) e.ctl e'.ctl := by
  unfold leaveCsbuflo at h
  cases r with
  | client =>
    obtain ⟨e1, h1, h2⟩ := Option.bind_eq_some_iff.mp h
    obtain ⟨data, hctl, hg⟩ := ctl_withPkt_notify h1
    have hfirst : CtlStep .client e.ctl e1.ctl := by
      rw [hctl]
      exact .paddingdone rfl hmode
    refine (ReflTransGen.single hfirst).tail ?_
    rw [ctl_switchToNormal h2]
    refine .toNormal (Or.inr ?_)
    show e1.g.stmode = .csbuflo
    rw [hg]
    exact hmode
  | server =>
    rw [ctl_switchToNormal h]
    exact .single (.toNormal (Or.inr hmode))

theorem ctl_idleBudget (n : ℕ) (e : Endpoint σ β) : (idleBudget n e).ctl = e.ctl := by
  unfold idleBudget
  split
  · rfl
  · dsimp only
    split <;> rfl

/-- **A slot in csbuflo mode** is a run of the protocol. -/
theorem ctl_csbufloSlot {n : ℕ} (h : csbufloSlot c r inp n e = some e') :
    ReflTransGen (CtlStep r) e.ctl e'.ctl := by
  cases csbufloStep_csbufloSlot h with
  | other _ _ he => rw [he]; exact .refl
  | busy _ _ he => rw [he]; exact .refl
  | ends hmode _ _ e1 hleave he =>
    have hsteps := ctl_leaveCsbuflo hleave hmode
    rw [he, ctl_idleBudget]
    exact hsteps
  | idle _ _ _ he =>
    rw [he, ctl_idleBudget]
    exact .refl

theorem ctl_decideSlot (h : decideSlot c T r inp e = some e') :
    ReflTransGen (CtlStep r) e.ctl e'.ctl := by
  obtain ⟨e1, h1, h2⟩ := Option.bind_eq_some_iff.mp h
  refine ReflTransGen.trans ?_ (ctl_csbufloSlot h2)
  split at h1
  · rename_i hmode
    exact ctl_transcriptSlot h1 hmode
  · rw [← Option.some.inj h1]

theorem ctl_accountSent (r : Role) (inp : SlotInput) (n : ℕ) (incoming : ℤ) (before : ℕ)
    (e : Endpoint σ β) : (accountSent r inp n incoming before e).ctl = e.ctl := by
  obtain ⟨_, _, _, _, _, _, _, pkt, heq, hpkt⟩ := accountSent_eq r inp n incoming before e
  rw [heq]
  rcases hpkt with rfl | rfl <;> rfl

/-- Writing does not touch the control view. -/
theorem ctl_packetWritePoll {inp : PollInput} {g : Globals}
    (h : packetWritePoll c inp e.g e.pkt = .returned (g, p)) :
    ({ e with g := g, pkt := p } : Endpoint σ β).ctl = e.ctl := by
  have hframe := writeFrame_packetWritePoll c inp e.g e.pkt
  have hqueued := queued_packetWritePoll c inp e.g e.pkt
  rw [h] at hframe hqueued
  have hframe : WriteFrame e.g g := hframe
  have hqueued : p.queued = e.pkt.queued := hqueued
  unfold Endpoint.ctl
  rw [hframe.eq, hqueued]

/-- **A slot refines control steps.** -/
theorem slot_ctl (h : slot c T r inp e = .returned e') : ReflTransGen (CtlStep r) e.ctl e'.ctl := by
  rw [← ctl_unloadStep inp.now e]
  rcases slot_eq_returned h with ⟨-, rfl⟩ | ⟨-, e1, g, p, incoming, hdecide, hpoll, rfl⟩
  · have : (skipSlot (unloadStep inp.now e)).ctl = (unloadStep inp.now e).ctl := by
      unfold skipSlot
      split <;> rfl
    rw [this]
  · rw [ctl_accountSent, ctl_packetWritePoll hpoll]
    exact ctl_decideSlot hdecide

/-- The client sends nothing when it enters normal mode. -/
theorem Ctl.enterNormal_client_requeue (k : Ctl) (q : List Msg) :
    { k with queued := q }.enterNormal .client = { k.enterNormal .client with queued := q } := by
  unfold enterNormal releaseLock
  dsimp only
  split <;> rfl

/-- What a step queues does not depend on what is queued already. -/
theorem CtlStep.requeue {k k' : Ctl} (h : CtlStep r k k') :
    ∃ ms, k'.queued = k.queued ++ ms ∧
      ∀ q, CtlStep r { k with queued := q } { k' with queued := q ++ ms } := by
  cases h with
  | tend hmode hsent => exact ⟨[.tend], rfl, fun q => .tend hmode hsent⟩
  | toCsbuflo hmode hown hpeer =>
    refine ⟨[], by simp, fun q => ?_⟩
    rw [List.append_nil]
    exact .toCsbuflo hmode hown hpeer
  | toNormal h =>
    cases r with
    | client =>
      refine ⟨[], ?_, fun q => ?_⟩
      · have heq := congrArg Ctl.queued (k.enterNormal_client_requeue k.queued)
        rw [List.append_nil]
        exact heq
      · rw [List.append_nil, ← Ctl.enterNormal_client_requeue]
        exact .toNormal h
    | server => exact ⟨[.normal], rfl, fun q => .toNormal h⟩
  | paddingdone hr hmode => exact ⟨[.paddingdone], rfl, fun q => .paddingdone hr hmode⟩

/-- The same for a sequence of steps. -/
theorem requeue_of_reflTransGen {k k' : Ctl} (h : ReflTransGen (CtlStep r) k k') :
    ∃ ms, k'.queued = k.queued ++ ms ∧
      ∀ q, ReflTransGen (CtlStep r) { k with queued := q } { k' with queued := q ++ ms } := by
  induction h with
  | refl => exact ⟨[], by simp, fun q => by rw [List.append_nil]⟩
  | tail _ hstep ih =>
    obtain ⟨ms, hms, hrun⟩ := ih
    obtain ⟨ms', hms', hlast⟩ := hstep.requeue
    refine ⟨ms ++ ms', by rw [hms', hms, List.append_assoc], fun q => ?_⟩
    have := (hrun q).tail (hlast (q ++ ms))
    rwa [List.append_assoc] at this

/-! ## Received packets and control requests -/

namespace Ctl

/-- The page a URL starts. -/
def startPage (T : Tables) (k : Ctl) (url : List UInt8) : Ctl :=
  { k with
    onload := false
    transcriptEnd := false
    sentTend := false
    url := url
    clusterId := hmLookup T.clusters url
    stmode := if hmLookup T.clusters url ≠ -1 then .supertrace else .csbuflo
    page := k.page + 1
    transcripts := if hmLookup T.clusters url ≠ -1 then (k.page + 1) :: k.transcripts
      else k.transcripts }

/-- What a received notification does to the control view. -/
def receive (T : Tables) (k : Ctl) : Msg → Ctl
  | .onload => { k with onload := true }
  | .tend => { k with transcriptEnd := true }
  | .normal =>
    if k.stmode = .normal then
      { k with serverEnteringNormal := false, lockFile := false,
               lockRemovals := k.lockRemovals + 1 }
    else { k with serverEnteringNormal := true }
  | .url url =>
    if hmLookup T.clusters url ≠ -1 then (k.startPage T url).queue .urlack else k.startPage T url
  | .unload => k
  | .paddingdone => k
  | .sync => k
  | .urlack => k

/-- What a received packet does to the control view: only a notification matters. -/
def deliver (T : Tables) (k : Ctl) : Option Msg → Ctl
  | some m => k.receive T m
  | none => k

/-- What a control request of the SOCKS port does to the client's control view. -/
def socks (T : Tables) (k : Ctl) (p : ℕ → UInt8) : Ctl :=
  if p 1 = 4 then { k with onload := true }.queue .onload
  else if p 1 = 5 then k.queue .unload
  else if p 1 = 6 ∧ k.stmode = .normal then
    { (k.startPage T (setUrl p 3)).queue (.url (setUrl p 3)) with lockFile := true }
  else k

end Ctl

/-- A packet whose URL, if it is a `NOTIFY_URL`, was put there by `packet_send_notify`. -/
def ProperUrl (payload : List UInt8) : Prop :=
  ∀ data, payload = Notify.url.msg :: data →
    ∃ url random, StoredUrl url ∧ payload = urlPayload url random

/-- `set_first_sent` changes `first_expected` and `first_sent` only. -/
theorem setFirstSent_eq (straces : ℤ → List StPair) (g : Globals) :
    setFirstSent straces g = { g with
      firstExpected := (setFirstSent straces g).firstExpected
      firstSent := (setFirstSent straces g).firstSent } := by
  unfold setFirstSent
  dsimp only
  split
  · rfl
  · split
    · rfl
    · split <;> rfl

/-- **A URL packet at the server** starts a page of the protocol. -/
theorem ctl_startServerPage {url : List UInt8} {beyond : ℕ → UInt8}
    (hurl : setUrl (memory payload.tail beyond) 4 = url)
    (h : startServerPage c T payload beyond e = some e') : e'.ctl = e.ctl.receive T (.url url) := by
  unfold startServerPage at h
  simp only [hurl, setClusterId] at h
  unfold Ctl.receive Ctl.startPage
  dsimp only
  split at h
  · rename_i hid
    obtain ⟨data, hctl, hg⟩ := ctl_withPkt_notify h
    rw [if_pos hid, if_pos hid, if_pos hid, hctl, setFirstSent_eq]
    rfl
  · rename_i hid
    rw [if_neg hid, if_neg hid, if_neg hid, ← Option.some.inj h]
    rfl

/-- **A received packet refines the handling of its notification.** -/
theorem ctl_packetReadPollSeqnr {ts : ℕ} {beyond : ℕ → UInt8} (hurl : ProperUrl payload)
    (h : packetReadPollSeqnr c T ts payload beyond e = some e') :
    e'.ctl = e.ctl.deliver T (Msg.ofPayload payload) := by
  unfold packetReadPollSeqnr at h
  cases payload with
  | nil => rw [← Option.some.inj h]; rfl
  | cons t data =>
    dsimp only at h
    unfold Ctl.deliver
    cases hn : Notify.ofMsg t with
    | none =>
      simp only [hn] at h
      simp only [Msg.ofPayload, hn, Option.map_none]
      split at h
      · rw [← Option.some.inj h]
      · split at h
        · cases h
        · rw [← Option.some.inj h]
          unfold noteReceived
          split <;> rfl
    | some n =>
      simp only [hn] at h
      simp only [Msg.ofPayload, hn, Option.map_some]
      cases n with
      | url =>
        have ht : t = Notify.url.msg := Notify.msg_of_ofMsg hn
        obtain ⟨url, random, hstored, hpl⟩ := hurl data (by rw [ht])
        rw [hpl] at h
        have hsame : setUrl (memory data fun _ => 0) 4 = url := by
          have := setUrl_urlPayload hstored random fun _ => 0
          rwa [← hpl] at this
        rw [Msg.ofNotify, hsame]
        exact ctl_startServerPage (setUrl_urlPayload hstored random beyond) h
      | normal =>
        unfold handleNotify at h
        simp only [Msg.ofNotify, Ctl.receive]
        dsimp only at h
        split at h
        · rename_i hmode
          have hk : e.ctl.stmode = .normal := hmode
          rw [← Option.some.inj h, if_pos hk]
          rfl
        · rename_i hmode
          have hk : ¬e.ctl.stmode = .normal := hmode
          rw [← Option.some.inj h, if_neg hk]
          rfl
      | onload => rw [← Option.some.inj h]; rfl
      | unload => rw [← Option.some.inj h]; rfl
      | paddingdone => rw [← Option.some.inj h]; rfl
      | sync => rw [← Option.some.inj h]; rfl
      | tend => rw [← Option.some.inj h]; rfl
      | urlack => rw [← Option.some.inj h]; rfl

/-- **A SOCKS request at the client** starts a page of the protocol and queues the URL. -/
theorem ctl_startClientPage {p : ℕ → UInt8} (h : startClientPage c T p e = some e') :
    e'.ctl =
      { (e.ctl.startPage T (setUrl p 3)).queue (.url (setUrl p 3)) with lockFile := true } := by
  obtain ⟨e1, h1, rfl⟩ := Option.map_eq_some_iff.mp h
  obtain ⟨pkt, hpkt, rfl⟩ := Option.map_eq_some_iff.mp h1
  have hqueued := queued_packetSendUrl hpkt (storedUrl_setUrl p 3)
  simp only [setClusterId]
  unfold Ctl.startPage Ctl.queue Endpoint.ctl
  dsimp only
  split <;> rw [hqueued]

/-- **A control request refines its effect on the control view.** -/
theorem ctl_socksControl {p : ℕ → UInt8} (h : socksControl c T p e = some e') :
    e'.ctl = e.ctl.socks T p := by
  unfold socksControl at h
  unfold Ctl.socks
  split at h
  · rename_i hcmd
    obtain ⟨data, hctl, -⟩ := ctl_withPkt_notify h
    rw [if_pos hcmd, hctl]
    rfl
  · rename_i hcmd
    rw [if_neg hcmd]
    split at h
    · rename_i hcmd5
      obtain ⟨data, hctl, -⟩ := ctl_withPkt_notify h
      rw [if_pos hcmd5, hctl]
      rfl
    · rename_i hcmd5
      rw [if_neg hcmd5]
      split at h
      · rename_i hcmd6
        split at h
        · rename_i hmode
          rw [if_pos ⟨hcmd6, hmode⟩]
          exact ctl_startClientPage h
        · rename_i hmode
          rw [if_neg (fun hc => hmode hc.2), ← Option.some.inj h]
      · rename_i hcmd6
        rw [if_neg (fun hc => hcmd6 hc.1), ← Option.some.inj h]

/-- A packet of the rest of the program is no notification. -/
theorem ofPayload_of_plainPayload (h : plainPayload payload = true) :
    Msg.ofPayload payload = none := by
  cases payload with
  | nil => rfl
  | cons t data => simp [Msg.ofPayload, Option.isNone_iff_eq_none.mp h]

theorem ctl_data {x : ℕ} (h : endpointStep c T r e (.data x payload) = some e') :
    e'.ctl = e.ctl := by
  unfold endpointStep at h
  dsimp only at h
  split at h
  · rename_i hplain
    obtain ⟨pkt, hpkt, rfl⟩ := Option.map_eq_some_iff.mp h
    have hq := queued_packetSend hpkt
    rw [ofPayload_of_plainPayload hplain, Option.toList_none, List.append_nil] at hq
    unfold Endpoint.ctl
    rw [hq]
  · cases h

end CSBuFLO
