/-
# The page lock

The client creates a lock file when it takes a URL request and removes it when both ends
are back in normal mode: on the server's `NORMAL`, or, if that came earlier, when it
switches to normal mode itself.  `NORMAL` does not say which page it belongs to, and the
client takes URL requests as soon as it is in normal mode, so a `NORMAL` of the previous
page can release the lock of the next one.

If requests are only made while the lock file does not exist, this cannot happen.  Then
there is one token: a URL under way, a server that is not in normal mode, a `NORMAL` under
way or the flag `server_entering_normal` (`LockInv.token`), and it exists exactly while the
lock file does.
-/
import CSBuFLO.TranscriptEnd

namespace CSBuFLO

/-! ## The token -/

/-- A request is made only while the lock file does not exist. -/
def Unlocked (k : Ctl) (p : ℕ → UInt8) : Prop :=
  p 1 = 6 → k.stmode = .normal → k.lockFile = false

/-- The token of a server that is not in normal mode. -/
def busy (mode : StMode) : ℕ := if mode = .normal then 0 else 1

/-- Where the token is. -/
def tokens (s : Proto) : ℕ :=
  urls s.client.queued + busy s.server.stmode + s.server.queued.count .normal +
    s.client.serverEnteringNormal.toNat

/-- One token while the lock file exists, and none otherwise. -/
structure LockInv (s : Proto) : Prop where
  fromServer : ∀ m ∈ s.server.queued, m.fromServer = true
  token : tokens s = s.client.lockFile.toNat
  idle : s.client.lockFile = false → s.client.stmode = .normal

/-- The page is over at both ends: the server has handled every URL and is in normal mode. -/
structure Over (s : Proto) : Prop where
  stmode : s.server.stmode = .normal
  urls_eq : urls s.client.queued = 0

theorem lockInv_init : LockInv {} := ⟨by simp, rfl, fun _ => rfl⟩

theorem busy_of_ne {mode : StMode} (h : mode ≠ .normal) : busy mode = 1 := if_neg h

theorem busy_eq_zero_iff {mode : StMode} : busy mode = 0 ↔ mode = .normal := by
  cases mode <;> simp [busy]

/-- The place of the token fixes the others: with `server_entering_normal` set or a `NORMAL`
under way, the page is over. -/
theorem LockInv.over {s : Proto} (hs : LockInv s)
    (h : s.client.serverEnteringNormal = true ∨ Msg.normal ∈ s.server.queued) : Over s := by
  have htoken := hs.token
  have hle : s.client.lockFile.toNat ≤ 1 := Bool.toNat_le _
  unfold tokens at htoken
  have hpos : 0 < s.server.queued.count .normal + s.client.serverEnteringNormal.toNat := by
    rcases h with h | h
    · rw [h]; simp
    · have := List.count_pos_iff.mpr h
      omega
  exact ⟨busy_eq_zero_iff.mp (by omega), by omega⟩

/-! ## Steps -/

section Steps

variable {T : Tables} {s : Proto}

/-- The client enters normal mode: the lock goes if the server is there already. -/
theorem LockInv.enterNormal (hs : LockInv s) :
    LockInv { s with client := s.client.enterNormal .client } ∧
      (s.client.lockRemovals < (s.client.enterNormal .client).lockRemovals → Over s) := by
  have htoken := hs.token
  unfold tokens at htoken
  unfold Ctl.enterNormal Ctl.releaseLock
  dsimp only
  split
  · rename_i hflag
    refine ⟨⟨hs.fromServer, ?_, fun _ => rfl⟩, fun _ => hs.over (Or.inl hflag)⟩
    have hle : s.client.lockFile.toNat ≤ 1 := Bool.toNat_le _
    rw [hflag] at htoken
    unfold tokens
    simp only [Bool.toNat_true, Bool.toNat_false] at htoken ⊢
    omega
  · exact ⟨⟨hs.fromServer, htoken, fun _ => rfl⟩, fun hlt => absurd hlt (lt_irrefl _)⟩

/-- A control step of the client. -/
theorem LockInv.client {k : Ctl} (hs : LockInv s) (h : CtlStep .client s.client k) :
    LockInv { s with client := k } ∧ (s.client.lockRemovals < k.lockRemovals → Over s) := by
  have htoken := hs.token
  unfold tokens at htoken
  cases h with
  | tend hmode hsent =>
    refine ⟨⟨hs.fromServer, ?_, hs.idle⟩, fun hlt => absurd hlt (lt_irrefl _)⟩
    exact (congrArg (· + _ + _ + _) (urls_append_of_not_url _ rfl)).trans htoken
  | toCsbuflo hmode _ _ =>
    refine ⟨⟨hs.fromServer, htoken, fun hlock => ?_⟩, fun hlt => absurd hlt (lt_irrefl _)⟩
    have := hs.idle hlock
    rw [hmode] at this
    cases this
  | toNormal _ => exact hs.enterNormal
  | paddingdone _ hmode =>
    refine ⟨⟨hs.fromServer, ?_, hs.idle⟩, fun hlt => absurd hlt (lt_irrefl _)⟩
    exact (congrArg (· + _ + _ + _) (urls_append_of_not_url _ rfl)).trans htoken

/-- A control step of the server hands the token on when it enters normal mode. -/
theorem LockInv.server {k : Ctl} (hs : LockInv s) (h : CtlStep .server s.server k) :
    LockInv { s with server := k } := by
  have hfrom := fromServer_ctlStep h hs.fromServer
  have htoken := hs.token
  unfold tokens at htoken
  refine ⟨hfrom, ?_, hs.idle⟩
  cases h with
  | tend hmode hsent =>
    have hcount : (s.server.queued ++ [Msg.tend]).count .normal =
        s.server.queued.count .normal := by
      simp [List.count_append]
    exact (congrArg (_ + · + _) hcount).trans htoken
  | toCsbuflo hmode _ _ =>
    rw [busy_of_ne (by rw [hmode]; decide)] at htoken
    exact htoken
  | toNormal h =>
    have hne : s.server.stmode ≠ .normal := by
      rcases h with ⟨h, -⟩ | h <;> rw [h] <;> decide
    rw [busy_of_ne hne] at htoken
    unfold tokens
    simp only [Ctl.enterNormal, Ctl.queue, List.count_append, List.count_singleton_self]
    rw [busy_eq_zero_iff.mpr rfl]
    omega
  | paddingdone hr => cases hr

/-- A request made while there is no lock file creates the token. -/
theorem LockInv.socks (hs : LockInv s) {p : ℕ → UInt8} (h : Unlocked s.client p) :
    LockInv { s with client := s.client.socks T p } := by
  have htoken := hs.token
  unfold tokens at htoken
  unfold Ctl.socks
  split_ifs with h4 h5 h6
  · refine ⟨hs.fromServer, ?_, hs.idle⟩
    exact (congrArg (· + _ + _ + _) (urls_append_of_not_url _ rfl)).trans htoken
  · refine ⟨hs.fromServer, ?_, hs.idle⟩
    exact (congrArg (· + _ + _ + _) (urls_append_of_not_url _ rfl)).trans htoken
  · refine ⟨hs.fromServer, ?_, fun hc => by cases hc⟩
    rw [h h6.1 h6.2, Bool.toNat_false] at htoken
    unfold tokens
    simp only [Ctl.queue, Ctl.startPage, urls_append, urls_cons_url, urls_nil, Bool.toNat_true]
    omega
  · exact hs

/-- A URL brings the token to the server. -/
theorem LockInv.toServer {m : Msg} {ms : List Msg} (hs : LockInv s)
    (h : s.client.queued = m :: ms) :
    LockInv ⟨{ s.client with queued := ms }, s.server.receive T m⟩ := by
  have htoken := hs.token
  have hle : s.client.lockFile.toNat ≤ 1 := Bool.toNat_le _
  unfold tokens at htoken
  rw [h] at htoken
  refine ⟨fromServer_receive T s.server m hs.fromServer, ?_, hs.idle⟩
  cases hm : m.isUrl with
  | false =>
    obtain ⟨hsame, hq, -⟩ := receive_of_not_url T s.server hm
    rw [urls_cons_of_not_url ms hm] at htoken
    unfold tokens
    dsimp only
    rw [hq, hsame.stmode]
    exact htoken
  | true =>
    cases m with
    | url u =>
      rw [urls_cons_url] at htoken
      have hbusy : busy (s.server.receive T (.url u)).stmode = 1 ∧
          (s.server.receive T (.url u)).queued.count .normal =
            s.server.queued.count .normal := by
        unfold Ctl.receive
        dsimp only
        split
        · rename_i hid
          exact ⟨by simp [busy, Ctl.queue, Ctl.startPage, hid],
            by simp [Ctl.queue, Ctl.startPage, List.count_append]⟩
        · rename_i hid
          exact ⟨by simp [busy, Ctl.startPage, hid], rfl⟩
      unfold tokens
      dsimp only
      rw [hbusy.1, hbusy.2]
      omega
    | _ => cases hm

/-- `NORMAL` brings the token back to the client. -/
theorem LockInv.toClient {m : Msg} {ms : List Msg} (hs : LockInv s)
    (h : s.server.queued = m :: ms) :
    LockInv ⟨s.client.receive T m, { s.server with queued := ms }⟩ ∧
      (s.client.lockRemovals < (s.client.receive T m).lockRemovals → Over s) := by
  have hfrom := hs.fromServer m (h ▸ List.mem_cons_self)
  have hsub : ∀ m' ∈ ms, m'.fromServer = true := fun m' hm' =>
    hs.fromServer m' (h ▸ List.mem_cons_of_mem m hm')
  have htoken := hs.token
  have hle : s.client.lockFile.toNat ≤ 1 := Bool.toNat_le _
  unfold tokens at htoken
  rw [h] at htoken
  cases m with
  | normal =>
    have hover := hs.over (Or.inr (h ▸ List.mem_cons_self))
    rw [List.count_cons_self] at htoken
    unfold Ctl.receive
    dsimp only
    split
    · rename_i hmode
      refine ⟨⟨hsub, ?_, fun _ => hmode⟩, fun _ => hover⟩
      unfold tokens
      simp only [Bool.toNat_false]
      omega
    · rename_i hmode
      refine ⟨⟨hsub, ?_, hs.idle⟩, fun hlt => absurd hlt (lt_irrefl _)⟩
      unfold tokens
      simp only [Bool.toNat_true]
      omega
  | tend =>
    rw [List.count_cons_of_ne (by decide)] at htoken
    exact ⟨⟨hsub, htoken, hs.idle⟩, fun hlt => absurd hlt (lt_irrefl _)⟩
  | urlack =>
    rw [List.count_cons_of_ne (by decide)] at htoken
    exact ⟨⟨hsub, htoken, hs.idle⟩, fun hlt => absurd hlt (lt_irrefl _)⟩
  | _ => cases hfrom

end Steps

/-- Every step of the protocol with guarded requests keeps the invariant. -/
theorem LockInv.step {T : Tables} {s s' : Proto} (hs : LockInv s)
    (h : ProtoStep T Unlocked s s') : LockInv s' := by
  cases h with
  | client h => exact (hs.client h).1
  | server h => exact hs.server h
  | socks p h => exact hs.socks h
  | toServer h => exact hs.toServer h
  | toClient h => exact (hs.toClient h).1

/-- What is over stays over until the next request. -/
theorem Over.step {T : Tables} {s s' : Proto} (ho : Over s) (hs : LockInv s)
    (h : ProtoStep T (fun _ _ => False) s s') : Over s' := by
  cases h with
  | client h =>
    obtain ⟨hq, -⟩ := queued_client_ctlStep h
    refine ⟨ho.stmode, ?_⟩
    rcases hq with ⟨hq, -⟩ | ⟨m, hq, hm, -⟩
    · dsimp only; rw [hq]; exact ho.urls_eq
    · dsimp only; rw [hq, urls_append_of_not_url _ hm]; exact ho.urls_eq
  | server h =>
    -- no control step starts in normal mode
    have hmode := ho.stmode
    cases h with
    | tend h => rw [hmode] at h; cases h
    | toCsbuflo h => rw [hmode] at h; cases h
    | toNormal h => rcases h with ⟨h, -⟩ | h <;> rw [hmode] at h <;> cases h
    | paddingdone hr => cases hr
  | socks p h => exact h.elim
  | @toServer m ms h =>
    have hurls := ho.urls_eq
    rw [h] at hurls
    cases hm : m.isUrl with
    | false =>
      rw [urls_cons_of_not_url ms hm] at hurls
      exact ⟨(receive_of_not_url T s.server hm).1.stmode.trans ho.stmode, hurls⟩
    | true =>
      cases m with
      | url u => rw [urls_cons_url] at hurls; omega
      | _ => cases hm
  | @toClient m ms h =>
    have hfrom := hs.fromServer m (h ▸ List.mem_cons_self)
    obtain ⟨-, hq, -⟩ := receive_of_not_url T s.client (not_isUrl_of_fromServer hfrom)
    exact ⟨ho.stmode, by dsimp only; rw [hq]; exact ho.urls_eq⟩

/-- A removal of the lock file finds the page over. -/
theorem LockInv.removal {T : Tables} {s s' : Proto} (hs : LockInv s)
    (h : ProtoStep T (fun _ _ => False) s s')
    (hlt : s.client.lockRemovals < s'.client.lockRemovals) : Over s' := by
  have hover : Over s := by
    cases h with
    | client h => exact (hs.client h).2 hlt
    | server h => exact absurd hlt (lt_irrefl _)
    | socks p h => exact h.elim
    | toServer h => exact absurd hlt (lt_irrefl _)
    | toClient h => exact (hs.toClient h).2 hlt
  exact hover.step hs h

/-! ## Runs with guarded requests -/

variable {κ : Type}

/-- A URL request that the client takes arrives while the lock file does not exist. -/
def LockGuard (s : Network κ) (ev : NetEvent) (_ : Network κ) : Prop :=
  ∀ p, ev = .socks p → Unlocked s.client.ep.ctl p

/-- The server is in normal mode and has handled every URL the client has sent. -/
def PageOver (s : Network κ) : Prop :=
  s.server.ep.g.stmode = .normal ∧ ∀ u, Msg.url u ∉ s.inFlight .client

theorem pageOver_of_over {s : Network κ} (h : Over s.proto) : PageOver s := by
  refine ⟨h.stmode, fun u hu => ?_⟩
  have hpos := urls_pos_of_mem hu
  have hzero : urls (s.inFlight .client) = 0 := h.urls_eq
  omega

/-- A request removes nothing. -/
theorem lockRemovals_socks {S : Setup κ} {s s' : Network κ} {p : ℕ → UInt8}
    (h : netStep S s (.socks p) = some s') :
    s'.client.ep.lockRemovals = s.client.ep.lockRemovals := by
  obtain ⟨x, hx, rfl⟩ := Option.map_eq_some_iff.mp h
  obtain ⟨e, he, rfl⟩ := Side.act_eq_some hx
  have hctl := congrArg Ctl.lockRemovals (ctl_socksControl he)
  refine hctl.trans ?_
  unfold Ctl.socks
  split_ifs <;> rfl

/-- One event of a guarded run. -/
theorem lock_netStep {S : Setup κ} {s s' : Network κ} {ev : NetEvent}
    (hs : Channels S s ∧ LockInv s.proto) (hG : LockGuard s ev s')
    (h : netStep S s ev = some s') :
    (Channels S s' ∧ LockInv s'.proto) ∧
      (s.client.ep.lockRemovals < s'.client.ep.lockRemovals → PageOver s') := by
  have hinv := inv_netStep (G := Unlocked) (fun _ _ hi => hi.step) hG hs h
  refine ⟨hinv, fun hlt => ?_⟩
  by_cases hsocks : ∃ p, ev = .socks p
  · obtain ⟨p, rfl⟩ := hsocks
    rw [lockRemovals_socks h] at hlt
    exact absurd hlt (lt_irrefl _)
  · -- every other event consists of steps that are no requests
    obtain ⟨-, hsteps⟩ := refines_netStep (G := fun _ _ => False)
      (fun p hp => hsocks ⟨p, hp⟩) hs.1 h
    have hall := Transition.inv_reflTransGen
      (I := fun t : Proto => LockInv t ∧
        (s.proto.client.lockRemovals < t.client.lockRemovals → Over t))
      (fun t t' ht hstep => ⟨ht.1.step (hstep.mono fun _ _ hc => hc.elim), fun hlt' => by
        rcases Nat.lt_or_ge t.client.lockRemovals t'.client.lockRemovals with h1 | h1
        · exact ht.1.removal hstep h1
        · exact (ht.2 (lt_of_lt_of_le hlt' h1)).step ht.1 hstep⟩)
      hsteps ⟨hs.2, fun hc => absurd hc (lt_irrefl _)⟩
    exact pageOver_of_over (hall.2 hlt)

/-- **The lock is released when the page is over.**  In every run in which the client takes
URL requests only while the lock file does not exist, every event that removes the lock
file leaves the server in normal mode with every URL handled; and so does the end of the
session. -/
theorem page_lock_release (S : Setup κ) (s0 : Network κ) (h0 : s0.Fresh S) (evs : List NetEvent)
    (hG : Transition.Along (netStep S) LockGuard s0 evs) :
    Transition.Along (netStep S)
      (fun s _ s' => s.client.ep.lockRemovals < s'.client.ep.lockRemovals → PageOver s') s0 evs ∧
    ∀ s, Transition.run (netStep S) s0 evs = some s →
      ∀ e, endSession (packetCodec S.toServer) s.client.ep = some e →
        s.client.ep.lockRemovals < e.lockRemovals → PageOver s := by
  have hstart : Channels S s0 ∧ LockInv s0.proto :=
    ⟨h0.channels, by rw [h0.proto]; exact lockInv_init⟩
  refine ⟨Transition.along_of_inv (G := LockGuard)
    (I := fun s => Channels S s ∧ LockInv s.proto)
    (fun _ _ _ hi hg h => lock_netStep hi hg h) hG hstart, ?_⟩
  intro s hrun e he hlt
  have hs := Transition.inv_run_of_along (G := LockGuard)
    (I := fun s => Channels S s ∧ LockInv s.proto)
    (fun _ _ _ hi hg h => (lock_netStep hi hg h).1) hG hrun hstart
  obtain ⟨e1, h1, h2⟩ := Option.bind_eq_some_iff.mp he
  obtain ⟨pkt, -, rfl⟩ := Option.map_eq_some_iff.mp h1
  -- the lock goes only if the server was in normal mode first
  have hflag : s.client.ep.g.serverEnteringNormal = true := by
    unfold switchToNormal at h2
    dsimp only at h2
    split at h2
    · assumption
    · rw [← Option.some.inj h2] at hlt
      exact absurd hlt (lt_irrefl _)
  exact pageOver_of_over (hs.2.over (Or.inl hflag))

/-- One page: the client asks for it, the server handles the request, sends some data and goes
back to normal mode, then the client does.  At each end the first pass of the loop only notices
that there is something to send. -/
def onePage : List NetEvent :=
  [.socks (urlRequest 97), .slot .client (shutSlot 50000), .slot .client (openSlot 100000),
    .netInput .server 552, .parse .server 0 fun _ => 0,
    .data .server 0 (94 :: List.replicate 100 0), .slot .server (shutSlot 150000),
    .slot .server (openSlot 200000), .slot .server (openSlot 4000000),
    .slot .server (openSlot 4100000), .slot .client (openSlot 5000000),
    .slot .client (openSlot 5100000)]

theorem lockGuard_onePage (rest : List NetEvent) (h : ∀ p, NetEvent.socks p ∉ rest) :
    Transition.Along (netStep (plainSetup noTables)) LockGuard plainStart (onePage ++ rest) := by
  refine fun s _ => ⟨?_, Transition.along_of_forall ?_ s⟩
  · intro p hp _ _
    rfl
  · rintro ev hev t t' p rfl
    rcases List.mem_append.mp hev with hev | hev
    · simp at hev
    · exact absurd hev (h p)

/-- In a single page the lock is removed when the server's `NORMAL` arrives, behind the data and
its padding. -/
theorem page_lock_release_onePage :
    ∃ s s', Transition.run (netStep (plainSetup noTables)) plainStart
        (onePage ++ [.netInput .client 576, .parse .client 0 fun _ => 0,
          .parse .client 0 fun _ => 0]) = some s ∧
      netStep (plainSetup noTables) s (.parse .client 0 fun _ => 0) = some s' ∧
      s.client.ep.lockRemovals < s'.client.ep.lockRemovals ∧ PageOver s' := by
  refine Transition.exists_run_step_and (by decide +kernel) fun hs hs' hlt => ?_
  have hguard : Transition.Along (netStep (plainSetup noTables)) LockGuard plainStart
      ((onePage ++ [.netInput .client 576, .parse .client 0 fun _ => 0,
        .parse .client 0 fun _ => 0]) ++ [.parse .client 0 fun _ => 0]) := by
    rw [List.append_assoc]
    exact lockGuard_onePage _ (by simp)
  have hall := (page_lock_release _ plainStart (fresh_plainStart noTables) _ hguard).1
  exact hall.last hs hs' hlt

/-- The page, and a second one that the client asks for while the server's `NORMAL` is on its
way. -/
def lateNormal : List NetEvent :=
  onePage ++ [.socks (urlRequest 98), .netInput .client 576, .parse .client 0 fun _ => 0,
    .parse .client 0 fun _ => 0, .parse .client 0 fun _ => 0, .slot .client (shutSlot 5900000),
    .slot .client (openSlot 6000000), .slot .client (openSlot 9000000)]

/-- **A lock released too early.**  The `NORMAL` of the first page sets `server_entering_normal`
in the second one, and the client's next switch to normal mode removes the lock although the
server has not seen the second URL.  Every slot of the run writes only if its loop had asked for
the connection. -/
theorem page_lock_released_early :
    ∃ s s', Transition.run (netStep (plainSetup noTables)) plainStart lateNormal = some s ∧
      netStep (plainSetup noTables) s (.slot .client (openSlot 9100000)) = some s' ∧
      Transition.Along (netStep (plainSetup noTables)) (fun s ev _ => ev.asked s = true) plainStart
        (lateNormal ++ [.slot .client (openSlot 9100000)]) ∧
      s.client.ep.lockRemovals < s'.client.ep.lockRemovals ∧
      Msg.url [98, space] ∈ s'.inFlight .client :=
  Transition.exists_run_step (by decide +kernel)

end CSBuFLO
