/-
# The two ends agree on the page

The server learns the page's URL and the load event from the client's notifications.  The
invariant: if the notifications under way to the server were applied to what the server
knows of the page, the result would be what the client knows.  When nothing is under way,
the two are equal.
-/
import CSBuFLO.Protocol

namespace CSBuFLO

/-! ## What an end knows of the page -/

/-- URL, cluster and load flag. -/
structure PageInfo where
  url : List UInt8
  clusterId : ℤ
  onload : Bool
  deriving DecidableEq

/-- What an end knows of the page. -/
def Ctl.pageInfo (k : Ctl) : PageInfo := ⟨k.url, k.clusterId, k.onload⟩

/-- What a notification says about the page. -/
def PageInfo.apply (T : Tables) (v : PageInfo) : Msg → PageInfo
  | .onload => { v with onload := true }
  | .url url => ⟨url, hmLookup T.clusters url, false⟩
  | _ => v

/-- What the server will know once everything under way has arrived. -/
def PageInfo.applyAll (T : Tables) (v : PageInfo) (ms : List Msg) : PageInfo :=
  ms.foldl (PageInfo.apply T) v

theorem PageInfo.applyAll_append (T : Tables) (v : PageInfo) (ms ms' : List Msg) :
    v.applyAll T (ms ++ ms') = (v.applyAll T ms).applyAll T ms' :=
  List.foldl_append

/-- A received notification does to the page info what it says. -/
theorem pageInfo_receive (T : Tables) (k : Ctl) (m : Msg) :
    (k.receive T m).pageInfo = k.pageInfo.apply T m := by
  cases m with
  | url u =>
    unfold Ctl.receive
    dsimp only
    split <;> rfl
  | normal =>
    unfold Ctl.receive
    dsimp only
    split <;> rfl
  | _ => rfl

/-- Control steps leave the page info alone, and what they queue says nothing about it. -/
theorem pageInfo_ctlStep {r : Role} {k k' : Ctl} (h : CtlStep r k k') (T : Tables) :
    k'.pageInfo = k.pageInfo ∧
      ∃ ms, k'.queued = k.queued ++ ms ∧ ∀ v : PageInfo, v.applyAll T ms = v := by
  cases h with
  | tend => exact ⟨rfl, [.tend], rfl, fun _ => rfl⟩
  | toCsbuflo => exact ⟨rfl, [], (List.append_nil _).symm, fun _ => rfl⟩
  | toNormal =>
    cases r with
    | client =>
      unfold Ctl.enterNormal Ctl.releaseLock
      dsimp only
      split <;> exact ⟨rfl, [], (List.append_nil _).symm, fun _ => rfl⟩
    | server => exact ⟨rfl, [.normal], rfl, fun _ => rfl⟩
  | paddingdone => exact ⟨rfl, [.paddingdone], rfl, fun _ => rfl⟩

/-- A control request changes the client's page info as the notification it queues says. -/
theorem pageInfo_socks (T : Tables) (k : Ctl) (p : ℕ → UInt8) :
    ∃ ms, (k.socks T p).queued = k.queued ++ ms ∧
      (k.socks T p).pageInfo = k.pageInfo.applyAll T ms := by
  unfold Ctl.socks
  split_ifs
  · exact ⟨[.onload], rfl, rfl⟩
  · exact ⟨[.unload], rfl, rfl⟩
  · exact ⟨[.url (setUrl p 3)], rfl, rfl⟩
  · exact ⟨[], (List.append_nil _).symm, rfl⟩

/-- What the server sends says nothing about the page. -/
theorem apply_of_fromServer (T : Tables) (v : PageInfo) {m : Msg} (h : m.fromServer = true) :
    v.apply T m = v := by
  cases m <;> first | rfl | cases h

/-! ## The invariant -/

/-- The server is behind by exactly what is under way. -/
structure Agrees (T : Tables) (s : Proto) : Prop where
  fromServer : ∀ m ∈ s.server.queued, m.fromServer = true
  agrees : s.server.pageInfo.applyAll T s.client.queued = s.client.pageInfo

theorem Agrees.step {T : Tables} {G : Ctl → (ℕ → UInt8) → Prop} {s s' : Proto}
    (hs : Agrees T s) (h : ProtoStep T G s s') : Agrees T s' := by
  cases h with
  | client h =>
    obtain ⟨hinfo, ms, hq, hneutral⟩ := pageInfo_ctlStep h T
    refine ⟨hs.fromServer, ?_⟩
    rw [hinfo, hq, PageInfo.applyAll_append, hneutral]
    exact hs.agrees
  | server h =>
    refine ⟨fromServer_ctlStep h hs.fromServer, ?_⟩
    rw [(pageInfo_ctlStep h T).1]
    exact hs.agrees
  | socks p _ =>
    obtain ⟨ms, hq, hinfo⟩ := pageInfo_socks T s.client p
    refine ⟨hs.fromServer, ?_⟩
    dsimp only
    rw [hinfo, hq, PageInfo.applyAll_append, hs.agrees]
  | @toServer m ms h =>
    refine ⟨fromServer_receive T s.server m hs.fromServer, ?_⟩
    have hagrees := hs.agrees
    rw [h] at hagrees
    dsimp only
    rw [pageInfo_receive]
    exact hagrees
  | @toClient m ms h =>
    have hm := hs.fromServer m (h ▸ List.mem_cons_self)
    refine ⟨fun m' hm' => hs.fromServer m' (h ▸ List.mem_cons_of_mem m hm'), ?_⟩
    have hqueued : (s.client.receive T m).queued = s.client.queued := by
      unfold Ctl.receive
      cases m with
      | url => cases hm
      | normal =>
        dsimp only
        split <;> rfl
      | _ => rfl
    dsimp only
    rw [hqueued, pageInfo_receive, apply_of_fromServer T _ hm]
    exact hs.agrees

variable {κ : Type}

/-- A URL request that is taken queues one packet, whose length does not depend on the
URL. -/
theorem outputLen_startClientPage {σ β : Type} {c : Codec σ β} {T : Tables} {p : ℕ → UInt8}
    {e e' : Endpoint σ β} (h : startClientPage c T p e = some e') :
    e'.pkt.outputLen = e.pkt.outputLen + wireLength c.blockSize c.macLen 0 305 := by
  obtain ⟨e1, h1, rfl⟩ := Option.map_eq_some_iff.mp h
  obtain ⟨pkt, hpkt, rfl⟩ := Option.map_eq_some_iff.mp h1
  have hlen := outputLen_packetSend hpkt
  rw [length_urlPayload (storedUrl_setUrl p 3) (c.length_arc4random _ _)] at hlen
  exact hlen

/-- **Page state agreement.**  In every reachable state in which all the client's
notifications have been handled, the server has the client's URL, cluster and load flag;
and a URL request that is taken queues a packet of the same length for every URL. -/
theorem page_state_agreement (S : Setup κ) :
    (∀ s : Network κ, Reachable S s → s.inFlight .client = [] →
      s.server.ep.g.url = s.client.ep.g.url ∧
      s.server.ep.g.urllen = s.client.ep.g.urllen ∧
      s.server.ep.g.clusterId = s.client.ep.g.clusterId ∧
      s.server.ep.g.onloadFlag = s.client.ep.g.onloadFlag) ∧
    ∀ (p : ℕ → UInt8) (e e' : Endpoint (SendState κ) UInt8), p 1 = 6 → e.g.stmode = .normal →
      socksControl (packetCodec S.toServer) S.tables p e = some e' →
      e'.pkt.outputLen = e.pkt.outputLen +
        wireLength S.toServer.cipher.blockSize S.toServer.macLen 0 305 := by
  constructor
  · intro s hs hempty
    have hinv : Agrees S.tables s.proto :=
      inv_network ⟨by simp, rfl⟩ (fun _ _ h => h.step) hs
    have hagrees := hinv.agrees
    rw [Network.queued_client_proto, hempty] at hagrees
    have hurl := congrArg PageInfo.url hagrees
    exact ⟨hurl, congrArg List.length hurl, congrArg PageInfo.clusterId hagrees,
      congrArg PageInfo.onload hagrees⟩
  · intro p e e' hcmd hmode h
    unfold socksControl at h
    rw [if_neg (by rw [hcmd]; decide), if_neg (by rw [hcmd]; decide), if_pos hcmd,
      if_pos hmode] at h
    exact outputLen_startClientPage h

/-- A page request and a load event: two slots of the client write the notifications and
padding, the server reads and handles them. -/
def agreementEvents : List NetEvent :=
  [.socks (urlRequest 97), .slot .client (openSlot 1000), .socks (fun _ => 4),
    .slot .client (openSlot 2000), .netInput .server 576, .parse .server 0 fun _ => 0,
    .parse .server 0 fun _ => 0, .parse .server 0 fun _ => 0]

theorem page_state_agreement_onload :
    ∃ s, Transition.run (netStep (plainSetup noTables)) plainStart agreementEvents = some s ∧
      s.inFlight .client = [] ∧ s.client.ep.g.onloadFlag = true ∧
      s.server.ep.g.url = s.client.ep.g.url ∧
      s.server.ep.g.onloadFlag = s.client.ep.g.onloadFlag := by
  obtain ⟨s, hs, hempty, hload⟩ : ∃ s, Transition.run (netStep (plainSetup noTables)) plainStart
      agreementEvents = some s ∧ s.inFlight .client = [] ∧ s.client.ep.g.onloadFlag = true := by
    decide +kernel
  have h := (page_state_agreement (plainSetup noTables)).1 s (reachable_of_run hs) hempty
  exact ⟨s, hs, hempty, hload, h.1, h.2.2.2⟩

end CSBuFLO
