/-
# Handling notifications

`packet_read_poll_seqnr` handles the notifications in two `switch` statements, one for each version
of the protocol.  Most cases are the same in both.  A `NOTIFY_URL` makes the server take over the
URL of the page with `set_url`, which is not told how long the message is:

* SSH2 skips the length field in front of the URL and reads up to 256 bytes behind it.
  `server_url_of_payload_iff` says for which messages these are bytes of the message;
* SSH1 does not skip the length field, nor does it look the URL up or change the mode.
  `versions_agree_iff` says that it handles all the other notifications as SSH2 does.
-/
import CSBuFLO.Drain
import CSBuFLO.RateChanges
import CSBuFLO.UrlMemory

namespace CSBuFLO

variable {σ β : Type}

/-! ## The URL of a page comes from the message -/

/-- The URL and the cluster of the page that is started. -/
theorem page_startServerPage {c : Codec σ β} {T : Tables} {payload : List UInt8}
    {beyond : ℕ → UInt8} {e e' : Endpoint σ β}
    (h : startServerPage c T payload beyond e = some e') :
    e'.g.url = setUrl (memory payload.tail beyond) 4 ∧
      e'.g.clusterId = hmLookup T.clusters (setUrl (memory payload.tail beyond) 4) := by
  unfold startServerPage setClusterId at h
  dsimp only at h
  split at h
  · obtain ⟨pkt, -, rfl⟩ := Option.map_eq_some_iff.mp h
    rw [setFirstSent_eq]
    exact ⟨rfl, rfl⟩
  · rw [← Option.some.inj h]
    exact ⟨rfl, rfl⟩

theorem exists_startServerPage {c : Codec σ β} (T : Tables) (payload : List UInt8)
    (beyond : ℕ → UInt8) {e : Endpoint σ β} (h : c.Room 1 e.pkt.snd) :
    ∃ e', startServerPage c T payload beyond e = some e' := by
  obtain ⟨⟨bs, s⟩, hsend, -⟩ := h 4 0 (notifyPayload .urlack (c.arc4random e.pkt.snd 4).1)
  unfold startServerPage packetSendNotify packetSend Endpoint.withPkt
  dsimp only
  split
  · rw [hsend]
    exact ⟨_, rfl⟩
  · exact ⟨_, rfl⟩

/-- Two servers that get the same message, the first of them in the state `e`, end with the same
URL and cluster.  `body` is the message without its type. -/
def SameUrl (c : Codec σ β) (T : Tables) (body : List UInt8) (e : Endpoint σ β) : Prop :=
  ∀ curTs curTs' beyond beyond' e' e1 e1',
    packetReadPollSeqnr c T curTs (Notify.url.msg :: body) beyond e = some e1 →
    packetReadPollSeqnr c T curTs' (Notify.url.msg :: body) beyond' e' = some e1' →
      e1.g.url = e1'.g.url ∧ e1.g.url.length = e1'.g.url.length ∧
        e1.g.clusterId = e1'.g.clusterId

/-- **The server takes the page URL from the message** if there is a space behind the length
field, or the message has 256 bytes there; and only then, for a server that can still send a
packet under its keys. -/
theorem server_url_of_payload_iff (c : Codec σ β) (T : Tables) (body : List UInt8)
    (e : Endpoint σ β) :
    (space ∈ body.drop 4 ∨ 260 ≤ body.length → SameUrl c T body e) ∧
    (c.Room 1 e.pkt.snd → SameUrl c T body e → space ∈ body.drop 4 ∨ 260 ≤ body.length) := by
  constructor
  · intro hclosed curTs curTs' beyond beyond' e' e1 e1' h1 h1'
    have hends : UrlEnds 4 body := hclosed
    obtain ⟨hurl, hid⟩ := page_startServerPage h1
    obtain ⟨hurl', hid'⟩ := page_startServerPage h1'
    have hsame : setUrl (memory body beyond) 4 = setUrl (memory body beyond') 4 := by
      have happend := setUrl_append hends beyond' beyond []
      rwa [List.append_nil] at happend
    rw [List.tail_cons, hsame] at hurl hid
    exact ⟨hurl.trans hurl'.symm, congrArg List.length (hurl.trans hurl'.symm),
      hid.trans hid'.symm⟩
  · intro hroom hsame
    by_contra hopen
    have hends : ¬ UrlEnds 4 body := hopen
    obtain ⟨beyond, beyond', hne⟩ := exists_setUrl_ne hends
    obtain ⟨e1, h1⟩ := exists_startServerPage T (Notify.url.msg :: body) beyond' hroom
    obtain ⟨e1', h1'⟩ := exists_startServerPage T (Notify.url.msg :: body) beyond hroom
    have hurl := (hsame 0 0 beyond' beyond e e1 e1' h1 h1').1
    rw [(page_startServerPage h1).1, (page_startServerPage h1').1] at hurl
    exact hne hurl

/-- A message with the URL `a`, whatever memory follows; and one without a body, whose URL is not
determined. -/
theorem server_url_of_payload_plain :
    (∃ e1 e1', packetReadPollSeqnr plainCodec noTables 0 (urlPayload [97, space] []) (fun _ => 0)
        plainEndpoint = some e1 ∧
      packetReadPollSeqnr plainCodec noTables 1 (urlPayload [97, space] []) (fun _ => space)
        plainEndpoint = some e1' ∧ e1.g.url = e1'.g.url) ∧
    plainCodec.Room 1 plainEndpoint.pkt.snd ∧ ¬ SameUrl plainCodec noTables [] plainEndpoint := by
  have hroom : plainCodec.Room 1 plainEndpoint.pkt.snd := room_packetCodec _ (by decide)
  refine ⟨?_, hroom, ?_⟩
  · obtain ⟨e1, h1⟩ := exists_startServerPage noTables (urlPayload [97, space] []) (fun _ => 0)
      hroom
    obtain ⟨e1', h1'⟩ := exists_startServerPage noTables (urlPayload [97, space] [])
      (fun _ => space) hroom
    have hsame := (server_url_of_payload_iff plainCodec noTables (putU32 2 ++ [97, space])
      plainEndpoint).1 (by decide)
    exact ⟨e1, e1', h1, h1', (hsame 0 1 _ _ _ e1 e1' h1 h1').1⟩
  · intro hsame
    exact absurd ((server_url_of_payload_iff plainCodec noTables [] plainEndpoint).2 hroom hsame)
      (by decide)

/-- **A message without a body**: the URL is what the memory behind it holds. -/
theorem server_url_beyond_payload :
    ∃ e1 e1', packetReadPollSeqnr lengthCodec noTables 0 [Notify.url.msg] (fun _ => space)
        { pkt := { snd := () } } = some e1 ∧
      packetReadPollSeqnr lengthCodec noTables 0 [Notify.url.msg]
        (fun i => if i = 4 then 97 else space) { pkt := { snd := () } } = some e1' ∧
      e1.g.url = [space] ∧ e1'.g.url = [97, space] := by
  refine ⟨_, _, rfl, rfl, ?_, ?_⟩ <;> decide

/-! ## SSH1 -/

/-- The notification cases of `packet_read_poll_seqnr` for SSH1. -/
def handleNotify1 (n : Notify) (payload : List UInt8) (beyond : ℕ → UInt8) (e : Endpoint σ β) :
    Endpoint σ β :=
  match n with
  | .sync => e
  | .onload => { e with g := { e.g with onloadFlag := true } }
  | .unload => { e with g := { e.g with paddingdoneFlag := false, unloadFlag := true } }
  | .tend => { e with g := { e.g with transcriptEnd := true } }
  | .urlack => { e with g := { e.g with urlack := true } }
  | .normal =>
    if e.g.stmode = .normal then
      { e with
        g := { e.g with serverEnteringNormal := false }
        lockFile := false
        lockRemovals := e.lockRemovals + 1 }
    else { e with g := { e.g with serverEnteringNormal := true } }
  | .paddingdone => { e with g := { e.g with paddingdoneFlag := true } }
  | .url => { e with g := { e.g with
      onloadFlag := false
      transcriptEnd := false
      sentTend := false
      -- the length field is read as part of the URL
      url := setUrl (memory payload.tail beyond) 0 } }

/-- The message `packet_send_notify` builds. -/
def notification (n : Notify) (url random : List UInt8) : List UInt8 :=
  match n with
  | .url => urlPayload url random
  | n => notifyPayload n random

/-- What a notification can change of the shaping state. -/
structure PageState where
  url : List UInt8
  clusterId : ℤ
  stmode : StMode
  onloadFlag : Bool
  unloadFlag : Bool
  paddingdoneFlag : Bool
  transcriptEnd : Bool
  sentTend : Bool
  urlack : Bool
  receivedSofar : ℕ
  transPaddedRemaining : ℤ

/-- The part of the globals a notification can change. -/
def Globals.pageState (g : Globals) : PageState where
  url := g.url
  clusterId := g.clusterId
  stmode := g.stmode
  onloadFlag := g.onloadFlag
  unloadFlag := g.unloadFlag
  paddingdoneFlag := g.paddingdoneFlag
  transcriptEnd := g.transcriptEnd
  sentTend := g.sentTend
  urlack := g.urlack
  receivedSofar := g.receivedSofar
  transPaddedRemaining := g.transPaddedRemaining

/-- Both versions leave the same state, and both recover the URL of the sender. -/
def VersionsAgree (c : Codec σ β) (T : Tables) (n : Notify) (url random : List UInt8)
    (beyond beyond1 : ℕ → UInt8) (e : Endpoint σ β) : Prop :=
  ∃ e2, handleNotify c T n (notification n url random) beyond e = some e2 ∧
    (handleNotify1 n (notification n url random) beyond1 e).g.pageState = e2.g.pageState ∧
    (n = .url → e2.g.url = url ∧
      (handleNotify1 n (notification n url random) beyond1 e).g.url = url)

/-- The bytes of the length field of a URL. -/
theorem putU32_ne_space {n k : ℕ} (hn : n ≤ 256) (hne : n ≠ 32) (hk : k < 4) :
    (putU32 n).getD k 0 ≠ space := by
  have hall : ∀ n < 257, n ≠ 32 → ∀ k < 4, (putU32 n).getD k 0 ≠ space := by decide +kernel
  exact hall n (by omega) hne k hk

/-- The URL of a `NOTIFY_URL` message stands behind the length field. -/
theorem memory_urlPayload {url : List UInt8} (random : List UInt8) (beyond : ℕ → UInt8) {k : ℕ}
    (hk : k < url.length) :
    memory (urlPayload url random).tail beyond (4 + k) = url.get ⟨k, hk⟩ := by
  have hmem := memory_append_right (putU32 url.length) url random beyond hk
  rwa [length_putU32, List.append_assoc] at hmem

/-- The length field. -/
theorem memory_urlPayload_length (url random : List UInt8) (beyond : ℕ → UInt8) {k : ℕ}
    (hk : k < 4) :
    memory (urlPayload url random).tail beyond k = (putU32 url.length).getD k 0 := by
  have htail : (urlPayload url random).tail = putU32 url.length ++ (url ++ random) := rfl
  rw [htail, memory_of_lt (by rw [List.length_append, length_putU32]; omega),
    List.getD_append _ _ _ _ hk]

/-- **SSH1 never recovers the URL**: what it reads has another length. -/
theorem setUrl_lengthField {url : List UInt8} (hurl : StoredUrl url) (random : List UInt8)
    (beyond : ℕ → UInt8) : setUrl (memory (urlPayload url random).tail beyond) 0 ≠ url := by
  obtain ⟨body, rfl, hbody, hlen⟩ := hurl
  have hbytes : ∀ k (hk : k < (body ++ [space]).length),
      memory (urlPayload (body ++ [space]) random).tail beyond (4 + k) =
        (body ++ [space]).get ⟨k, hk⟩ := fun _ hk => memory_urlPayload random beyond hk
  have hlength : ∀ k < 4, memory (urlPayload (body ++ [space]) random).tail beyond k =
      (putU32 (body.length + 1)).getD k 0 := by
    intro k hk
    rw [memory_urlPayload_length _ random beyond hk, List.length_append, List.length_singleton]
  generalize memory (urlPayload (body ++ [space]) random).tail beyond = p at hbytes hlength ⊢
  -- before the space that ends the URL there is none, unless the length is that of a space
  have hbefore : body.length + 1 ≠ 32 → ∀ k < 4 + body.length, p k ≠ space := by
    intro hne k hk
    rcases Nat.lt_or_ge k 4 with hfield | hfield
    · rw [hlength k hfield]
      exact putU32_ne_space (by omega) hne hfield
    · obtain ⟨j, rfl⟩ := Nat.exists_eq_add_of_le hfield
      rw [hbytes j (by rw [List.length_append]; omega)]
      simp only [List.get_eq_getElem, List.getElem_append_left (show j < body.length by omega)]
      exact fun heq => hbody (heq ▸ List.getElem_mem _)
  have hspace : p (4 + body.length) = space := by
    rw [hbytes body.length (by simp)]
    simp
  intro heq
  have hsame := congrArg List.length heq
  unfold setUrl at hsame
  simp only [Nat.zero_add] at hsame
  split at hsame
  · rename_i hend
    rw [List.length_append, List.length_map, List.length_range, List.length_append] at hsame
    have hscan : urlScan p 255 0 = body.length := by simpa using hsame
    rw [hscan] at hend
    by_cases hne : body.length + 1 = 32
    · -- the fourth byte of the length field is a space: the copy ends there
      have hfield : p 3 = space := by
        rw [hlength 3 (by omega), hne]
        decide
      refine ne_space_of_lt_urlScan p (show 3 < urlScan p 255 0 by omega) ?_
      rwa [Nat.zero_add]
    · exact hbefore hne body.length (by omega) hend
  · rename_i hend
    rw [List.length_append, List.length_singleton] at hsame
    have hbody14 : body.length = 14 := by
      have : fallbackUrl.length = 15 := rfl
      omega
    refine hend ?_
    rw [urlScan_eq p (n := 4 + body.length) (by omega) (by rwa [Nat.zero_add])
      (fun k hk => by rw [Nat.zero_add]; exact hbefore (by omega) k hk)]
    exact hspace

/-- **Both versions handle a notification alike** exactly if it is not a URL. -/
theorem versions_agree_iff (c : Codec σ β) (T : Tables) (n : Notify) {url : List UInt8}
    (hurl : StoredUrl url) (random : List UInt8) (beyond beyond1 : ℕ → UInt8)
    (e : Endpoint σ β) : VersionsAgree c T n url random beyond beyond1 e ↔ n ≠ .url := by
  unfold VersionsAgree
  cases n with
  | url =>
    refine iff_of_false ?_ (fun hne => hne rfl)
    rintro ⟨e2, -, -, hrecovered⟩
    exact setUrl_lengthField hurl random beyond1 (hrecovered rfl).2
  | normal =>
    refine iff_of_true ?_ (by decide)
    unfold handleNotify handleNotify1
    dsimp only
    split
    · exact ⟨_, rfl, rfl, nofun⟩
    · exact ⟨_, rfl, rfl, nofun⟩
  | _ => exact iff_of_true ⟨_, rfl, rfl, nofun⟩ (by decide)

/-- The end of a transcript, for the URL `a`. -/
theorem versions_agree_tend :
    VersionsAgree lengthCodec noTables .tend [97, space] [1, 2, 3, 4] (fun _ => 0) (fun _ => 0)
      { pkt := { snd := () } } := by
  have hurl : StoredUrl [97, space] := ⟨[97], rfl, by decide, by decide⟩
  exact (versions_agree_iff lengthCodec noTables .tend hurl _ _ _ _).mpr (by decide)

/-- **The URL `a`**: SSH2 recovers it and starts a page in csbuflo mode, SSH1 makes it
`00 00 00 02 a` and stays in normal mode. -/
theorem versions_differ_url :
    ¬ VersionsAgree lengthCodec noTables .url [97, space] (List.replicate 298 0) (fun _ => 0)
      (fun _ => 0) { pkt := { snd := () } } := by
  rintro ⟨e2, -, -, hrecovered⟩
  have hread : (handleNotify1 .url (notification .url [97, space] (List.replicate 298 0))
      (fun _ => 0) ({ pkt := { snd := () } } : Endpoint Unit Unit)).g.url =
        [0, 0, 0, 2, 97, space] := by
    decide +kernel
  have hurl := (hrecovered rfl).2
  rw [hread] at hurl
  cases hurl

end CSBuFLO
