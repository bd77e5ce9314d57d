/-
# No transcript-end signal leaks into another page

Both ends count the pages they have started, and log the pages they started in transcript
mode and those in which they queued `TEND`.  The flags `transcript_end` and `sent_tend` are
reset at different times at the two ends, and the client can be several pages ahead of the
server.  The invariant `EndInv` relates the flags, the modes and both queues:

* while the server replays a page and has not queued its `TEND`, the client is still in
  that page and waits for it (`running`);
* a `TEND` under way to the client is the only one, and the client still waits for it
  (`flight`);
* among the URLs under way to the server only the last one can have a cluster, and then
  the client waits in that page (`pending`, `lastOnly`).
-/
import CSBuFLO.Protocol

namespace CSBuFLO

/-! ## URLs and `TEND`s in a queue -/

/-- A `NOTIFY_URL`. -/
def Msg.isUrl : Msg → Bool
  | .url _ => true
  | _ => false

/-- The number of URLs in a queue. -/
def urls (q : List Msg) : ℕ := q.countP Msg.isUrl

@[simp] theorem urls_nil : urls [] = 0 := rfl

@[simp] theorem urls_append (q q' : List Msg) : urls (q ++ q') = urls q + urls q' :=
  List.countP_append

@[simp] theorem urls_cons_url (u : List UInt8) (q : List Msg) :
    urls (.url u :: q) = urls q + 1 :=
  List.countP_cons_of_pos rfl

variable {m : Msg} {q : List Msg} {k : Ctl}

theorem urls_cons_of_not_url (q : List Msg) (hm : m.isUrl = false) : urls (m :: q) = urls q :=
  List.countP_cons_of_neg (by rw [hm]; decide)

theorem urls_append_of_not_url (q : List Msg) (hm : m.isUrl = false) :
    urls (q ++ [m]) = urls q := by
  rw [urls_append, urls_cons_of_not_url [] hm, urls_nil, Nat.add_zero]

theorem urls_pos_of_mem {u : List UInt8} (h : Msg.url u ∈ q) : 0 < urls q :=
  List.countP_pos_iff.mpr ⟨_, h, rfl⟩

/-- Only the last URL of the queue may have a cluster. -/
def LastOnly (T : Tables) : List Msg → Prop
  | [] => True
  | .url u :: q => (hmLookup T.clusters u ≠ -1 → urls q = 0) ∧ LastOnly T q
  | _ :: q => LastOnly T q

theorem lastOnly_cons_of_not_url {T : Tables} (hm : m.isUrl = false) :
    LastOnly T (m :: q) ↔ LastOnly T q := by
  cases m with
  | url => cases hm
  | _ => rfl

theorem LastOnly.append_of_not_url {T : Tables} (h : LastOnly T q) (hm : m.isUrl = false) :
    LastOnly T (q ++ [m]) := by
  induction q with
  | nil => exact (lastOnly_cons_of_not_url hm).mpr trivial
  | cons m' q ih =>
    cases m' with
    | url u =>
      refine ⟨fun hu => ?_, ih h.2⟩
      exact (urls_append_of_not_url q hm).trans (h.1 hu)
    | _ => exact ih h

/-- After URLs without a cluster any URL can follow. -/
theorem lastOnly_append_url {T : Tables} (u : List UInt8)
    (h : ∀ u, Msg.url u ∈ q → hmLookup T.clusters u = -1) : LastOnly T (q ++ [.url u]) := by
  induction q with
  | nil => exact ⟨fun _ => rfl, trivial⟩
  | cons m q ih =>
    have htail := ih fun u hu => h u (List.mem_cons_of_mem m hu)
    cases m with
    | url u' => exact ⟨fun hc => absurd (h u' List.mem_cons_self) hc, htail⟩
    | _ => exact htail

/-- The `TEND`s in a queue belong to logged pages, if the receiver's page is `page`. -/
def TendPages (log : List ℕ) : ℕ → List Msg → Prop
  | _, [] => True
  | page, .url _ :: q => TendPages log (page + 1) q
  | page, .tend :: q => page ∈ log ∧ TendPages log page q
  | page, _ :: q => TendPages log page q

theorem TendPages.mono {log log' : List ℕ} (hsub : ∀ n ∈ log, n ∈ log') {page : ℕ}
    (h : TendPages log page q) : TendPages log' page q := by
  induction q generalizing page with
  | nil => trivial
  | cons m q ih =>
    cases m with
    | tend => exact ⟨hsub _ h.1, ih h.2⟩
    | _ => exact ih h

theorem TendPages.append {log : List ℕ} {page : ℕ} (h : TendPages log page q)
    (hm : m = .tend → page + urls q ∈ log) : TendPages log page (q ++ [m]) := by
  induction q generalizing page with
  | nil =>
    cases m with
    | tend => exact ⟨hm rfl, trivial⟩
    | _ => trivial
  | cons m' q ih =>
    cases m' with
    | url u =>
      refine ih h fun he => ?_
      have hlog := hm he
      rwa [urls_cons_url, show page + (urls q + 1) = page + 1 + urls q by omega] at hlog
    | tend => exact ⟨h.1, ih h.2 hm⟩
    | _ => exact ih h hm

theorem TendPages.tail {log : List ℕ} {page : ℕ} (h : TendPages log page (m :: q))
    (hm : m.isUrl = false) : TendPages log page q ∧ (m = .tend → page ∈ log) := by
  cases m with
  | url => cases hm
  | tend => exact ⟨h.2, fun _ => h.1⟩
  | _ => exact ⟨h, fun he => by cases he⟩

/-! ## The log of one end -/

/-- The log of an end: `TEND` is queued once per page, in pages started in transcript mode. -/
structure PageLog (k : Ctl) : Prop where
  le : ∀ n ∈ k.tends, n ≤ k.page
  nodup : k.tends.Nodup
  fresh : k.sentTend = false → k.page ∉ k.tends
  transcript : k.stmode = .supertrace → k.page ∈ k.transcripts
  subset : ∀ n ∈ k.tends, n ∈ k.transcripts

theorem PageLog.startPage (h : PageLog k) (T : Tables) (u : List UInt8) :
    PageLog (k.startPage T u) := by
  refine ⟨fun n hn => Nat.le_succ_of_le (h.le n hn), h.nodup, fun _ hmem => ?_, fun hmode => ?_,
    fun n hn => ?_⟩
  · have := h.le _ hmem
    simp only [Ctl.startPage] at this
    omega
  · unfold Ctl.startPage at hmode ⊢
    dsimp only at hmode ⊢
    split at hmode
    · rename_i hid
      rw [if_pos hid]
      exact List.mem_cons_self
    · cases hmode
  · have hold := h.subset n hn
    unfold Ctl.startPage
    dsimp only
    split
    · exact List.mem_cons_of_mem _ hold
    · exact hold

theorem PageLog.ctlStep {r : Role} {k' : Ctl} (h : PageLog k) (hstep : CtlStep r k k') :
    PageLog k' := by
  cases hstep with
  | tend hmode hsent =>
    refine ⟨?_, List.nodup_cons.mpr ⟨h.fresh hsent, h.nodup⟩, fun hc => (by cases hc),
      h.transcript, ?_⟩
    · intro n hn
      rcases List.mem_cons.mp hn with rfl | hn
      · exact le_refl _
      · exact h.le n hn
    · intro n hn
      rcases List.mem_cons.mp hn with rfl | hn
      · exact h.transcript hmode
      · exact h.subset n hn
  | toCsbuflo => exact ⟨h.le, h.nodup, h.fresh, fun hc => (by cases hc), h.subset⟩
  | toNormal =>
    cases r with
    | client =>
      unfold Ctl.enterNormal Ctl.releaseLock
      dsimp only
      split <;> exact ⟨h.le, h.nodup, h.fresh, fun hc => (by cases hc), h.subset⟩
    | server => exact ⟨h.le, h.nodup, h.fresh, fun hc => (by cases hc), h.subset⟩
  | paddingdone => exact ⟨h.le, h.nodup, h.fresh, h.transcript, h.subset⟩

/-! ## Notifications that start no page -/

/-- Two views that agree on the page: mode, page number, logs and own `TEND`. -/
structure SamePage (k k' : Ctl) : Prop where
  stmode : k'.stmode = k.stmode
  page : k'.page = k.page
  transcripts : k'.transcripts = k.transcripts
  tends : k'.tends = k.tends
  sentTend : k'.sentTend = k.sentTend

theorem PageLog.of_samePage {k' : Ctl} (h : PageLog k) (hs : SamePage k k') : PageLog k' := by
  obtain ⟨h1, h2, h3, h4, h5⟩ := hs
  refine ⟨?_, ?_, ?_, ?_, ?_⟩
  · rw [h4, h2]; exact h.le
  · rw [h4]; exact h.nodup
  · rw [h5, h2, h4]; exact h.fresh
  · rw [h1, h2, h3]; exact h.transcript
  · rw [h4, h3]; exact h.subset

/-- A notification other than a URL at most sets the end-of-transcript flag. -/
theorem receive_of_not_url (T : Tables) (k : Ctl) (hm : m.isUrl = false) :
    SamePage k (k.receive T m) ∧ (k.receive T m).queued = k.queued ∧
      (k.receive T m).transcriptEnd = (k.transcriptEnd || decide (m = .tend)) := by
  cases m with
  | url => cases hm
  | normal =>
    unfold Ctl.receive
    dsimp only
    split <;> exact ⟨⟨rfl, rfl, rfl, rfl, rfl⟩, rfl, by simp⟩
  | tend => exact ⟨⟨rfl, rfl, rfl, rfl, rfl⟩, rfl, by simp [Ctl.receive]⟩
  | _ => exact ⟨⟨rfl, rfl, rfl, rfl, rfl⟩, rfl, by simp [Ctl.receive]⟩

theorem not_isUrl_of_fromServer (h : m.fromServer = true) : m.isUrl = false := by
  cases m <;> first | rfl | cases h

/-! ## The invariant -/

/-- The client replays its page and waits for the server's `TEND`, which is not under way. -/
structure Waits (s : Proto) : Prop where
  stmode : s.client.stmode = .supertrace
  transcriptEnd : s.client.transcriptEnd = false
  not_mem : Msg.tend ∉ s.server.queued

/-- The one `TEND` under way to the client is the server's last one, of the client's page. -/
structure Closing (s : Proto) : Prop where
  stmode : s.client.stmode = .supertrace
  transcriptEnd : s.client.transcriptEnd = false
  urls_eq : urls s.client.queued = 0
  count_eq : s.server.queued.count .tend = 1
  head_eq : s.server.tends.head? = some s.server.page

/-- The invariant. -/
structure EndInv (T : Tables) (s : Proto) : Prop where
  fromServer : ∀ m ∈ s.server.queued, m.fromServer = true
  clientLog : PageLog s.client
  serverLog : PageLog s.server
  pages : s.client.page = s.server.page + urls s.client.queued
  tendPages : TendPages s.client.tends s.server.page s.client.queued
  serverEnd : s.server.transcriptEnd = true → s.server.page ∈ s.client.tends
  clientEnd : s.client.transcriptEnd = true → s.client.page ∈ s.server.tends
  running : s.server.stmode = .supertrace → s.server.sentTend = false →
    Waits s ∧ urls s.client.queued = 0
  flight : Msg.tend ∈ s.server.queued → Closing s
  lastOnly : LastOnly T s.client.queued
  pending : ∀ u, Msg.url u ∈ s.client.queued → hmLookup T.clusters u ≠ -1 → Waits s

section Steps

variable {T : Tables} {s : Proto}

/-- What a control step of the client queues: nothing, or one notification that is no URL,
and a `TEND` only together with its log entry. -/
theorem queued_client_ctlStep {k' : Ctl} (h : CtlStep .client k k') :
    (k'.queued = k.queued ∧ k'.tends = k.tends ∨
      ∃ m, k'.queued = k.queued ++ [m] ∧ m.isUrl = false ∧ (m = .tend → k.page ∈ k'.tends) ∧
        ∀ n ∈ k.tends, n ∈ k'.tends) ∧
    k'.page = k.page ∧ k'.transcriptEnd = k.transcriptEnd ∧
    (k.transcriptEnd = false → k.stmode = .supertrace → k'.stmode = .supertrace) := by
  cases h with
  | tend hmode =>
    exact ⟨Or.inr ⟨.tend, rfl, rfl, fun _ => List.mem_cons_self,
      fun n hn => List.mem_cons_of_mem _ hn⟩, rfl, rfl, fun _ _ => hmode⟩
  | toCsbuflo _ htend =>
    refine ⟨Or.inl ⟨rfl, rfl⟩, rfl, rfl, fun hend => ?_⟩
    rw [htend] at hend
    cases hend
  | toNormal h =>
    have hfields : (k.enterNormal .client).queued = k.queued ∧
        (k.enterNormal .client).tends = k.tends ∧ (k.enterNormal .client).page = k.page ∧
        (k.enterNormal .client).transcriptEnd = k.transcriptEnd := by
      unfold Ctl.enterNormal Ctl.releaseLock
      dsimp only
      split <;> exact ⟨rfl, rfl, rfl, rfl⟩
    refine ⟨Or.inl ⟨hfields.1, hfields.2.1⟩, hfields.2.2.1, hfields.2.2.2, fun hend hmode => ?_⟩
    rcases h with ⟨-, htend, -⟩ | hcs
    · rw [htend] at hend; cases hend
    · rw [hcs] at hmode; cases hmode
  | paddingdone =>
    exact ⟨Or.inr ⟨.paddingdone, rfl, rfl, fun hc => (by cases hc), fun n hn => hn⟩, rfl, rfl,
      fun _ hmode => hmode⟩

/-- A control step of the client keeps the invariant. -/
theorem EndInv.client (hs : EndInv T s) (h : CtlStep .client s.client k) :
    EndInv T { s with client := k } := by
  obtain ⟨hq, hpage, hend, hmode⟩ := queued_client_ctlStep h
  have hwaits : Waits s → Waits { s with client := k } := fun hw =>
    ⟨hmode hw.transcriptEnd hw.stmode, hend.trans hw.transcriptEnd, hw.not_mem⟩
  -- the queue and the log grow together
  obtain ⟨hurls, htends, hlabels, hlast, hmem⟩ : urls k.queued = urls s.client.queued ∧
      (∀ n ∈ s.client.tends, n ∈ k.tends) ∧ TendPages k.tends s.server.page k.queued ∧
      LastOnly T k.queued ∧ ∀ u, Msg.url u ∈ k.queued → Msg.url u ∈ s.client.queued := by
    rcases hq with ⟨hq, ht⟩ | ⟨m, hq, hm, htend, hsub⟩
    · rw [hq, ht]
      exact ⟨rfl, fun _ h => h, hs.tendPages, hs.lastOnly, fun _ h => h⟩
    · rw [hq]
      refine ⟨?_, hsub, ?_, hs.lastOnly.append_of_not_url hm, fun u hu => ?_⟩
      · exact urls_append_of_not_url _ hm
      · exact (hs.tendPages.mono hsub).append fun he => hs.pages ▸ htend he
      · rcases List.mem_append.mp hu with hu | hu
        · exact hu
        · rw [← List.mem_singleton.mp hu] at hm; cases hm
  constructor
  case fromServer => exact hs.fromServer
  case clientLog => exact hs.clientLog.ctlStep h
  case serverLog => exact hs.serverLog
  case pages => dsimp only; rw [hpage, hurls]; exact hs.pages
  case tendPages => exact hlabels
  case serverEnd => exact fun he => htends _ (hs.serverEnd he)
  case clientEnd => dsimp only; rw [hend, hpage]; exact hs.clientEnd
  case running =>
    intro hmode' hsent
    obtain ⟨hw, hu⟩ := hs.running hmode' hsent
    exact ⟨hwaits hw, hurls.trans hu⟩
  case flight =>
    intro hm
    obtain ⟨h1, h2, h3, h4, h5⟩ := hs.flight hm
    exact ⟨hmode h2 h1, hend.trans h2, hurls.trans h3, h4, h5⟩
  case lastOnly => exact hlast
  case pending => exact fun u hu hid => hwaits (hs.pending u (hmem u hu) hid)

/-- A control step of the server keeps the invariant. -/
theorem EndInv.server (hs : EndInv T s) (h : CtlStep .server s.server k) :
    EndInv T { s with server := k } := by
  have hfrom := fromServer_ctlStep h hs.fromServer
  have hlog := hs.serverLog.ctlStep h
  cases h with
  | tend hmode hsent =>
    obtain ⟨hw, hurls⟩ := hs.running hmode hsent
    constructor
    case fromServer => exact hfrom
    case clientLog => exact hs.clientLog
    case serverLog => exact hlog
    case pages => exact hs.pages
    case tendPages => exact hs.tendPages
    case serverEnd => exact hs.serverEnd
    case clientEnd => exact fun he => List.mem_cons_of_mem _ (hs.clientEnd he)
    case running => exact fun _ hc => by cases hc
    case flight =>
      refine fun _ => ⟨hw.stmode, hw.transcriptEnd, hurls, ?_, rfl⟩
      simp [Ctl.queue, List.count_append, List.count_eq_zero.mpr hw.not_mem]
    case lastOnly => exact hs.lastOnly
    case pending =>
      intro u hu _
      have := urls_pos_of_mem hu
      dsimp only at hu hurls this
      omega
  | toCsbuflo hmode htend hsent =>
    exact { hs with
      fromServer := hfrom
      serverLog := hlog
      running := fun hc => by cases hc
      flight := fun hm => ⟨(hs.flight hm).1, (hs.flight hm).2, (hs.flight hm).3, (hs.flight hm).4,
        (hs.flight hm).5⟩
      pending := fun u hu hid => ⟨(hs.pending u hu hid).1, (hs.pending u hu hid).2,
        (hs.pending u hu hid).3⟩ }
  | toNormal =>
    have hmem : Msg.tend ∈ s.server.queued ++ [Msg.normal] → Msg.tend ∈ s.server.queued := by
      simp
    exact { hs with
      fromServer := hfrom
      serverLog := hlog
      running := fun hc => by cases hc
      flight := fun hm => ⟨(hs.flight (hmem hm)).1, (hs.flight (hmem hm)).2,
        (hs.flight (hmem hm)).3, by
          simpa [Ctl.enterNormal, Ctl.queue, List.count_append] using (hs.flight (hmem hm)).4,
        (hs.flight (hmem hm)).5⟩
      pending := fun u hu hid => ⟨(hs.pending u hu hid).1, (hs.pending u hu hid).2,
        fun hm => (hs.pending u hu hid).3 (hmem hm)⟩ }
  | paddingdone hr => cases hr

/-- A request that starts no page only queues a notification that is no URL. -/
theorem EndInv.queue_client (hs : EndInv T s) (hk : SamePage s.client k)
    (hend : k.transcriptEnd = s.client.transcriptEnd) (hq : k.queued = s.client.queued ++ [m])
    (hm : m.isUrl = false) (ht : m ≠ .tend) : EndInv T { s with client := k } := by
  have hwaits : Waits s → Waits { s with client := k } := fun hw =>
    ⟨hk.stmode.trans hw.stmode, hend.trans hw.transcriptEnd, hw.not_mem⟩
  have hurls : urls k.queued = urls s.client.queued := by
    rw [hq, urls_append_of_not_url _ hm]
  constructor
  case fromServer => exact hs.fromServer
  case clientLog => exact hs.clientLog.of_samePage hk
  case serverLog => exact hs.serverLog
  case pages => dsimp only; rw [hk.page, hurls]; exact hs.pages
  case tendPages =>
    dsimp only
    rw [hk.tends, hq]
    exact hs.tendPages.append fun he => absurd he ht
  case serverEnd => dsimp only; rw [hk.tends]; exact hs.serverEnd
  case clientEnd => dsimp only; rw [hend, hk.page]; exact hs.clientEnd
  case running =>
    intro hmode hsent
    obtain ⟨hw, hu⟩ := hs.running hmode hsent
    exact ⟨hwaits hw, hurls.trans hu⟩
  case flight =>
    intro hf
    obtain ⟨h1, h2, h3, h4, h5⟩ := hs.flight hf
    exact ⟨hk.stmode.trans h1, hend.trans h2, hurls.trans h3, h4, h5⟩
  case lastOnly => dsimp only; rw [hq]; exact hs.lastOnly.append_of_not_url hm
  case pending =>
    intro u hu hid
    dsimp only at hu
    rw [hq] at hu
    rcases List.mem_append.mp hu with hu | hu
    · exact hwaits (hs.pending u hu hid)
    · rw [← List.mem_singleton.mp hu] at hm; cases hm

/-- A URL request is taken in normal mode only, so the client waits for nothing then. -/
theorem EndInv.startPage (hs : EndInv T s) (hmode : s.client.stmode = .normal) (u : List UInt8)
    (lock : Bool) :
    EndInv T { s with client :=
      { (s.client.startPage T u).queue (.url u) with lockFile := lock } } := by
  have hnot : ¬ Waits s := fun hw => by
    have := hw.stmode
    rw [hmode] at this
    cases this
  have hflight : Msg.tend ∉ s.server.queued := fun hm => by
    have := (hs.flight hm).stmode
    rw [hmode] at this
    cases this
  have hold : ∀ u, Msg.url u ∈ s.client.queued → hmLookup T.clusters u = -1 := fun u hu => by
    by_contra hid
    exact hnot (hs.pending u hu hid)
  have hlog := hs.clientLog.startPage T u
  constructor
  case fromServer => exact hs.fromServer
  case clientLog => exact ⟨hlog.le, hlog.nodup, hlog.fresh, hlog.transcript, hlog.subset⟩
  case serverLog => exact hs.serverLog
  case pages =>
    have := hs.pages
    simp only [Ctl.queue, Ctl.startPage, urls_append, urls_cons_url, urls_nil]
    omega
  case tendPages => exact hs.tendPages.append fun hc => by cases hc
  case serverEnd => exact hs.serverEnd
  case clientEnd => exact fun hc => by cases hc
  case running => exact fun h1 h2 => absurd (hs.running h1 h2).1 hnot
  case flight => exact fun hm => absurd hm hflight
  case lastOnly => exact lastOnly_append_url u hold
  case pending =>
    intro u' hu' hid
    rcases List.mem_append.mp hu' with hu' | hu'
    · exact absurd (hold u' hu') hid
    · obtain rfl : u' = u := Msg.url.inj (List.mem_singleton.mp hu')
      exact ⟨if_pos hid, rfl, hflight⟩

/-- A control request keeps the invariant. -/
theorem EndInv.socks (hs : EndInv T s) (p : ℕ → UInt8) :
    EndInv T { s with client := s.client.socks T p } := by
  unfold Ctl.socks
  split_ifs with h4 h5 h6
  · exact hs.queue_client (m := .onload) ⟨rfl, rfl, rfl, rfl, rfl⟩ rfl rfl rfl (by simp)
  · exact hs.queue_client (m := .unload) ⟨rfl, rfl, rfl, rfl, rfl⟩ rfl rfl rfl (by simp)
  · exact hs.startPage h6.2 (setUrl p 3) true
  · exact hs

/-- The next URL reaches the server and starts a page there. -/
theorem EndInv.startServerPage {u : List UInt8} {ms : List Msg} (hs : EndInv T s)
    (h : s.client.queued = .url u :: ms) :
    EndInv T ⟨{ s.client with queued := ms }, s.server.receive T (.url u)⟩ := by
  have hpages := hs.pages
  have hlabels := hs.tendPages
  have hlast := hs.lastOnly
  rw [h] at hpages hlabels hlast
  rw [urls_cons_url] at hpages
  -- the server's view, whether it acknowledges or not
  obtain ⟨hmem, hpage, hsent, hend, htends, hmode, hlog⟩ :
      (Msg.tend ∈ (s.server.receive T (.url u)).queued → Msg.tend ∈ s.server.queued) ∧
      (s.server.receive T (.url u)).page = s.server.page + 1 ∧
      (s.server.receive T (.url u)).sentTend = false ∧
      (s.server.receive T (.url u)).transcriptEnd = false ∧
      (s.server.receive T (.url u)).tends = s.server.tends ∧
      ((s.server.receive T (.url u)).stmode = .supertrace → hmLookup T.clusters u ≠ -1) ∧
      PageLog (s.server.receive T (.url u)) := by
    have hlog := hs.serverLog.startPage T u
    unfold Ctl.receive
    dsimp only
    split
    · rename_i hid
      exact ⟨by simp [Ctl.queue, Ctl.startPage], rfl, rfl, rfl, rfl, fun _ => hid,
        hlog.le, hlog.nodup, hlog.fresh, hlog.transcript, hlog.subset⟩
    · rename_i hid
      refine ⟨id, rfl, rfl, rfl, rfl, fun hmode => ?_, hlog⟩
      rw [Ctl.startPage, if_neg hid] at hmode
      cases hmode
  have hwaits : Waits s → Waits ⟨{ s.client with queued := ms }, s.server.receive T (.url u)⟩ :=
    fun hw => ⟨hw.stmode, hw.transcriptEnd, fun hm => hw.not_mem (hmem hm)⟩
  constructor
  case fromServer => exact fromServer_receive T s.server _ hs.fromServer
  case clientLog => exact hs.clientLog.of_samePage ⟨rfl, rfl, rfl, rfl, rfl⟩
  case serverLog => exact hlog
  case pages => dsimp only; rw [hpage]; omega
  case tendPages => dsimp only; rw [hpage]; exact hlabels
  case serverEnd => dsimp only; rw [hend]; exact fun hc => by cases hc
  case clientEnd => dsimp only; rw [htends]; exact hs.clientEnd
  case running =>
    intro hsuper _
    have hid := hmode hsuper
    exact ⟨hwaits (hs.pending u (h ▸ List.mem_cons_self) hid), hlast.1 hid⟩
  case flight =>
    intro hm
    have := (hs.flight (hmem hm)).urls_eq
    rw [h, urls_cons_url] at this
    omega
  case lastOnly => exact hlast.2
  case pending =>
    exact fun u' hu' hid => hwaits (hs.pending u' (h ▸ List.mem_cons_of_mem _ hu') hid)

/-- Another notification reaches the server. -/
theorem EndInv.notifyServer {ms : List Msg} (hs : EndInv T s) (h : s.client.queued = m :: ms)
    (hm : m.isUrl = false) : EndInv T ⟨{ s.client with queued := ms }, s.server.receive T m⟩ := by
  obtain ⟨hsame, hq, hend⟩ := receive_of_not_url T s.server hm
  have hurls : urls ms = urls s.client.queued := by rw [h, urls_cons_of_not_url ms hm]
  have hlabels := hs.tendPages
  have hlast := hs.lastOnly
  rw [h] at hlabels hlast
  obtain ⟨hlabels, htend⟩ := hlabels.tail hm
  have hwaits : Waits s → Waits ⟨{ s.client with queued := ms }, s.server.receive T m⟩ :=
    fun hw => ⟨hw.stmode, hw.transcriptEnd, by dsimp only; rw [hq]; exact hw.not_mem⟩
  constructor
  case fromServer => dsimp only; rw [hq]; exact hs.fromServer
  case clientLog => exact hs.clientLog.of_samePage ⟨rfl, rfl, rfl, rfl, rfl⟩
  case serverLog => exact hs.serverLog.of_samePage hsame
  case pages => dsimp only; rw [hsame.page, hurls]; exact hs.pages
  case tendPages => dsimp only; rw [hsame.page]; exact hlabels
  case serverEnd =>
    dsimp only
    rw [hsame.page, hend, Bool.or_eq_true, decide_eq_true_iff]
    rintro (he | he)
    · exact hs.serverEnd he
    · exact htend he
  case clientEnd => dsimp only; rw [hsame.tends]; exact hs.clientEnd
  case running =>
    dsimp only
    rw [hsame.stmode, hsame.sentTend]
    intro hmode hsent
    obtain ⟨hw, hu⟩ := hs.running hmode hsent
    exact ⟨hwaits hw, hurls.trans hu⟩
  case flight =>
    dsimp only
    rw [hq]
    intro hf
    obtain ⟨h1, h2, h3, h4, h5⟩ := hs.flight hf
    exact ⟨h1, h2, hurls.trans h3, hq ▸ h4, by dsimp only; rw [hsame.tends, hsame.page]; exact h5⟩
  case lastOnly => exact (lastOnly_cons_of_not_url hm).mp hlast
  case pending =>
    exact fun u hu hid => hwaits (hs.pending u (h ▸ List.mem_cons_of_mem _ hu) hid)

/-- A notification reaches the client. -/
theorem EndInv.notifyClient {ms : List Msg} (hs : EndInv T s) (h : s.server.queued = m :: ms) :
    EndInv T ⟨s.client.receive T m, { s.server with queued := ms }⟩ := by
  have hfrom := hs.fromServer m (h ▸ List.mem_cons_self)
  obtain ⟨hsame, hq, hend⟩ := receive_of_not_url T s.client (not_isUrl_of_fromServer hfrom)
  have hsub : ∀ {m'}, m' ∈ ms → m' ∈ s.server.queued := fun hm' => h ▸ List.mem_cons_of_mem m hm'
  have hwaits : Waits s → Waits ⟨s.client.receive T m, { s.server with queued := ms }⟩ := by
    intro hw
    have hne : m ≠ .tend := fun he => hw.not_mem (by rw [h, he]; exact List.mem_cons_self)
    exact ⟨hsame.stmode.trans hw.stmode, by rw [hend, hw.transcriptEnd]; simp [hne],
      fun hm => hw.not_mem (hsub hm)⟩
  constructor
  case fromServer => exact fun m' hm' => hs.fromServer m' (hsub hm')
  case clientLog => exact hs.clientLog.of_samePage hsame
  case serverLog => exact hs.serverLog.of_samePage ⟨rfl, rfl, rfl, rfl, rfl⟩
  case pages => dsimp only; rw [hsame.page, hq]; exact hs.pages
  case tendPages => dsimp only; rw [hsame.tends, hq]; exact hs.tendPages
  case serverEnd => dsimp only; rw [hsame.tends]; exact hs.serverEnd
  case clientEnd =>
    dsimp only
    rw [hsame.page, hend, Bool.or_eq_true, decide_eq_true_iff]
    rintro (he | rfl)
    · exact hs.clientEnd he
    · -- the arriving `TEND` is the server's last one
      obtain ⟨-, -, hurls, -, hhead⟩ := hs.flight (h ▸ List.mem_cons_self)
      rw [hs.pages, hurls]
      exact List.mem_of_mem_head? hhead
  case running =>
    intro hmode hsent
    obtain ⟨hw, hu⟩ := hs.running hmode hsent
    exact ⟨hwaits hw, by dsimp only; rw [hq]; exact hu⟩
  case flight =>
    intro hf
    obtain ⟨h1, h2, h3, h4, h5⟩ := hs.flight (hsub hf)
    have hcount : 0 < ms.count .tend := List.count_pos_iff.mpr hf
    have hne : m ≠ .tend := by
      rintro rfl
      rw [h, List.count_cons_self] at h4
      omega
    rw [h, List.count_cons_of_ne hne] at h4
    exact ⟨hsame.stmode.trans h1, by rw [hend, h2]; simp [hne],
      by dsimp only; rw [hq]; exact h3, h4, h5⟩
  case lastOnly => dsimp only; rw [hq]; exact hs.lastOnly
  case pending =>
    dsimp only
    rw [hq]
    exact fun u hu hid => hwaits (hs.pending u hu hid)

/-- **Every step keeps the invariant.** -/
theorem EndInv.step {G : Ctl → (ℕ → UInt8) → Prop} {s' : Proto} (hs : EndInv T s)
    (h : ProtoStep T G s s') : EndInv T s' := by
  cases h with
  | client h => exact hs.client h
  | server h => exact hs.server h
  | socks p _ => exact hs.socks p
  | @toServer m ms h =>
    cases hm : m.isUrl with
    | false => exact hs.notifyServer h hm
    | true =>
      cases m with
      | url u => exact hs.startServerPage h
      | _ => cases hm
  | toClient h => exact hs.notifyClient h

end Steps

theorem endInv_init (T : Tables) : EndInv T {} where
  fromServer := by simp
  clientLog := ⟨by simp, List.nodup_nil, by simp, by simp, by simp⟩
  serverLog := ⟨by simp, List.nodup_nil, by simp, by simp, by simp⟩
  pages := rfl
  tendPages := trivial
  serverEnd := by simp
  clientEnd := by simp
  running := by simp
  flight := by simp
  lastOnly := trivial
  pending := by simp

/-! ## Transcript ends stay in their page -/

/-- The pages of the `TEND`s under way to the client: as they arrive in order, they are the
last ones the server queued. -/
def Network.tendsInFlight {κ : Type} (s : Network κ) : List ℕ :=
  s.server.ep.tends.take ((s.inFlight .server).count .tend)

/-- **No transcript-end signal leaks into another page.**  In every reachable state:

* an end in transcript mode that has seen the transcript end in its page has a peer that
  started that page in transcript mode and queued `TEND` in it;
* no end has queued `TEND` twice in a page;
* a `TEND` under way to the client belongs to the client's current page. -/
theorem transcript_end_in_page {κ : Type} (S : Setup κ) (s : Network κ) (h : Reachable S s) :
    (s.client.ep.g.stmode = .supertrace → s.client.ep.g.transcriptEnd = true →
      s.client.ep.page ∈ s.server.ep.transcripts ∧ s.client.ep.page ∈ s.server.ep.tends) ∧
    (s.server.ep.g.stmode = .supertrace → s.server.ep.g.transcriptEnd = true →
      s.server.ep.page ∈ s.client.ep.transcripts ∧ s.server.ep.page ∈ s.client.ep.tends) ∧
    s.client.ep.tends.Nodup ∧ s.server.ep.tends.Nodup ∧
    ∀ k ∈ s.tendsInFlight, k = s.client.ep.page := by
  have hinv : EndInv S.tables s.proto := inv_network (endInv_init S.tables) (fun _ _ h => h.step) h
  refine ⟨fun _ he => ?_, fun _ he => ?_, hinv.clientLog.nodup, hinv.serverLog.nodup, ?_⟩
  · exact ⟨hinv.serverLog.subset _ (hinv.clientEnd he), hinv.clientEnd he⟩
  · exact ⟨hinv.clientLog.subset _ (hinv.serverEnd he), hinv.serverEnd he⟩
  · intro k hk
    by_cases hf : Msg.tend ∈ s.inFlight .server
    · obtain ⟨-, -, hurls, hcount, hhead⟩ := hinv.flight hf
      have hpages := hinv.pages
      rw [hurls, Nat.add_zero] at hpages
      unfold Network.tendsInFlight at hk
      rw [show (s.inFlight .server).count .tend = 1 from hcount] at hk
      have htends : s.server.ep.tends.head? = some s.server.ep.page := hhead
      cases hl : s.server.ep.tends with
      | nil => rw [hl] at htends; cases htends
      | cons n rest =>
        rw [hl] at htends hk
        obtain rfl : n = s.server.ep.page := Option.some.inj htends
        rw [List.take_one, List.head?_cons, Option.toList_some, List.mem_singleton] at hk
        rw [hk]
        exact hpages.symm
    · unfold Network.tendsInFlight at hk
      rw [List.count_eq_zero.mpr hf, List.take_zero] at hk
      cases hk

/-- Tables in which one URL has a cluster, with an empty trace. -/
def emptyTrace : Tables := ⟨⟨fun _ => [([97], 1)], Hashmap.pos_pageA⟩, fun _ => []⟩

/-- A page without items: the client queues `TEND` at once, and after the server has seen
the URL its `TEND` comes back. -/
def closingEvents : List NetEvent :=
  [.socks (urlRequest 97), .slot .client (openSlot 100000), .slot .client (openSlot 200000),
    .slot .client (openSlot 300000), .netInput .server 384, .parse .server 0 fun _ => 0,
    .slot .server (openSlot 400000), .netInput .client 128, .parse .client 0 fun _ => 0,
    .parse .client 0 fun _ => 0]

theorem transcript_end_in_page_closing :
    ∃ s, Transition.run (netStep (plainSetup emptyTrace)) plainStart closingEvents = some s ∧
      s.client.ep.g.stmode = .supertrace ∧ s.client.ep.g.transcriptEnd = true ∧
      s.client.ep.page ∈ s.server.ep.transcripts ∧ s.client.ep.page ∈ s.server.ep.tends := by
  obtain ⟨s, hs, hmode, hend⟩ : ∃ s, Transition.run (netStep (plainSetup emptyTrace)) plainStart
      closingEvents = some s ∧
      s.client.ep.g.stmode = .supertrace ∧ s.client.ep.g.transcriptEnd = true := by
    decide +kernel
  have h := (transcript_end_in_page (plainSetup emptyTrace) s (reachable_of_run hs)).1 hmode hend
  exact ⟨s, hs, hmode, hend, h⟩

end CSBuFLO
