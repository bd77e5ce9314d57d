/-
# Key exchanges keep the two ends in step

The exchanges of a connection are numbered from 0.  Everything the ends put into them is fixed by
their proposals and draws (`kexinitOf`, `pubOf`, `hashOf`, `keysOf`), so the key exchange packets
of an end are a fixed sequence, three per exchange (`kexBodyOf`), with everything of the upper
layers between two exchanges (`KexRun`).

An end is described by the number of its exchange and a phase (`KexAt`).  Phase and number give
the key exchange packets it has sent and taken, and since the link is FIFO, the next packet it
takes is the one it is waiting for: no knowledge about the peer's state is needed.

`key_exchange_in_step` is the result: whoever starts an exchange and when, no packet closes the
connection, every packet is opened with the keys it was sealed with, and an end that waits is
waiting for a packet that is under way.
-/
import CSBuFLO.KeyExchange

namespace CSBuFLO

variable {α : Type}

/-! ## What an exchange consists of -/

/-- An environment in which exchanges succeed: the proposals have an outcome whose method is a
fixed group, `dh_gen_key` draws valid values, and the server's signatures verify. -/
structure KexEnv.Sound (env : KexEnv α) (conf : Bool → KexConf) (d : DhGroup) : Prop where
  proposal_valid : ∀ b, (env.proposal b).Valid
  length_cookie : ∀ b n, (env.cookie b n).length = kexCookieLen
  conf_eq : ∀ b, chooseConf b (env.proposal b, false) (env.proposal !b, false) = some (conf b)
  group : ∀ b, env.group (conf b).kexType = some d
  secret_valid : ∀ b n, d.pubIsValid (d.pub (env.secret b n)) = true
  verify_sign : ∀ hash, env.verify (env.sign hash) hash = true
  hostKeyOk : env.hostKeyOk env.hostKey = true

/-- The two configurations fit. -/
theorem KexEnv.Sound.mirrors {env : KexEnv α} {conf : Bool → KexConf} {d : DhGroup}
    (h : env.Sound conf d) : (conf false).Mirrors (conf true) := by
  have hc := chooseConf_negotiate (env.proposal false) (env.proposal true) false
  have hs := chooseConf_negotiate (env.proposal false) (env.proposal true) true
  have hcf := h.conf_eq false
  have hct := h.conf_eq true
  simp only [Bool.not_false, Bool.not_true] at hcf hct
  simp only [if_true, Bool.false_eq_true, if_false, hcf, hct] at hc hs
  generalize negotiate (env.proposal false) (env.proposal true) = x at hc hs
  cases x with
  | none => exact hc.elim
  | some r => exact .of_carries hc hs

section Exchange

variable (env : KexEnv α) (conf : Bool → KexConf) (d : DhGroup)

/-- The `KEXINIT` of an end in exchange `n`. -/
def kexinitOf (b : Bool) (n : ℕ) : List UInt8 := kexProp2buf (env.cookie b n) (env.proposal b)

/-- The public value of an end in exchange `n`. -/
def pubOf (b : Bool) (n : ℕ) : ℕ := d.pub (env.secret b n)

/-- The shared secret of exchange `n`. -/
def sharedOf (n : ℕ) : ℕ := d.computeKey (pubOf env d true n) (env.secret false n)

/-- The hash of exchange `n`. -/
def hashOf (n : ℕ) : List UInt8 :=
  kexDhHash env (kexinitOf env false n) (kexinitOf env true n) env.hostKey (pubOf env d false n)
    (pubOf env d true n) (sharedOf env d n)

/-- The keys exchange `n` gives to an end. -/
def keysOf (n : ℕ) (b : Bool) (mode : Mode) : DirKeys :=
  kexDeriveKeys env b (conf b) (sharedOf env d n) (hashOf env d n) (hashOf env d 0) mode

/-- The keys of an end after `n` exchanges. -/
def epochKeys (b : Bool) (mode : Mode) : ℕ → Option DirKeys
  | 0 => none
  | n + 1 => some (keysOf env conf d n b mode)

/-- The key exchange packets of an end, in their order. -/
def kexBodyOf (b : Bool) (k : ℕ) : KexBody α :=
  if k % 3 = 0 then .kexinit (kexinitOf env b (k / 3))
  else if k % 3 = 1 then
    if b then .kexdhReply env.hostKey (pubOf env d true (k / 3)) (env.sign (hashOf env d (k / 3)))
    else .kexdhInit (pubOf env d false (k / 3))
  else .newkeys

end Exchange

variable {env : KexEnv α} {conf : Bool → KexConf} {d : DhGroup}

/-- What one end seals with, the other opens with. -/
theorem keysOf_mirror (h : env.Sound conf d) (n : ℕ) (b : Bool) :
    keysOf env conf d n b .modeOut = keysOf env conf d n (!b) .modeIn := by
  have hm := h.mirrors
  cases b with
  | false => simp [keysOf, kexDeriveKeys, ctos, hm.toServer, hm.weNeed]
  | true => simp [keysOf, kexDeriveKeys, ctos, hm.toClient, hm.weNeed]

theorem epochKeys_mirror (h : env.Sound conf d) (n : ℕ) (b : Bool) :
    epochKeys env conf d (!b) .modeOut n = epochKeys env conf d b .modeIn n := by
  cases n with
  | zero => rfl
  | succ n =>
    rw [epochKeys, epochKeys, keysOf_mirror h, Bool.not_not]

/-- The server's secret is the client's. -/
theorem computeKey_server (n : ℕ) :
    d.computeKey (pubOf env d false n) (env.secret true n) = sharedOf env d n :=
  d.computeKey_comm _ _

/-- `kex_input_kexinit` accepts the packets of `kex_send_kexinit`. -/
theorem getMessage_kexProp2buf {cookie : List UInt8} (hcookie : cookie.length = kexCookieLen)
    {p : Proposal} (hp : p.Valid) :
    getMessage KexState.kexinitLayout (kexProp2buf cookie p) ≠ none := by
  let fields : List Field :=
    cookie.map .char ++ (p.toList.map .string ++ [.char 0, .int 0])
  have hkinds : fields.map Field.kind = KexState.kexinitLayout := by
    have hfirst : (cookie.map Field.char).map Field.kind = List.replicate kexCookieLen .char := by
      rw [List.map_map, ← hcookie]
      exact List.map_const'
    simp only [fields, List.map_append, hfirst]
    rfl
  have hput : putFields fields = kexProp2buf cookie p := by
    have hfirst : putFields (cookie.map .char) = cookie := by
      unfold putFields
      rw [List.flatMap_map]
      exact List.flatMap_singleton' cookie
    have hsecond : putFields (p.toList.map .string) = p.toList.flatMap putString := by
      unfold putFields
      rw [List.flatMap_map]
      rfl
    rw [putFields_append, putFields_append, hfirst, hsecond]
    rfl
  have hvalid : ∀ f ∈ fields, f.Valid := by
    intro f hf
    rcases List.mem_append.mp hf with hf | hf
    · obtain ⟨c, -, rfl⟩ := List.mem_map.mp hf
      exact trivial
    rcases List.mem_append.mp hf with hf | hf
    · obtain ⟨s, hs, rfl⟩ := List.mem_map.mp hf
      exact (hp.toList s hs).1
    · simp only [List.mem_cons, List.not_mem_nil, or_false] at hf
      rcases hf with rfl | rfl
      · exact trivial
      · show (0 : ℕ) < 256 ^ 4
        decide
  have hread := getMessage_putFields hvalid []
  rw [List.append_nil, hkinds, hput, if_pos rfl] at hread
  rw [hread]
  exact Option.some_ne_none _

/-! ## The packets of an end -/

/-- The packets of the key exchange itself. -/
def KexBody.isKex : KexBody α → Bool
  | .kexinit _ => true
  | .kexdhInit _ => true
  | .kexdhReply _ _ _ => true
  | .newkeys => true
  | _ => false

/-- What a packet carries for the upper layers. -/
def KexBody.payload : KexBody α → Option α
  | .upper d => some d
  | _ => none

/-- The number of key exchange packets. -/
def kexCount (ws : List (Sealed α)) : ℕ := ws.countP fun m => m.body.isKex

/-- Everything that packets carry for the upper layers. -/
def payloads (ws : List (Sealed α)) : List α := ws.filterMap fun m => m.body.payload

/-- What the upper layers have handed over and `packet_send2` holds back. -/
def KexState.queued (s : KexState α) : List α := s.outgoing.filterMap KexBody.payload

@[simp] theorem kexCount_nil : kexCount ([] : List (Sealed α)) = 0 := rfl

@[simp] theorem kexCount_append (ws ws' : List (Sealed α)) :
    kexCount (ws ++ ws') = kexCount ws + kexCount ws' := List.countP_append

@[simp] theorem kexCount_cons (m : Sealed α) (ws : List (Sealed α)) :
    kexCount (m :: ws) = kexCount ws + m.body.isKex.toNat := by
  unfold kexCount
  rw [List.countP_cons]
  cases m.body.isKex <;> rfl

@[simp] theorem payloads_nil : payloads ([] : List (Sealed α)) = [] := rfl

@[simp] theorem payloads_append (ws ws' : List (Sealed α)) :
    payloads (ws ++ ws') = payloads ws ++ payloads ws' := List.filterMap_append

@[simp] theorem payloads_cons (m : Sealed α) (ws : List (Sealed α)) :
    payloads (m :: ws) = m.body.payload.toList ++ payloads ws := by
  unfold payloads
  rw [List.filterMap_cons]
  cases m.body.payload <;> rfl

/-- Packets of the upper layers are not packets of the key exchange. -/
theorem KexBody.isKex_of_payload {m : KexBody α} (h : m.payload ≠ none) : m.isKex = false := by
  cases m with
  | upper d => rfl
  | kexinit p => exact absurd rfl h
  | kexdhInit e => exact absurd rfl h
  | kexdhReply k f s => exact absurd rfl h
  | newkeys => exact absurd rfl h
  | ignore f => rfl

section Run

variable (env conf d)

/-- A packet at the place of an end's `k`-th key exchange packet: it has the keys of that time, if
it is a key exchange packet then the `k`-th one, and if it belongs to the upper layers then no
exchange is in progress. -/
structure KexSlot (b : Bool) (k : ℕ) (m : Sealed α) : Prop where
  keys : m.keys = epochKeys env conf d b .modeOut (k / 3)
  body : m.body.isKex = true → m.body = kexBodyOf env d b k
  upper : m.body.payload ≠ none → k % 3 = 0

/-- The packets of an end, from its `k`-th key exchange packet on. -/
def KexRun (b : Bool) : ℕ → List (Sealed α) → Prop
  | _, [] => True
  | k, m :: ws => KexSlot env conf d b k m ∧ KexRun b (k + m.body.isKex.toNat) ws

end Run

variable {b : Bool} {n : ℕ} {s : KexState α} {p q : KexEnd α}

theorem kexRun_append {k : ℕ} {ws ws' : List (Sealed α)} :
    KexRun env conf d b k (ws ++ ws') ↔
      KexRun env conf d b k ws ∧ KexRun env conf d b (k + kexCount ws) ws' := by
  induction ws generalizing k with
  | nil => simp [KexRun]
  | cons m ws ih =>
    rw [List.cons_append, KexRun, KexRun, ih, and_assoc, kexCount_cons,
      Nat.add_assoc, Nat.add_comm (kexCount ws)]

/-- A packet that is next after some others. -/
theorem KexRun.getElem {ws : List (Sealed α)} {i : ℕ} {m : Sealed α} (h : KexRun env conf d b 0 ws)
    (hm : ws[i]? = some m) : KexSlot env conf d b (kexCount (ws.take i)) m := by
  obtain ⟨hi, rfl⟩ := List.getElem?_eq_some_iff.mp hm
  have hsplit : ws = ws.take i ++ ws[i] :: ws.drop (i + 1) := by
    rw [← List.drop_eq_getElem_cons hi, List.take_append_drop]
  rw [hsplit, kexRun_append] at h
  simpa using h.2.1

theorem kexBodyOf_init (b : Bool) (n : ℕ) :
    kexBodyOf env d b (3 * n) = .kexinit (kexinitOf env b n) := by
  have hmod : 3 * n % 3 = 0 := by omega
  have hdiv : 3 * n / 3 = n := by omega
  simp [kexBodyOf, hmod, hdiv]

theorem kexBodyOf_dh (b : Bool) (n : ℕ) :
    kexBodyOf env d b (3 * n + 1) =
      if b then .kexdhReply env.hostKey (pubOf env d true n) (env.sign (hashOf env d n))
      else .kexdhInit (pubOf env d false n) := by
  have hmod : (3 * n + 1) % 3 = 1 := by omega
  have hdiv : (3 * n + 1) / 3 = n := by omega
  simp [kexBodyOf, hmod, hdiv]

theorem kexBodyOf_newkeys (b : Bool) (n : ℕ) :
    kexBodyOf env d b (3 * n + 2) = .newkeys := by
  have hmod : (3 * n + 2) % 3 = 2 := by omega
  simp [kexBodyOf, hmod]

/-- A key exchange packet in its place. -/
theorem KexSlot.kex {k : ℕ} (hk : k / 3 = n) {m : KexBody α} (hm : m = kexBodyOf env d b k)
    (hp : m.payload = none) : KexSlot env conf d b k ⟨epochKeys env conf d b .modeOut n, m⟩ :=
  ⟨by rw [hk], fun _ => hm, fun h => absurd hp h⟩

/-- What was held back goes out under the new keys. -/
theorem kexRun_flush {ms : List (KexBody α)} (h : ∀ m ∈ ms, m.payload ≠ none) :
    KexRun env conf d b (3 * n) (ms.map (Sealed.mk (epochKeys env conf d b .modeOut n))) := by
  induction ms with
  | nil => trivial
  | cons m ms ih =>
    have hkex := KexBody.isKex_of_payload (h m List.mem_cons_self)
    refine ⟨⟨?_, ?_, ?_⟩, ?_⟩
    · show _ = epochKeys env conf d b .modeOut (3 * n / 3)
      rw [Nat.mul_div_cancel_left n (by decide)]
    · intro hm
      rw [hkex] at hm
      cases hm
    · intro _
      omega
    · show KexRun env conf d b (3 * n + m.isKex.toNat) _
      rw [hkex]
      exact ih fun x hx => h x (List.mem_cons_of_mem m hx)

theorem kexCount_flush {ks : Option DirKeys} {ms : List (KexBody α)}
    (h : ∀ m ∈ ms, m.payload ≠ none) : kexCount (ms.map (Sealed.mk ks)) = 0 := by
  induction ms with
  | nil => rfl
  | cons m ms ih =>
    rw [List.map_cons, kexCount_cons, ih fun x hx => h x (List.mem_cons_of_mem m hx)]
    show 0 + m.isKex.toNat = 0
    rw [KexBody.isKex_of_payload (h m List.mem_cons_self)]
    rfl

theorem payloads_flush (ks : Option DirKeys) (ms : List (KexBody α)) :
    payloads (ms.map (Sealed.mk ks)) = ms.filterMap KexBody.payload := List.filterMap_map

/-! ## The phases of an end -/

/-- Where an end is in an exchange: it has not begun, has sent its `KEXINIT`, waits for the other
end's value, or for its `NEWKEYS`. -/
inductive KexPhase where
  | idle
  | started
  | waiting
  | closing
  deriving DecidableEq, Repr

namespace KexPhase

/-- The key exchange packets an end has sent. -/
def sent (b : Bool) (n : ℕ) : KexPhase → ℕ
  | .idle => 3 * n
  | .started => 3 * n + 1
  | .waiting => if b then 3 * n + 1 else 3 * n + 2
  | .closing => 3 * (n + 1)

/-- The key exchange packets an end has taken. -/
def taken (n : ℕ) : KexPhase → ℕ
  | .idle => 3 * n
  | .started => 3 * n
  | .waiting => 3 * n + 1
  | .closing => 3 * n + 2

end KexPhase

section States

variable (env conf d)

/-- The session id after `n` exchanges. -/
def sessionAt (n : ℕ) : Option (List UInt8) := if n = 0 then none else some (hashOf env d 0)

/-- Between two exchanges. -/
def idleState (b : Bool) (n : ℕ) (cookie : List UInt8) (received submitted : List α) :
    KexState α where
  server := b
  my := kexProp2buf cookie (env.proposal b)
  done := true
  sessionId := sessionAt env d n
  keysIn := epochKeys env conf d b .modeIn n
  keysOut := epochKeys env conf d b .modeOut n
  drawn := n
  received := received
  submitted := submitted

/-- `KEXINIT` is sent; `peer` is what is here of the other end's. -/
def startedState (b : Bool) (n : ℕ) (peer : List UInt8) (outgoing : List (KexBody α))
    (received submitted : List α) : KexState α where
  server := b
  my := kexinitOf env b n
  peer := peer
  initSent := true
  sessionId := sessionAt env d n
  keysIn := epochKeys env conf d b .modeIn n
  keysOut := epochKeys env conf d b .modeOut n
  rekeying := true
  outgoing := outgoing
  drawn := n + 1
  received := received
  submitted := submitted

/-- Both `KEXINIT`s are here. -/
def waitingState (b : Bool) (n : ℕ) (outgoing : List (KexBody α)) (received submitted : List α) :
    KexState α :=
  { startedState env conf d b n (kexinitOf env (!b) n) outgoing received submitted with
    pc := if b then .expectInit (conf b) else .expectReply (conf b) }

/-- `NEWKEYS` is sent, and the other end's is not here. -/
def closingState (b : Bool) (n : ℕ) (received submitted : List α) : KexState α where
  server := b
  my := kexinitOf env b n
  peer := kexinitOf env (!b) n
  initSent := true
  sessionId := some (hashOf env d 0)
  currentIn := some (keysOf env conf d n b .modeIn)
  keysIn := epochKeys env conf d b .modeIn n
  keysOut := epochKeys env conf d b .modeOut (n + 1)
  pc := .expectNewkeys
  drawn := n + 1
  received := received
  submitted := submitted

/-- An end in a phase of exchange `n`. -/
inductive KexAt (b : Bool) (n : ℕ) : KexPhase → KexState α → Prop where
  | idle (cookie : List UInt8) (h : cookie.length = kexCookieLen) (received submitted : List α) :
      KexAt b n .idle (idleState env conf d b n cookie received submitted)
  | started (outgoing : List (KexBody α)) (h : ∀ m ∈ outgoing, m.payload ≠ none)
      (received submitted : List α) :
      KexAt b n .started (startedState env conf d b n [] outgoing received submitted)
  | waiting (outgoing : List (KexBody α)) (h : ∀ m ∈ outgoing, m.payload ≠ none)
      (received submitted : List α) :
      KexAt b n .waiting (waitingState env conf d b n outgoing received submitted)
  | closing (received submitted : List α) :
      KexAt b n .closing (closingState env conf d b n received submitted)

/-- A step of an end in a phase: where it leads with `took` key exchange packets taken, that what
it sends is in its place and has at most one `NEWKEYS`, and that nothing of the upper layers is
lost. -/
structure KexStep (b : Bool) (n : ℕ) (ph : KexPhase) (s : KexState α) (took : ℕ)
    (added got : List α) (r : KexState α × List (Sealed α)) : Prop where
  moved : ∃ n' ph', KexAt env conf d b n' ph' r.1 ∧
    KexPhase.sent b n' ph' = KexPhase.sent b n ph + kexCount r.2 ∧
    KexPhase.taken n' ph' = KexPhase.taken n ph + took
  run : KexRun env conf d b (KexPhase.sent b n ph) r.2
  few : kexCount r.2 ≤ 2
  submitted : r.1.submitted = s.submitted ++ added
  queue : s.queued ++ added = payloads r.2 ++ r.1.queued
  received : r.1.received = s.received ++ got

end States

/-! ## The steps of an end -/

variable {ph : KexPhase}

/-- The keys an end sends with fit the place of its next packet. -/
theorem KexAt.keysOut (h : KexAt env conf d b n ph s) :
    s.keysOut = epochKeys env conf d b .modeOut (KexPhase.sent b n ph / 3) := by
  cases h with
  | idle =>
    show epochKeys env conf d b .modeOut n = epochKeys env conf d b .modeOut (3 * n / 3)
    congr 1
    omega
  | started =>
    show epochKeys env conf d b .modeOut n = epochKeys env conf d b .modeOut ((3 * n + 1) / 3)
    congr 1
    omega
  | waiting =>
    show epochKeys env conf d b .modeOut n =
      epochKeys env conf d b .modeOut ((if b then 3 * n + 1 else 3 * n + 2) / 3)
    congr 1
    split <;> omega
  | closing =>
    show epochKeys env conf d b .modeOut (n + 1) =
      epochKeys env conf d b .modeOut (3 * (n + 1) / 3)
    congr 1
    omega

/-- The keys an end opens with fit the place of the next packet it takes. -/
theorem KexAt.keysIn (h : KexAt env conf d b n ph s) :
    s.keysIn = epochKeys env conf d b .modeIn (KexPhase.taken n ph / 3) := by
  have hdiv : KexPhase.taken n ph / 3 = n := by
    cases ph <;> simp only [KexPhase.taken] <;> omega
  rw [hdiv]
  cases h <;> rfl

theorem KexAt.record (h : KexAt env conf d b n ph s) (ds : List α) :
    KexAt env conf d b n ph (s.record ds) := by
  cases h with
  | idle cookie hc received submitted => exact .idle cookie hc received (submitted ++ ds)
  | started outgoing hout received submitted =>
    exact .started outgoing hout received (submitted ++ ds)
  | waiting outgoing hout received submitted =>
    exact .waiting outgoing hout received (submitted ++ ds)
  | closing received submitted => exact .closing received (submitted ++ ds)

/-- What the upper layers receive does not matter to the exchange. -/
theorem KexAt.deliver (h : KexAt env conf d b n ph s) (x : α) :
    KexAt env conf d b n ph { s with received := s.received ++ [x] } := by
  cases h with
  | idle cookie hc received submitted => exact .idle cookie hc (received ++ [x]) submitted
  | started outgoing hout received submitted =>
    exact .started outgoing hout (received ++ [x]) submitted
  | waiting outgoing hout received submitted =>
    exact .waiting outgoing hout (received ++ [x]) submitted
  | closing received submitted => exact .closing (received ++ [x]) submitted

/-- During an exchange packets of the upper layers are held back. -/
theorem KexAt.hold (h : KexAt env conf d b n ph s) (hre : s.rekeying = true) {m : KexBody α}
    (hm : m.payload ≠ none) : KexAt env conf d b n ph { s with outgoing := s.outgoing ++ [m] } := by
  have hall : ∀ {outgoing : List (KexBody α)}, (∀ m ∈ outgoing, m.payload ≠ none) →
      ∀ x ∈ outgoing ++ [m], x.payload ≠ none := by
    intro outgoing hout x hx
    rcases List.mem_append.mp hx with hx | hx
    · exact hout x hx
    · obtain rfl := List.mem_singleton.mp hx
      exact hm
  cases h with
  | idle cookie hc received submitted => cases hre
  | started outgoing hout received submitted =>
    exact .started (outgoing ++ [m]) (hall hout) received submitted
  | waiting outgoing hout received submitted =>
    exact .waiting (outgoing ++ [m]) (hall hout) received submitted
  | closing received submitted => cases hre

/-- Outside of an exchange nothing is held back, and the upper layers may send. -/
theorem KexAt.free (h : KexAt env conf d b n ph s) (hre : s.rekeying = false) :
    s.outgoing = [] ∧ KexPhase.sent b n ph % 3 = 0 := by
  cases h with
  | idle => exact ⟨rfl, Nat.mul_mod_right 3 n⟩
  | started => cases hre
  | waiting => cases hre
  | closing => exact ⟨rfl, Nat.mul_mod_right 3 (n + 1)⟩

theorem KexBody.transport_eq (m : KexBody α) : m.transport = m.payload.isNone := by
  cases m <;> rfl

/-- A packet outside the key exchange: sent, or held back during an exchange. -/
theorem KexAt.send (h : KexAt env conf d b n ph s) {m : KexBody α} (hm : m.isKex = false) :
    KexStep env conf d b n ph s 0 m.payload.toList [] ((s.record m.payload.toList).send m) := by
  have hrec := h.record m.payload.toList
  unfold KexState.send
  split
  · rename_i hhold
    rw [Bool.and_eq_true, KexBody.transport_eq] at hhold
    have hp : m.payload ≠ none := by
      intro hp
      rw [hp] at hhold
      cases hhold.2
    refine ⟨⟨n, ph, hrec.hold hhold.1 hp, rfl, rfl⟩, trivial, Nat.zero_le _, rfl, ?_, ?_⟩
    · obtain ⟨x, hx⟩ := Option.ne_none_iff_exists'.mp hp
      simp [KexState.queued, KexState.record, hx]
    · exact (List.append_nil _).symm
  · rename_i hsend
    have hcount : kexCount [(s.record m.payload.toList).encrypt m] = 0 := by
      simp [KexState.encrypt, hm]
    have hfree : m.payload ≠ none → s.outgoing = [] ∧ KexPhase.sent b n ph % 3 = 0 := by
      intro hp
      obtain ⟨x, hx⟩ := Option.ne_none_iff_exists'.mp hp
      refine h.free (Bool.eq_false_iff.mpr fun hre => hsend ?_)
      rw [Bool.and_eq_true, KexBody.transport_eq, hx]
      exact ⟨hre, rfl⟩
    refine ⟨⟨n, ph, hrec, ?_, rfl⟩, ⟨⟨hrec.keysOut, ?_, fun hp => (hfree hp).2⟩, trivial⟩,
      hcount ▸ Nat.zero_le 2, rfl, ?_, (List.append_nil _).symm⟩
    · rw [hcount]
      rfl
    · intro hk
      exact absurd (hk.symm.trans hm) (by decide)
    · show s.queued ++ m.payload.toList = payloads [Sealed.mk s.keysOut m] ++ s.queued
      rw [payloads_cons, payloads_nil, List.append_nil]
      cases hp : m.payload with
      | none => exact List.append_nil _
      | some x =>
        have hnil : s.queued = [] := by
          rw [KexState.queued, (hfree (by rw [hp]; exact Option.some_ne_none x)).1]
          rfl
        rw [hnil, List.append_nil]
        rfl

/-! ## The exchange -/

/-- A new cookie in an old packet. -/
theorem cookie_append_drop {cookie : List UInt8} (h : cookie.length = kexCookieLen) (b : Bool)
    (n : ℕ) :
    env.cookie b n ++ (kexProp2buf cookie (env.proposal b)).drop kexCookieLen =
      kexinitOf env b n := by
  unfold kexinitOf kexProp2buf
  rw [← h, List.drop_left]

/-- `kex_send_kexinit` between two exchanges. -/
theorem sendKexinit_idleState {cookie : List UInt8} (h : cookie.length = kexCookieLen) (b : Bool)
    (n : ℕ) (peer : List UInt8) (received submitted : List α) :
    KexState.sendKexinit
        { idleState env conf d b n cookie received submitted with peer := peer } env =
      (startedState env conf d b n peer [] received submitted,
        [⟨epochKeys env conf d b .modeOut n, .kexinit (kexinitOf env b n)⟩]) := by
  unfold startedState
  rw [← cookie_append_drop h]
  rfl

/-- Both ends come to the expected configuration. -/
theorem kexChooseConf_kexinitOf (hs : env.Sound conf d) (b : Bool) (n : ℕ) :
    kexChooseConf b (kexinitOf env b n) (kexinitOf env (!b) n) = some (conf b) := by
  rw [kexinitOf, kexinitOf, kexChooseConf_kexProp2buf b (hs.proposal_valid b)
    (hs.proposal_valid !b) (hs.length_cookie b n) (hs.length_cookie (!b) n), hs.conf_eq]

theorem KexEnv.Sound.skip (hs : env.Sound conf d) (b : Bool) : (conf b).skip = false := by
  cases b with
  | false => exact hs.mirrors.skip.1
  | true => exact hs.mirrors.skip.2

/-- What an end sends when both `KEXINIT`s are here: the client's value. -/
def kexdhStart (env : KexEnv α) (conf : Bool → KexConf) (d : DhGroup) (b : Bool) (n : ℕ) :
    List (Sealed α) :=
  if b then [] else [⟨epochKeys env conf d b .modeOut n, .kexdhInit (pubOf env d false n)⟩]

/-- `kex_input_kexinit`, whether this end's `KEXINIT` is sent before or now. -/
theorem inputKexinit_of_send (hs : env.Sound conf d) {outgoing : List (KexBody α)}
    {received submitted : List α} {out : List (Sealed α)}
    (hsend : KexState.sendKexinit { s with peer := s.peer ++ kexinitOf env (!b) n } env =
      (startedState env conf d b n (kexinitOf env (!b) n) outgoing received submitted, out)) :
    s.inputKexinit env (kexinitOf env (!b) n) =
      some (waitingState env conf d b n outgoing received submitted,
        out ++ kexdhStart env conf d b n) := by
  have hread : ¬ getMessage KexState.kexinitLayout (kexinitOf env (!b) n) = none :=
    getMessage_kexProp2buf (hs.length_cookie (!b) n) (hs.proposal_valid !b)
  have hstart : KexState.startKexdh
      (startedState env conf d b n (kexinitOf env (!b) n) outgoing received submitted) env
        (conf b) =
      some (waitingState env conf d b n outgoing received submitted,
        kexdhStart env conf d b n) := by
    unfold KexState.startKexdh
    rw [hs.group b, Option.map_some]
    cases b <;> rfl
  unfold KexState.inputKexinit
  rw [if_neg hread, hsend]
  show (kexChooseConf b (kexinitOf env b n) (kexinitOf env (!b) n)).bind _ = _
  rw [kexChooseConf_kexinitOf hs, Option.bind_some, hs.skip, if_neg Bool.false_ne_true]
  dsimp only
  rw [hstart, Option.map_some]

/-- The session id after the hash of exchange `n` is known. -/
theorem sessionAt_getD (n : ℕ) : (sessionAt env d n).getD (hashOf env d n) = hashOf env d 0 := by
  cases n with
  | zero => rfl
  | succ n => rfl

/-- `kex_finish` up to its `NEWKEYS`, once the keys of exchange `n` are derived. -/
theorem startFinish_waitingState (b : Bool) (n : ℕ) (outgoing : List (KexBody α))
    (received submitted : List α) :
    (((waitingState env conf d b n outgoing received submitted).saveSessionId
        (hashOf env d n)).deriveKeys env (conf b) (sharedOf env d n)
          (hashOf env d n)).startFinish =
      some (closingState env conf d b n received submitted,
        ⟨epochKeys env conf d b .modeOut n, .newkeys⟩ ::
          outgoing.map (Sealed.mk (epochKeys env conf d b .modeOut (n + 1)))) := by
  have hsave : (waitingState env conf d b n outgoing received submitted).saveSessionId
      (hashOf env d n) = { waitingState env conf d b n outgoing received submitted with
        sessionId := some (hashOf env d 0) } := by
    rw [← @sessionAt_getD _ env d n]
    rfl
  rw [hsave]
  rfl

/-- `kexdh_server` with the client's value. -/
theorem serverKexdh_waitingState (hs : env.Sound conf d) (n : ℕ) (outgoing : List (KexBody α))
    (received submitted : List α) :
    (waitingState env conf d true n outgoing received submitted).serverKexdh env (conf true) d
        (pubOf env d false n) =
      some (closingState env conf d true n received submitted,
        ⟨epochKeys env conf d true .modeOut n, .kexdhReply env.hostKey (pubOf env d true n)
          (env.sign (hashOf env d n))⟩ ::
        ⟨epochKeys env conf d true .modeOut n, .newkeys⟩ ::
          outgoing.map (Sealed.mk (epochKeys env conf d true .modeOut (n + 1)))) := by
  have hvalid : ¬ d.pubIsValid (pubOf env d false n) = false := by
    rw [pubOf, hs.secret_valid]
    decide
  have hk : d.computeKey (pubOf env d false n)
      ((waitingState env conf d true n outgoing received submitted).secret env) =
      sharedOf env d n := computeKey_server n
  have hfinish := @startFinish_waitingState _ env conf d true n outgoing received submitted
  unfold KexState.serverKexdh
  rw [if_neg hvalid]
  dsimp only
  rw [hk]
  exact congrArg (Option.map _) hfinish

/-- `kexdh_client` with the server's answer. -/
theorem clientKexdh_waitingState (hs : env.Sound conf d) (n : ℕ) (outgoing : List (KexBody α))
    (received submitted : List α) :
    (waitingState env conf d false n outgoing received submitted).clientKexdh env (conf false) d
        env.hostKey (pubOf env d true n) (env.sign (hashOf env d n)) =
      some (closingState env conf d false n received submitted,
        ⟨epochKeys env conf d false .modeOut n, .newkeys⟩ ::
          outgoing.map (Sealed.mk (epochKeys env conf d false .modeOut (n + 1)))) := by
  have hhost : ¬ env.hostKeyOk env.hostKey = false := by
    rw [hs.hostKeyOk]
    decide
  have hvalid : ¬ d.pubIsValid (pubOf env d true n) = false := by
    rw [pubOf, hs.secret_valid]
    decide
  have hverify : ¬ env.verify (env.sign (hashOf env d n)) (hashOf env d n) = false := by
    rw [hs.verify_sign]
    decide
  have hfinish := @startFinish_waitingState _ env conf d false n outgoing received submitted
  unfold KexState.clientKexdh
  rw [if_neg hhost, if_neg hvalid]
  exact (if_neg hverify).trans hfinish

/-! ## Whatever arrives is expected -/

theorem kexRun_kexdhStart (b : Bool) (n : ℕ) :
    KexRun env conf d b (3 * n + 1) (kexdhStart env conf d b n) := by
  cases b with
  | true => trivial
  | false => exact ⟨.kex (by omega) (kexBodyOf_dh false n).symm rfl, trivial⟩

/-- `KEXINIT` of the other end. -/
theorem KexAt.takeKexinit (hs : env.Sound conf d) (h : KexAt env conf d b n ph s)
    (hph : ph = .idle ∨ ph = .started) :
    ∃ r, s.handle env (.kexinit (kexinitOf env (!b) n)) = some r ∧
      KexStep env conf d b n ph s 1 [] [] r := by
  cases h with
  | waiting => simp at hph
  | closing => simp at hph
  | started outgoing hout received submitted =>
    refine ⟨_, inputKexinit_of_send hs rfl,
      ⟨n, .waiting, .waiting outgoing hout received submitted,
      ?_, rfl⟩, kexRun_kexdhStart b n, ?_, (List.append_nil _).symm, ?_,
      (List.append_nil _).symm⟩
    · cases b <;> rfl
    · cases b <;> exact Nat.le_of_ble_eq_true rfl
    · rw [List.append_nil]
      cases b <;> rfl
  | idle cookie hc received submitted =>
    refine ⟨_, inputKexinit_of_send hs (sendKexinit_idleState hc b n _ received submitted),
      ⟨n, .waiting, .waiting [] (fun m hm => absurd hm List.not_mem_nil) received submitted,
        ?_, rfl⟩, ⟨.kex (by simp only [KexPhase.sent]; omega) (kexBodyOf_init b n).symm rfl, ?_⟩,
      ?_, (List.append_nil _).symm, ?_, (List.append_nil _).symm⟩
    · cases b <;> rfl
    · exact kexRun_kexdhStart b n
    · cases b <;> exact Nat.le_of_ble_eq_true rfl
    · cases b <;> rfl

/-- The value of the other end. -/
theorem KexAt.takeKexdh (hs : env.Sound conf d) (h : KexAt env conf d b n .waiting s) :
    ∃ r, s.handle env (kexBodyOf env d (!b) (3 * n + 1)) = some r ∧
      KexStep env conf d b n .waiting s 1 [] [] r := by
  cases h with
  | waiting outgoing hout received submitted =>
    have hflush := @kexRun_flush _ env conf d b (n + 1) _ hout
    have hcount := @kexCount_flush _ (epochKeys env conf d b .modeOut (n + 1)) _ hout
    have hqueue := payloads_flush (epochKeys env conf d b .modeOut (n + 1)) outgoing
    have hnew : KexSlot env conf d b (3 * n + 2)
        ⟨epochKeys env conf d b .modeOut n, .newkeys⟩ :=
      .kex (by omega) (kexBodyOf_newkeys b n).symm rfl
    rw [kexBodyOf_dh]
    cases b with
    | true =>
      refine ⟨_, (congrArg (Option.bind · _) (hs.group true)).trans
        (serverKexdh_waitingState hs n outgoing received submitted),
        ⟨n, .closing, .closing received submitted, ?_, rfl⟩,
        ⟨.kex (by simp only [KexPhase.sent, if_true]; omega) (kexBodyOf_dh true n).symm rfl,
          hnew,
          hflush⟩,
        ?_, (List.append_nil _).symm, ?_, (List.append_nil _).symm⟩
      · rw [kexCount_cons, kexCount_cons, hcount]
        rfl
      · rw [kexCount_cons, kexCount_cons, hcount]
        exact le_rfl
      · rw [payloads_cons, payloads_cons, hqueue, List.append_nil]
        exact (List.append_nil _).symm
    | false =>
      refine ⟨_, (congrArg (Option.bind · _) (hs.group false)).trans
        (clientKexdh_waitingState hs n outgoing received submitted),
        ⟨n, .closing, .closing received submitted, ?_, rfl⟩, ⟨hnew, hflush⟩,
        ?_, (List.append_nil _).symm, ?_, (List.append_nil _).symm⟩
      · rw [kexCount_cons, hcount]
        rfl
      · rw [kexCount_cons, hcount]
        exact Nat.le_succ 1
      · rw [payloads_cons, hqueue, List.append_nil]
        exact (List.append_nil _).symm

/-- `NEWKEYS` of the other end. -/
theorem KexAt.takeNewkeys (hs : env.Sound conf d) (h : KexAt env conf d b n .closing s) :
    ∃ r, (s.setNewkeysIn.bind fun s => s.handle env .newkeys) = some r ∧
      KexStep env conf d b n .closing s 1 [] [] r := by
  cases h with
  | closing received submitted =>
    exact ⟨_, rfl, ⟨n + 1, .idle,
      .idle (env.cookie b n) (hs.length_cookie b n) received submitted, rfl, rfl⟩, trivial,
      Nat.zero_le _, (List.append_nil _).symm, rfl, (List.append_nil _).symm⟩

/-- A step that only hands something to the upper layers. -/
theorem KexAt.upper (h : KexAt env conf d b n ph s) (x : α) :
    KexStep env conf d b n ph s 0 [] [x] ({ s with received := s.received ++ [x] }, []) :=
  ⟨⟨n, ph, h.deliver x, rfl, rfl⟩, trivial, Nat.zero_le _, (List.append_nil _).symm,
    List.append_nil _, rfl⟩

/-- **The next packet of the other end is accepted.** -/
theorem KexAt.receive (hs : env.Sound conf d) (h : KexAt env conf d b n ph s) {m : Sealed α}
    (hm : KexSlot env conf d (!b) (KexPhase.taken n ph) m) :
    m.keys = s.keysIn ∧ ∃ r, s.receive env m = some r ∧
      KexStep env conf d b n ph s m.body.isKex.toNat [] m.body.payload.toList r := by
  have hkeys : m.keys = s.keysIn := by rw [hm.keys, h.keysIn, epochKeys_mirror hs]
  refine ⟨hkeys, ?_⟩
  unfold KexState.receive
  rw [if_neg (not_not_intro hkeys)]
  obtain ⟨ks, body⟩ := m
  by_cases hkex : body.isKex = true
  · have hbody := hm.body hkex
    dsimp only at hbody
    cases ph with
    | idle =>
      obtain rfl := hbody.trans (kexBodyOf_init (!b) n)
      exact h.takeKexinit hs (Or.inl rfl)
    | started =>
      obtain rfl := hbody.trans (kexBodyOf_init (!b) n)
      exact h.takeKexinit hs (Or.inr rfl)
    | waiting =>
      obtain ⟨r, hr, hstep⟩ := h.takeKexdh hs
      have hdh := hbody.trans (kexBodyOf_dh (!b) n)
      rw [kexBodyOf_dh] at hr
      cases b <;> obtain rfl := hdh <;> exact ⟨r, hr, hstep⟩
    | closing =>
      obtain rfl := hbody.trans (kexBodyOf_newkeys (!b) n)
      exact h.takeNewkeys hs
  · cases body with
    | kexinit p => exact absurd rfl hkex
    | kexdhInit e => exact absurd rfl hkex
    | kexdhReply k f g => exact absurd rfl hkex
    | newkeys => exact absurd rfl hkex
    | ignore filler => exact ⟨_, rfl, ⟨n, ph, h, rfl, rfl⟩, trivial, Nat.zero_le _,
        (List.append_nil _).symm, List.append_nil _, (List.append_nil _).symm⟩
    | upper x =>
      dsimp only
      split
      · exact ⟨_, rfl, h.upper x⟩
      · -- between the other end's `KEXINIT` and `NEWKEYS` there is no such packet
        have hplace := hm.upper (Option.some_ne_none x)
        cases h with
        | idle cookie hc received submitted =>
          exact ⟨_, rfl, (KexAt.idle cookie hc received submitted).upper x⟩
        | started outgoing hout received submitted =>
          exact ⟨_, rfl, (KexAt.started outgoing hout received submitted).upper x⟩
        | waiting =>
          simp only [KexPhase.taken] at hplace
          omega
        | closing =>
          simp only [KexPhase.taken] at hplace
          omega

/-- What an end does on its own. -/
theorem KexAt.act (h : KexAt env conf d b n ph s) {e : KexEvent α}
    {r : KexState α × List (Sealed α)} (hr : s.act env e = some r) :
    ∃ added, KexStep env conf d b n ph s 0 added [] r := by
  cases e with
  | upper x =>
    have hstep := h.send (m := .upper x) rfl
    have hsent : some ((s.record [x]).send (.upper x)) = some r := by
      unfold KexState.act at hr
      generalize s.pc = pc at hr
      cases pc with
      | dispatch => exact hr
      | _ =>
        dsimp only at hr
        split_ifs at hr
        exact hr
    exact ⟨[x], Option.some.inj hsent ▸ hstep⟩
  | pad filler =>
    have hstep := h.send (m := .ignore filler) rfl
    have hrec : s.record (KexBody.ignore filler : KexBody α).payload.toList = s := by
      unfold KexState.record
      exact congrArg (fun l => { s with submitted := l }) (List.append_nil _)
    rw [hrec] at hstep
    exact ⟨[], Option.some.inj hr ▸ hstep⟩
  | rekey =>
    cases h with
    | idle cookie hc received submitted =>
      have hsend := @sendKexinit_idleState _ env conf d _ hc b n [] received submitted
      obtain rfl := (Option.some.inj hr).symm.trans hsend
      exact ⟨[], ⟨n, .started, .started [] (fun m hm => absurd hm List.not_mem_nil) received
        submitted, rfl, rfl⟩,
        ⟨.kex (by simp only [KexPhase.sent]; omega) (kexBodyOf_init b n).symm rfl, trivial⟩,
        Nat.le_succ 1, (List.append_nil _).symm, rfl, (List.append_nil _).symm⟩
    | started => cases hr
    | waiting => cases b <;> cases hr
    | closing => cases hr

theorem KexAt.errors (h : KexAt env conf d b n ph s) : s.errors = 0 := by
  cases h <;> rfl

/-- An end that has finished an exchange. -/
theorem KexAt.rest (h : KexAt env conf d b (n + 1) .idle s) :
    s.done = true ∧ s.rekeying = false ∧ s.queued = [] ∧ s.sessionId = some (hashOf env d 0) ∧
      s.keysIn ≠ none := by
  cases h
  exact ⟨rfl, rfl, rfl, rfl, Option.some_ne_none _⟩

/-! ## Both ends -/

/-- One end and what its peer has sent. -/
structure KexInv (env : KexEnv α) (conf : Bool → KexConf) (d : DhGroup) (b : Bool)
    (p q : KexEnd α) : Prop where
  place : ∃ n ph, KexAt env conf d b n ph p.state ∧ kexCount p.sent = KexPhase.sent b n ph ∧
    kexCount (q.sent.take p.taken) = KexPhase.taken n ph
  run : KexRun env conf d b 0 p.sent
  begun : 0 < kexCount p.sent
  bound : p.taken ≤ q.sent.length
  received : p.state.received = payloads (q.sent.take p.taken)
  submitted : p.state.submitted = payloads p.sent ++ p.state.queued

/-- What an end sends does not change what the other end has taken. -/
theorem KexInv.peer_after (h : KexInv env conf d b q p) {p' : KexEnd α} {out : List (Sealed α)}
    (hp' : p'.sent = p.sent ++ out) : KexInv env conf d b q p' := by
  have htake : p'.sent.take q.taken = p.sent.take q.taken := by
    rw [hp', List.take_append_of_le_length h.bound]
  refine ⟨?_, h.run, h.begun, ?_, ?_, h.submitted⟩
  · rw [htake]
    exact h.place
  · rw [hp', List.length_append]
    exact Nat.le_add_right_of_le h.bound
  · rw [htake]
    exact h.received

/-- An end after a step that took the packets `ms`. -/
theorem KexInv.after {p' : KexEnd α} (h : KexInv env conf d b p q)
    (hsent : kexCount p.sent = KexPhase.sent b n ph)
    (htaken : kexCount (q.sent.take p.taken) = KexPhase.taken n ph) {ms : List (Sealed α)}
    {added : List α} {r : KexState α × List (Sealed α)}
    (hstep : KexStep env conf d b n ph p.state (kexCount ms) added (payloads ms) r)
    (hstate : p'.state = r.1) (hout : p'.sent = p.sent ++ r.2)
    (htake : q.sent.take p'.taken = q.sent.take p.taken ++ ms) (hbound : p'.taken ≤ q.sent.length) :
    KexInv env conf d b p' q := by
  obtain ⟨n', ph', hat, hsent', htaken'⟩ := hstep.moved
  refine ⟨⟨n', ph', hstate ▸ hat, ?_, ?_⟩, ?_, ?_, hbound, ?_, ?_⟩
  · rw [hout, kexCount_append, hsent, hsent']
  · rw [htake, kexCount_append, htaken, htaken']
  · rw [hout, kexRun_append, Nat.zero_add, hsent]
    exact ⟨h.run, hstep.run⟩
  · rw [hout, kexCount_append]
    exact Nat.lt_of_lt_of_le h.begun (Nat.le_add_right _ _)
  · rw [htake, payloads_append, hstate, hstep.received, h.received]
  · rw [hout, payloads_append, hstate, hstep.submitted, h.submitted, List.append_assoc,
      hstep.queue, List.append_assoc]

/-- The packet an end takes next. -/
theorem KexInv.next (hs : env.Sound conf d) (hq : KexInv env conf d (!b) q p) {m : Sealed α}
    (hm : q.sent[p.taken]? = some m) (hat : KexAt env conf d b n ph p.state)
    (htaken : kexCount (q.sent.take p.taken) = KexPhase.taken n ph) :
    m.keys = p.state.keysIn ∧ ∃ r, p.state.receive env m = some r ∧
      KexStep env conf d b n ph p.state m.body.isKex.toNat [] m.body.payload.toList r :=
  hat.receive hs (htaken ▸ hq.run.getElem hm)

theorem KexInv.move (hs : env.Sound conf d) {p' : KexEnd α} {e : Option (KexEvent α)}
    (hp : KexInv env conf d b p q) (hq : KexInv env conf d (!b) q p)
    (hmove : Duplex.Move (kexMachine env) p q e p') :
    KexInv env conf d b p' q ∧ KexInv env conf d (!b) q p' := by
  obtain ⟨n, ph, hat, hsent, htaken⟩ := hp.place
  cases hmove with
  | act hr =>
    obtain ⟨added, hstep⟩ := hat.act hr
    exact ⟨@KexInv.after _ _ _ _ _ _ _ _ _ _ hp hsent htaken [] _ _ hstep rfl rfl
      (List.append_nil _).symm hp.bound, hq.peer_after rfl⟩
  | @receive m r hm hr =>
    obtain ⟨-, r', hr', hstep⟩ := hq.next hs hm hat htaken
    obtain rfl := Option.some.inj (hr'.symm.trans hr)
    have hlt := (List.getElem?_eq_some_iff.mp hm).1
    have htake : q.sent.take (p.taken + 1) = q.sent.take p.taken ++ [m] := by
      rw [List.take_add_one, hm]
      rfl
    have hcount : kexCount [m] = m.body.isKex.toNat := by simp
    have hload : payloads [m] = m.body.payload.toList := by simp
    rw [← hcount, ← hload] at hstep
    exact ⟨hp.after hsent htaken hstep rfl rfl htake hlt, hq.peer_after rfl⟩

/-- The first `KEXINIT`. -/
theorem kexSetup_eq (b : Bool) :
    kexSetup env b = (startedState env conf d b 0 [] [] [] [],
      [⟨epochKeys env conf d b .modeOut 0, .kexinit (kexinitOf env b 0)⟩]) := by
  have hlen : (List.replicate kexCookieLen (0 : UInt8)).length = kexCookieLen :=
    List.length_replicate
  rw [← sendKexinit_idleState hlen]
  rfl

/-- The ends at the start. -/
theorem kexInv_start (b : Bool) (q : KexEnd α) : KexInv env conf d b (kexStart env b) q := by
  have hstart : kexStart env b =
      { state := startedState env conf d b 0 [] [] [] []
        sent := [⟨epochKeys env conf d b .modeOut 0, .kexinit (kexinitOf env b 0)⟩] } := by
    unfold kexStart
    rw [@kexSetup_eq _ env conf d]
  rw [hstart]
  exact ⟨⟨0, .started, .started [] (fun m hm => absurd hm List.not_mem_nil) [] [], rfl, rfl⟩,
    ⟨.kex rfl (kexBodyOf_init b 0).symm rfl, trivial⟩, Nat.one_pos, Nat.zero_le _, rfl, rfl⟩

/-- The invariant holds in every run. -/
theorem kexInv_run (hs : env.Sound conf d) {evs : List (Duplex.Event (KexEvent α))}
    {ps : Bool → KexEnd α}
    (h : Transition.run (Duplex.step (kexMachine env)) (kexStart env) evs = some ps) :
    ∀ b, KexInv env conf d b (ps b) (ps !b) := by
  refine Transition.inv_run (I := fun ps => ∀ b, KexInv env conf d b (ps b) (ps !b)) ?_ h
    fun b => kexInv_start b _
  intro s e s' hi hstep
  refine Duplex.inv_step_side (I := KexInv env conf d) ?_ hstep hi
  intro p' hp hq hmove
  exact hp.move hs hq hmove

/-- Two ends with nothing under way are between the same two exchanges. -/
theorem idle_of_quiet {n' : ℕ} {ph' : KexPhase} (h : KexPhase.sent b n ph = KexPhase.taken n' ph')
    (h' : KexPhase.sent (!b) n' ph' = KexPhase.taken n ph) : ph = .idle ∧ ph' = .idle ∧ n = n' := by
  cases b <;> cases ph <;> cases ph' <;>
    simp only [KexPhase.sent, KexPhase.taken, Bool.not_false, Bool.not_true, if_true,
      Bool.false_eq_true, if_false] at h h' <;>
    first | omega | exact ⟨rfl, rfl, by omega⟩

/-- No packet of the upper layers is lost, doubled or overtaken. -/
theorem KexInv.delivered (hp : KexInv env conf d b p q) (hq : KexInv env conf d (!b) q p) :
    q.state.submitted = p.state.received ++ payloads (p.incoming q) ++ q.state.queued := by
  rw [hq.submitted, hp.received, Duplex.Party.incoming, ← payloads_append, List.take_append_drop]

/-- With nothing under way both ends have done the same exchanges. -/
theorem KexInv.quiet (hs : env.Sound conf d) (hp : KexInv env conf d b p q)
    (hq : KexInv env conf d (!b) q p) (hin : p.incoming q = []) (hout : q.incoming p = []) :
    p.state.done = true ∧ p.state.rekeying = false ∧ p.state.queued = [] ∧
      p.state.sessionId = some (hashOf env d 0) ∧ p.state.keysIn ≠ none ∧
      p.state.keysIn = q.state.keysOut := by
  obtain ⟨n, ph, hat, hsent, htaken⟩ := hp.place
  obtain ⟨n', ph', hat', hsent', htaken'⟩ := hq.place
  have hall : q.sent.take p.taken = q.sent :=
    List.take_of_length_le (List.drop_eq_nil_iff.mp hin)
  have hall' : p.sent.take q.taken = p.sent :=
    List.take_of_length_le (List.drop_eq_nil_iff.mp hout)
  rw [hall, hsent'] at htaken
  rw [hall', hsent] at htaken'
  obtain ⟨rfl, rfl, rfl⟩ := idle_of_quiet htaken' htaken
  have hn : n ≠ 0 := by
    have hbegun := hp.begun
    rw [hsent, KexPhase.sent] at hbegun
    omega
  obtain ⟨k, rfl⟩ := Nat.exists_eq_succ_of_ne_zero hn
  have hfit : p.state.keysIn = q.state.keysOut := by
    rw [hat.keysIn, hat'.keysOut, ← epochKeys_mirror hs]
    rfl
  obtain ⟨hdone, hrekeying, hqueued, hsession, hkeys⟩ := hat.rest
  exact ⟨hdone, hrekeying, hqueued, hsession, hkeys, hfit⟩

/-- **Key exchanges keep the two ends in step.**  In every run, whoever starts an exchange and
when: the next packet under way to an end is opened with the keys it was sealed with and is
accepted, no end ever sees a key exchange packet out of place, everything the upper layers hand
over arrives once and in order, and when nothing is under way both ends have finished the same
exchange, with the same session id and fitting keys, and hold nothing back. -/
theorem key_exchange_in_step (env : KexEnv α) (conf : Bool → KexConf) (d : DhGroup)
    (hs : env.Sound conf d) (evs : List (Duplex.Event (KexEvent α))) (ps : Bool → KexEnd α)
    (h : Transition.run (Duplex.step (kexMachine env)) (kexStart env) evs = some ps) (b : Bool) :
    (∀ m, (ps !b).sent[(ps b).taken]? = some m →
      m.keys = (ps b).state.keysIn ∧ (Duplex.step (kexMachine env) ps (.deliver b)).isSome) ∧
    (ps b).state.errors = 0 ∧
    (ps !b).state.submitted = (ps b).state.received ++ payloads ((ps b).incoming (ps !b)) ++
      (ps !b).state.queued ∧
    ((ps b).incoming (ps !b) = [] → (ps !b).incoming (ps b) = [] →
      (ps b).state.done = true ∧ (ps b).state.rekeying = false ∧
      (ps b).state.queued = [] ∧ (ps b).state.sessionId = some (hashOf env d 0) ∧
      (ps b).state.keysIn ≠ none ∧ (ps b).state.keysIn = (ps !b).state.keysOut) := by
  have hp := kexInv_run hs h b
  have hq := kexInv_run hs h !b
  rw [Bool.not_not] at hq
  obtain ⟨n, ph, hat, -, htaken⟩ := hp.place
  refine ⟨?_, hat.errors, hp.delivered hq, hp.quiet hs hq⟩
  intro m hm
  obtain ⟨hkeys, r, hr, -⟩ := hq.next hs hm hat htaken
  refine ⟨hkeys, ?_⟩
  rw [Duplex.step_deliver (M := kexMachine env) hm hr]
  rfl

/-- A small environment: the group of order 22 and a hash of one byte. -/
def smallEnv (isNotify : α → Bool) : KexEnv α where
  proposal := fun _ => shortProposal "aes128-ctr" "arcfour"
  clientVersion := ascii "SSH-2.0-client"
  serverVersion := ascii "SSH-2.0-server"
  hostKey := [7]
  hostKeyOk := fun key => key = [7]
  digest := fun bytes => [bytes.foldl (· + ·) 0]
  sign := fun hash => 7 :: hash
  verify := fun signature hash => signature = 7 :: hash
  group := fun _ => some ⟨23, 5⟩
  cookie := fun b n => List.replicate kexCookieLen (if b then 1 else UInt8.ofNat n)
  secret := fun b _ => if b then 5 else 3
  isNotify := isNotify

theorem isSome_chooseConf_short (b : Bool) :
    (chooseConf b (shortProposal "aes128-ctr" "arcfour", false)
      (shortProposal "aes128-ctr" "arcfour", false)).isSome = true := by
  cases b <;> decide +kernel

/-- The outcome of its negotiation. -/
def smallConf (b : Bool) : KexConf :=
  (chooseConf b (shortProposal "aes128-ctr" "arcfour", false)
    (shortProposal "aes128-ctr" "arcfour", false)).get (isSome_chooseConf_short b)

theorem sound_smallEnv (isNotify : α → Bool) : (smallEnv isNotify).Sound smallConf ⟨23, 5⟩ where
  proposal_valid := fun _ => valid_shortProposal_client
  length_cookie := fun _ _ => List.length_replicate
  conf_eq := fun b => (Option.some_get _).symm
  group := fun _ => rfl
  secret_valid := by
    have hboth : ∀ b : Bool,
        DhGroup.pubIsValid ⟨23, 5⟩ (DhGroup.pub ⟨23, 5⟩ (if b then 5 else 3)) = true := by
      decide
    exact fun b _ => hboth b
  verify_sign := fun hash => decide_eq_true rfl
  hostKeyOk := rfl

theorem fits_one_byte : ([3] : List UInt8).length + 64 ≤ packetMaxSize := by decide

/-- The small environment with even numbers as notifications. -/
def evenEnv : KexEnv ℕ := smallEnv fun n => n % 2 = 0

/-- The first exchange, a packet of the client, and an exchange that both ends start at once. -/
def twoExchanges : List (Duplex.Event (KexEvent ℕ)) :=
  [.deliver true, .deliver false, .deliver true, .deliver false, .deliver false, .deliver true,
    .act false (.upper 1), .act false .rekey, .act true .rekey, .act false (.upper 2),
    .deliver true, .deliver true, .act true (.pad ⟨[3], fits_one_byte⟩), .deliver false,
    .deliver true, .deliver false, .deliver false, .deliver false, .deliver true, .deliver true]

/-- After both exchanges everything has arrived, and nothing is under way. -/
theorem key_exchange_in_step_twoExchanges :
    ∃ ps, Transition.run (Duplex.step (kexMachine evenEnv)) (kexStart evenEnv) twoExchanges =
        some ps ∧
      (ps true).state.received = [1, 2] ∧ (ps false).state.done = true ∧
      (ps false).state.keysIn = (ps true).state.keysOut := by
  obtain ⟨ps, hrun, hreceived, hin, hout⟩ : ∃ ps, Transition.run (Duplex.step (kexMachine evenEnv))
      (kexStart evenEnv) twoExchanges = some ps ∧ (ps true).state.received = [1, 2] ∧
      ((ps false).incoming (ps true)).isEmpty ∧ ((ps true).incoming (ps false)).isEmpty := by
    decide +kernel
  obtain ⟨-, -, -, hquiet⟩ := key_exchange_in_step evenEnv smallConf ⟨23, 5⟩
    (sound_smallEnv _) twoExchanges ps hrun false
  obtain ⟨hdone, -, -, -, -, hkeys⟩ := hquiet (List.isEmpty_iff.mp hin) (List.isEmpty_iff.mp hout)
  exact ⟨ps, hrun, hreceived, hdone, hkeys⟩

end CSBuFLO
