/-
# Bytes refine packets

The ends of `SecureChannel.lean` do what those of `KeyExchange.lean` do.  The bytes an end has
written are the encoding of the packets it has sent, with the keys changing behind every `NEWKEYS`
(`KeyedStream`); a receiver owes the packets that are under way, whatever part of the bytes it has
read (`KeyedOwes`).

* `KeyedOwes.poll`: the next packet is found under the keys of its place, or bytes are missing;
* `emit_keyedStream`: what an end writes continues the stream;
* `secure_channel`: every run over bytes is a run over packets, reading never fails, and when all
  bytes have been read and no packet is left, everything has arrived.
-/
import CSBuFLO.Delivery
import CSBuFLO.KeyAgreement
import CSBuFLO.SecureChannel

namespace CSBuFLO

/-! ## Packets are read as they are written -/

/-- Values that fit into their packets. -/
structure KexEnv.Small (env : KexEnv Upper) (d : DhGroup) : Prop where
  kexinit : ∀ b n, (kexinitOf env b n).length + 64 ≤ packetMaxSize
  pub : ∀ b n, bignum2Format.Valid (pubOf env d b n)
  reply : ∀ n, env.hostKey.length + (env.sign (hashOf env d n)).length + 16 * 1024 ≤ packetMaxSize

/-- A packet that is read as it is written, and small enough. -/
structure KexBody.Fit (m : KexBody Upper) : Prop where
  read : decodeBody m.encode = some m
  type : ∃ t data, m.encode = t :: data ∧ acceptedType t = true
  length : m.encode.length + 20 ≤ packetMaxSize

theorem Upper.ne_of_le (u : Upper) {t : UInt8} (h : t ≤ msgTransportMax) : u.type ≠ t := by
  intro hu
  have := u.outside
  rw [hu] at this
  exact absurd (UInt8.lt_of_lt_of_le this h) (UInt8.lt_irrefl _)

theorem Upper.fit (u : Upper) : (KexBody.upper u).Fit where
  read := by
    have hsome : (msgTransportMax < u.type ∧ acceptedType u.type = true) ∧
        u.data.length + 64 ≤ packetMaxSize := ⟨⟨u.outside, u.accepted⟩, u.fits⟩
    rw [KexBody.encode, decodeBody, if_neg (u.ne_of_le (by decide)),
      if_neg (u.ne_of_le (by decide)), if_neg (u.ne_of_le (by decide)),
      if_neg (u.ne_of_le (by decide)), if_neg (u.ne_of_le (by decide)), decodeUpper, dif_pos hsome]
  type := ⟨u.type, u.data, rfl, u.accepted⟩
  length := by
    have := u.fits
    rw [KexBody.encode, List.length_cons]
    omega

theorem Filler.fit (f : Filler) : (KexBody.ignore f).Fit where
  read := by
    have hdrop : (putU32 f.bytes.length ++ f.bytes).drop 4 = f.bytes := rfl
    show decodeBody (msgIgnore :: (putU32 f.bytes.length ++ f.bytes)) = _
    rw [decodeBody, if_pos rfl]
    simp only [hdrop]
    rw [dif_pos f.fits]
  type := ⟨msgIgnore, putU32 f.bytes.length ++ f.bytes, rfl, by decide⟩
  length := by
    have := f.fits
    show (ignorePayload f.bytes).length + 20 ≤ packetMaxSize
    rw [length_ignorePayload]
    omega

variable {env : KexEnv Upper} {conf : Bool → KexConf} {d : DhGroup}

theorem length_putBignum2_le {n : ℕ} (h : bignum2Format.Valid n) :
    (putBignum2 n).length ≤ 4 + 8 * 1024 := by
  have h : (bignum2Bytes n).length ≤ 8 * 1024 := h
  rw [putBignum2_eq, putString, List.length_append, length_putU32]
  omega

theorem fit_kexdhInit {e : ℕ} (he : bignum2Format.Valid e) : (KexBody.kexdhInit e).Fit where
  read := by
    have hvalid : ∀ f ∈ [Field.bignum2 e], f.Valid := by
      intro f hf
      obtain rfl := List.mem_singleton.mp hf
      exact he
    have hread : getMessage [.bignum2] (putFields [.bignum2 e]) = some [.bignum2 e] := by
      have := getMessage_putFields hvalid []
      rwa [List.append_nil, if_pos rfl] at this
    rw [KexBody.encode, decodeBody, if_neg (by decide), if_neg (by decide), if_neg (by decide),
      if_pos rfl, hread]
  type := ⟨msgKexdhInit, _, rfl, by decide⟩
  length := by
    have hlen := length_putBignum2_le he
    show (putBignum2 e ++ []).length + 1 + 20 ≤ packetMaxSize
    rw [List.append_nil]
    unfold packetMaxSize
    omega

theorem fit_kexdhReply {hostKey signature : List UInt8} {f : ℕ} (hf : bignum2Format.Valid f)
    (hfits : hostKey.length + signature.length + 16 * 1024 ≤ packetMaxSize) :
    (KexBody.kexdhReply hostKey f signature).Fit where
  read := by
    have hvalid : ∀ x ∈ [Field.string hostKey, .bignum2 f, .string signature], x.Valid := by
      intro x hx
      unfold packetMaxSize at hfits
      simp only [List.mem_cons, List.not_mem_nil, or_false] at hx
      rcases hx with rfl | rfl | rfl
      · show hostKey.length ≤ 256 * 1024
        omega
      · exact hf
      · show signature.length ≤ 256 * 1024
        omega
    have hread : getMessage [.string, .bignum2, .string]
        (putFields [.string hostKey, .bignum2 f, .string signature]) =
        some [.string hostKey, .bignum2 f, .string signature] := by
      have := getMessage_putFields hvalid []
      rwa [List.append_nil, if_pos rfl] at this
    rw [KexBody.encode, decodeBody, if_neg (by decide), if_neg (by decide), if_neg (by decide),
      if_neg (by decide), if_pos rfl, hread]
  type := ⟨msgKexdhReply, _, rfl, by decide⟩
  length := by
    have hlen := length_putBignum2_le hf
    show (putString hostKey ++ (putBignum2 f ++ (putString signature ++ []))).length + 1 + 20 ≤
      packetMaxSize
    simp only [putString, List.length_append, length_putU32, List.length_nil]
    omega

/-- The packets of an exchange are read as they are written. -/
theorem fit_kexBodyOf (hsmall : env.Small d) (b : Bool) (k : ℕ) :
    (kexBodyOf env d b k).Fit := by
  unfold kexBodyOf
  split
  · have hfits := hsmall.kexinit b (k / 3)
    refine ⟨rfl, ⟨msgKexinit, _, rfl, by decide⟩, ?_⟩
    show (kexinitOf env b (k / 3)).length + 1 + 20 ≤ packetMaxSize
    omega
  split
  · cases b with
    | true => exact fit_kexdhReply (hsmall.pub true (k / 3)) (hsmall.reply (k / 3))
    | false => exact fit_kexdhInit (hsmall.pub false (k / 3))
  · exact ⟨rfl, ⟨msgNewkeys, [], rfl, by decide⟩, by decide⟩

variable {b : Bool} {k : ℕ} {bs rest : List UInt8} {ms : List (Sealed Upper)}
  {ps : Bool → KexEnd Upper}

/-- All packets an end sends are read as they are written. -/
theorem KexSlot.fit (hsmall : env.Small d) {m : Sealed Upper} (h : KexSlot env conf d b k m) :
    m.body.Fit := by
  by_cases hkex : m.body.isKex = true
  · rw [h.body hkex]
    exact fit_kexBodyOf hsmall b k
  · obtain ⟨ks, body⟩ := m
    cases body with
    | kexinit p => exact absurd rfl hkex
    | kexdhInit e => exact absurd rfl hkex
    | kexdhReply k f g => exact absurd rfl hkex
    | newkeys => exact absurd rfl hkex
    | ignore filler => exact filler.fit
    | upper u => exact u.fit

/-! ## The stream of an end -/

variable {κ : Type} {X : Suite κ}

/-- One packet on the wire. -/
theorem packetStream_wrapped {K : Keys κ} {s s' : SendState κ} {payload : List UInt8}
    (h : packetSend2Wrapped K s 0 payload = some (bs, s'))
    (htype : ∃ t data, payload = t :: data ∧ acceptedType t = true)
    (hlen : payload.length + 20 ≤ packetMaxSize) : PacketStream K s.link [payload] bs s'.link := by
  have hpad := (padLength_bounds K.blockSize_eq (5 + payload.length)).2
  have hb := K.blockSize_eq
  have hsend : packetSend (packetCodec K) false 0 payload { snd := s } =
      some { snd := s', output := bs, sent := [⟨false, payload, bs⟩] } := by
    unfold packetSend
    rw [show (packetCodec K).send2 s 0 payload = some (bs, s') from h]
    rfl
  obtain ⟨bs', heq, hstream⟩ := packetStream_packetSend hsend (Or.inl rfl) htype (by omega)
  obtain rfl : bs = bs' := congrArg PacketState.output heq
  exact hstream

/-- The link behind a packet: `set_newkeys` starts with a new context and packet counter. -/
def switchLink (X : Suite κ) (m : KexBody Upper) (keys : Option DirKeys) (z : Link κ) : Link κ :=
  if m.isNewkeys then ⟨X.ctxOut keys, z.seqnr, 0⟩ else z

/-- A packet at the place of the `k`-th key exchange packet: it has the keys of that place, can be
read, and the keys change behind `NEWKEYS` only.  `keyAt` are the keys after a number of
exchanges. -/
structure Placed (keyAt : ℕ → Option DirKeys) (k : ℕ) (m : Sealed Upper) : Prop where
  keys : m.keys = keyAt (k / 3)
  fit : m.body.Fit
  epoch : (k + m.body.isKex.toNat) / 3 = if m.body.isNewkeys then (k + 1) / 3 else k / 3

/-- The bytes of packets, from the place of the `k`-th key exchange packet on. -/
inductive KeyedStream (X : Suite κ) (keyAt : ℕ → Option DirKeys) :
    ℕ → Link κ → List (Sealed Upper) → List UInt8 → ℕ → Link κ → Prop where
  | nil (k : ℕ) (a : Link κ) : KeyedStream X keyAt k a [] [] k a
  | cons {k k' : ℕ} {a a' z : Link κ} {m : Sealed Upper} {ms : List (Sealed Upper)}
      {bs cs : List UInt8} (hplaced : Placed keyAt k m)
      (hone : PacketStream (X.keys (keyAt (k / 3))) a [m.body.encode] bs a')
      (htail : KeyedStream X keyAt (k + m.body.isKex.toNat)
        (switchLink X m.body (keyAt ((k + 1) / 3)) a') ms cs k' z) :
      KeyedStream X keyAt k a (m :: ms) (bs ++ cs) k' z

variable {keyAt : ℕ → Option DirKeys}

theorem KeyedStream.append {k1 k2 : ℕ} {a b z : Link κ} {ns : List (Sealed Upper)} {cs : List UInt8}
    (h1 : KeyedStream X keyAt k a ms bs k1 b) (h2 : KeyedStream X keyAt k1 b ns cs k2 z) :
    KeyedStream X keyAt k a (ms ++ ns) (bs ++ cs) k2 z := by
  induction h1 with
  | nil k a => exact h2
  | cons hplaced hone _ ih =>
    rw [List.append_assoc]
    exact .cons hplaced hone (ih h2)

/-- `NEWKEYS` is the third packet of an exchange. -/
theorem KexSlot.isNewkeys_iff {m : Sealed Upper} (h : KexSlot env conf d b k m)
    (hkex : m.body.isKex = true) : m.body.isNewkeys = true ↔ k % 3 = 2 := by
  have hlt := Nat.mod_lt k (show 3 > 0 by decide)
  rw [h.body hkex]
  unfold kexBodyOf
  split
  · rename_i hmod
    simp [KexBody.isNewkeys, hmod]
  split
  · rename_i hmod
    cases b <;> simp [KexBody.isNewkeys, hmod]
  · simp only [KexBody.isNewkeys, true_iff]
    omega

theorem KexBody.isKex_of_isNewkeys {m : KexBody Upper} (h : m.isNewkeys = true) :
    m.isKex = true := by
  cases m with
  | newkeys => rfl
  | kexinit p => cases h
  | kexdhInit e => cases h
  | kexdhReply k f g => cases h
  | ignore filler => cases h
  | upper u => cases h

theorem KexSlot.placed (hsmall : env.Small d) {m : Sealed Upper} (h : KexSlot env conf d b k m) :
    Placed (epochKeys env conf d b .modeOut) k m where
  keys := h.keys
  fit := h.fit hsmall
  epoch := by
    cases hkex : m.body.isKex with
    | true =>
      have hiff := h.isNewkeys_iff hkex
      split
      · rfl
      · rename_i hnew
        rw [hiff] at hnew
        rw [Bool.toNat_true]
        omega
    | false =>
      rw [if_neg fun hnew => by rw [KexBody.isKex_of_isNewkeys hnew] at hkex; cases hkex]
      rfl

/-- **What an end writes continues its stream.**  There is at most one `NEWKEYS` among the packets
of a step, so the keys behind it are those at the end of the step. -/
theorem emit_keyedStream (hsmall : env.Small d) {last : ℕ} {snd snd' : SendState κ}
    (hrun : KexRun env conf d b k ms) (hlast : k + kexCount ms = last) (hfew : last ≤ k + 2)
    (h : emit X (epochKeys env conf d b .modeOut (last / 3)) snd ms = some (snd', bs)) :
    KeyedStream X (epochKeys env conf d b .modeOut) k snd.link ms bs last snd'.link := by
  induction ms generalizing k snd bs with
  | nil =>
    obtain ⟨rfl, rfl⟩ := Prod.mk.inj (Option.some.inj h)
    subst hlast
    exact .nil k _
  | cons m ms ih =>
    obtain ⟨hslot, hrun⟩ := hrun
    rw [kexCount_cons] at hlast
    obtain ⟨⟨bs1, snd1⟩, h1, h⟩ := Option.bind_eq_some_iff.mp h
    obtain ⟨⟨snd2, bs2⟩, h2, h⟩ := Option.map_eq_some_iff.mp h
    obtain ⟨rfl, rfl⟩ := Prod.mk.inj h
    have hfit := hslot.fit hsmall
    rw [hslot.keys] at h1
    refine .cons (hslot.placed hsmall) (packetStream_wrapped h1 hfit.type hfit.length) ?_
    have htail := ih hrun (by omega) (by omega) h2
    -- the place where the keys change, if it is here
    have hlink : (if m.body.isNewkeys = true then { snd1 with
          ctx := X.ctxOut (epochKeys env conf d b .modeOut (last / 3)), packets := 0 }
        else snd1).link =
        switchLink X m.body (epochKeys env conf d b .modeOut ((k + 1) / 3)) snd1.link := by
      unfold switchLink
      split
      · rename_i hnew
        have hkex := KexBody.isKex_of_isNewkeys hnew
        have hmod := (hslot.isNewkeys_iff hkex).mp hnew
        rw [hkex, Bool.toNat_true] at hlast
        rw [show last / 3 = (k + 1) / 3 by omega]
        rfl
      · rfl
    rw [← hlink]
    exact htail

/-! ## The receiver -/

/-- A receiver at the beginning of a packet, with the link state of its sender. -/
structure AtPacket (K : Keys κ) (r : RecvState κ) (a : Link κ) : Prop where
  discard : r.discard = 0
  packlen : r.packlen = 0
  synced : K.cipher.Synced a.ctx r.ctx
  seqnr : r.seqnr = a.seqnr
  packets : r.packets = a.packets

variable {r : RecvState κ}

/-- The next packet is due, whether its last byte has been read or not. -/
theorem AtPacket.due {K : Keys κ} {a z : Link κ} (h : AtPacket K r a) {payload late : List UInt8}
    (hone : PacketStream K a [payload] bs z) (hbytes : r.input ++ rest = bs ++ late) :
    (packetDecoder K).Due (RecvOwes K z) [payload] late r rest := by
  have hlink : ({ ctx := a.ctx, seqnr := r.seqnr, packets := r.packets } : Link κ) = a := by
    rw [h.seqnr, h.packets]
  rcases List.append_eq_append_iff.mp hbytes with ⟨mid, hbs, rfl⟩ | ⟨extra, hinput, rfl⟩
  · refine .coming (.between h.discard h.packlen h.synced ?_)
    rw [hlink, ← hbs]
    exact hone
  · have howes : RecvOwes K z { r with input := bs } [payload] [] := by
      refine .between h.discard h.packlen h.synced ?_
      rw [hlink, List.append_nil]
      exact hone
    have hfeed : packetProcessIncoming { r with input := bs } extra = some r := by
      unfold packetProcessIncoming
      rw [if_neg (not_not.mpr h.discard), ← hinput]
    exact .reached howes hfeed rfl

/-- Behind the last packet that was due. -/
theorem atPacket_of_due {K : Keys κ} {z : Link κ} {late : List UInt8}
    (h : (packetDecoder K).Due (RecvOwes K z) [] late r rest) :
    AtPacket K r z ∧ r.input ++ rest = late := by
  cases h with
  | coming h =>
    cases h with
    | between hdiscard hpacklen hsync hstream =>
      generalize hbytes : r.input ++ _ = bytes at hstream
      cases hstream
      obtain ⟨hinput, hrest⟩ := List.append_eq_nil_iff.mp hbytes
      rw [hinput, hrest]
      exact ⟨⟨hdiscard, hpacklen, hsync, rfl, rfl⟩, rfl⟩
  | reached h hfeed hlate =>
    cases h with
    | between hdiscard hpacklen hsync hstream =>
      generalize hbytes : _ ++ [] = bytes at hstream
      cases hstream
      rw [List.append_nil] at hbytes
      have hfeed : packetProcessIncoming _ _ = some r := hfeed
      unfold packetProcessIncoming at hfeed
      rw [if_neg (not_not.mpr hdiscard), hbytes] at hfeed
      obtain rfl := Option.some.inj hfeed
      exact ⟨⟨hdiscard, hpacklen, hsync, rfl, rfl⟩, hlate⟩

/-- What a receiver owes at the place of the `k`-th key exchange packet: nothing when everything
has been read, otherwise the packet it is at and those behind it. -/
inductive KeyedOwes (X : Suite κ) (keyAt : ℕ → Option DirKeys) :
    ℕ → RecvState κ → List (Sealed Upper) → List UInt8 → ℕ → Link κ → Prop where
  | done {k : ℕ} {r : RecvState κ} {z : Link κ} (h : AtPacket (X.keys (keyAt (k / 3))) r z)
      (hinput : r.input = []) : KeyedOwes X keyAt k r [] [] k z
  | due {k k' : ℕ} {r : RecvState κ} {a z : Link κ} {m : Sealed Upper} {ms : List (Sealed Upper)}
      {late rest : List UInt8} (hplaced : Placed keyAt k m)
      (hdue : (packetDecoder (X.keys (keyAt (k / 3)))).Due
        (RecvOwes (X.keys (keyAt (k / 3))) a) [m.body.encode] late r rest)
      (htail : KeyedStream X keyAt (k + m.body.isKex.toNat)
        (switchLink X m.body (keyAt ((k + 1) / 3)) a) ms late k' z) :
      KeyedOwes X keyAt k r (m :: ms) rest k' z

theorem AtPacket.owes {k' : ℕ} {a z : Link κ} (h : AtPacket (X.keys (keyAt (k / 3))) r a)
    {bytes : List UInt8} (hstream : KeyedStream X keyAt k a ms bytes k' z)
    (hbytes : r.input ++ rest = bytes) : KeyedOwes X keyAt k r ms rest k' z := by
  cases hstream with
  | nil =>
    obtain ⟨hinput, rfl⟩ := List.append_eq_nil_iff.mp hbytes
    exact .done h hinput
  | cons hplaced hone htail => exact .due hplaced (h.due hone hbytes) htail

/-- `set_newkeys` on both sides. -/
theorem AtPacket.switch {a : Link κ} {m : Sealed Upper} (h : AtPacket (X.keys (keyAt (k / 3))) r a)
    (hplaced : Placed keyAt k m) :
    AtPacket (X.keys (keyAt ((k + m.body.isKex.toNat) / 3)))
      (WireState.switchIn X m.body (keyAt ((k + 1) / 3)) r)
      (switchLink X m.body (keyAt ((k + 1) / 3)) a) := by
  rw [hplaced.epoch]
  unfold WireState.switchIn switchLink
  split
  · exact ⟨h.discard, h.packlen, X.synced _, h.seqnr, rfl⟩
  · exact h

namespace KeyedOwes

variable {k k' : ℕ} {r : RecvState κ} {z : Link κ} {ms : List (Sealed Upper)} {rest : List UInt8}

/-- The sender goes on. -/
theorem extend (h : KeyedOwes X keyAt k r ms rest k' z) {k2 : ℕ} {z2 : Link κ}
    {ns : List (Sealed Upper)} (hstream : KeyedStream X keyAt k' z ns bs k2 z2) :
    KeyedOwes X keyAt k r (ms ++ ns) (rest ++ bs) k2 z2 := by
  cases h with
  | done h hinput =>
    refine h.owes hstream ?_
    rw [hinput]
    rfl
  | due hplaced hdue htail => exact .due hplaced (hdue.append bs) (htail.append hstream)

theorem recvOwes_discard {K : Keys κ} {a : Link κ} {ps : List (List UInt8)}
    (h : RecvOwes K a r ps rest) : r.discard = 0 := by
  cases h with
  | between hdiscard => exact hdiscard
  | halfway hdiscard => exact hdiscard

theorem discard_eq (h : KeyedOwes X keyAt k r ms rest k' z) : r.discard = 0 := by
  cases h with
  | done h => exact h.discard
  | due hplaced hdue htail =>
    cases hdue with
    | coming h => exact recvOwes_discard h
    | reached h hfeed hlate =>
      have hzero := recvOwes_discard h
      have hfeed : packetProcessIncoming _ _ = some r := hfeed
      unfold packetProcessIncoming at hfeed
      rw [if_neg (not_not.mpr hzero)] at hfeed
      obtain rfl := Option.some.inj hfeed
      exact hzero

/-- A piece of the stream is taken. -/
theorem feed {piece : List UInt8} (h : KeyedOwes X keyAt k r ms (piece ++ rest) k' z) :
    ∃ r', packetProcessIncoming r piece = some r' ∧ KeyedOwes X keyAt k r' ms rest k' z := by
  have hfeed : packetProcessIncoming r piece = some { r with input := r.input ++ piece } :=
    if_neg (not_not.mpr h.discard_eq)
  refine ⟨_, hfeed, ?_⟩
  generalize hwhole : piece ++ rest = whole at h
  cases h with
  | done h hinput =>
    obtain ⟨rfl, rfl⟩ := List.append_eq_nil_iff.mp hwhole
    refine .done ⟨h.discard, h.packlen, h.synced, h.seqnr, h.packets⟩ ?_
    rw [hinput]
    rfl
  | due hplaced hdue htail =>
    subst hwhole
    exact .due hplaced (hdue.feed (steady_packetDecoder _) (owes_packetDecoder _ _) hfeed) htail

/-- **The next packet.**  Either bytes are missing, or the next packet is found under the keys of
its place; behind `NEWKEYS` the receiver goes on with the next keys. -/
theorem poll (h : KeyedOwes X keyAt k r ms rest k' z) :
    (∃ r', packetReadPoll2 (X.keys (keyAt (k / 3))) r = some (none, r') ∧
      KeyedOwes X keyAt k r' ms rest k' z ∧ (rest = [] → ms = [])) ∨
    (∃ m ms' r', ms = m :: ms' ∧ Placed keyAt k m ∧
      packetReadPoll2 (X.keys (keyAt (k / 3))) r = some (some m.body.encode, r') ∧
      KeyedOwes X keyAt (k + m.body.isKex.toNat)
        (WireState.switchIn X m.body (keyAt ((k + 1) / 3)) r') ms' rest k' z) := by
  cases h with
  | done h hinput =>
    left
    refine ⟨r, packetReadPoll2_of_short h.discard h.packlen ?_, .done h hinput, fun _ => rfl⟩
    have := (X.keys (keyAt (k / 3))).blockSize_eq
    rw [hinput, List.length_nil]
    omega
  | due hplaced hdue htail =>
    rename_i a m ms late
    have hsteady := steady_packetDecoder (X.keys (keyAt (k / 3)))
    have howes := owes_packetDecoder (X.keys (keyAt (k / 3))) a
    obtain ⟨⟨found, r'⟩, hpoll⟩ := hdue.poll_isSome hsteady howes (List.cons_ne_nil _ _)
    rcases hdue.poll hsteady howes hpoll (List.cons_ne_nil _ _) with
      ⟨rfl, hdue'⟩ | ⟨payload, ps', rfl, hps, hdue'⟩
    · left
      refine ⟨r', hpoll, .due hplaced hdue' htail, fun hnil => ?_⟩
      subst hnil
      exact absurd (hdue.eq_nil hsteady howes hpoll (Nat.zero_le _)) (List.cons_ne_nil _ _)
    · right
      obtain ⟨rfl, rfl⟩ := List.cons.inj hps
      obtain ⟨hready, hbytes⟩ := atPacket_of_due hdue'
      refine ⟨m, ms, r', rfl, hplaced, hpoll, hready.switch hplaced |>.owes htail ?_⟩
      rw [← hbytes]
      unfold WireState.switchIn
      split <;> rfl

end KeyedOwes

/-! ## Both ends -/

/-- One end that reads bytes, next to the same end with whole packets. -/
structure WireInv (X : Suite κ) (env : KexEnv Upper) (conf : Bool → KexConf) (d : DhGroup)
    (b : Bool) (w v : WireEnd κ) (p q : KexEnd Upper) : Prop where
  kex : w.state.kex = p.state
  read : w.taken ≤ v.sent.length
  owes : KeyedOwes X (epochKeys env conf d (!b) .modeOut) (kexCount (q.sent.take p.taken))
    w.state.recv (q.sent.drop p.taken) (v.sent.drop w.taken) (kexCount q.sent) v.state.snd.link

/-- What the other end writes. -/
theorem WireInv.write {w v v' : WireEnd κ} {p q q' : KexEnd Upper}
    (h : WireInv X env conf d b w v p q) (hbound : p.taken ≤ q.sent.length)
    (hv' : v'.sent = v.sent ++ bs) (hq' : q'.sent = q.sent ++ ms)
    (hstream : KeyedStream X (epochKeys env conf d (!b) .modeOut) (kexCount q.sent)
      v.state.snd.link ms bs (kexCount q.sent + kexCount ms) v'.state.snd.link) :
    WireInv X env conf d b w v' p q' := by
  refine ⟨h.kex, ?_, ?_⟩
  · rw [hv', List.length_append]
    exact Nat.le_add_right_of_le h.read
  · rw [hv', hq', List.take_append_of_le_length hbound, List.drop_append_of_le_length hbound,
      List.drop_append_of_le_length h.read, kexCount_append]
    exact h.owes.extend hstream

/-- A step of an end continues its stream. -/
theorem KexStep.stream (hsmall : env.Small d) {n : ℕ} {ph : KexPhase} {s : KexState Upper}
    {took : ℕ} {added got : List Upper} {r : KexState Upper × List (Sealed Upper)}
    (h : KexStep env conf d b n ph s took added got r) (hk : k = KexPhase.sent b n ph)
    {snd snd' : SendState κ} (hemit : emit X r.1.keysOut snd r.2 = some (snd', bs)) :
    KeyedStream X (epochKeys env conf d b .modeOut) k snd.link r.2 bs (k + kexCount r.2)
      snd'.link := by
  obtain ⟨n', ph', hat, hsent, -⟩ := h.moved
  subst hk
  rw [hat.keysOut, hsent] at hemit
  exact emit_keyedStream hsmall h.run rfl (Nat.add_le_add_left h.few _) hemit

/-- The keys an end reads with are those of the place it has come to. -/
theorem keysIn_eq (hs : env.Sound conf d) {n : ℕ} {ph : KexPhase} {s : KexState Upper}
    (hat : KexAt env conf d b n ph s) (hk : k = KexPhase.taken n ph) :
    s.keysIn = epochKeys env conf d (!b) .modeOut (k / 3) := by
  rw [hat.keysIn, epochKeys_mirror hs, hk]

/-- What an end does on its own, apart from looking for packets. -/
theorem act_eq_some {w : WireState κ} {e : WireEvent} {r : WireState κ × List UInt8}
    (h : w.act X env e = some r) (he : e ≠ .poll) :
    ∃ e' s tape, w.kex.act env e' = some s ∧
      WireState.apply X { w with snd := { w.snd with tape := tape } } s = some r := by
  cases e with
  | poll => exact absurd rfl he
  | upper u =>
    obtain ⟨s, hs, hr⟩ := Option.bind_eq_some_iff.mp h
    exact ⟨_, s, w.snd.tape, hs, hr⟩
  | rekey =>
    obtain ⟨s, hs, hr⟩ := Option.bind_eq_some_iff.mp h
    exact ⟨_, s, w.snd.tape, hs, hr⟩
  | pad n =>
    have h : w.sendIgnore X env n = some r := h
    unfold WireState.sendIgnore at h
    split at h
    · obtain ⟨s, hs, hr⟩ := Option.bind_eq_some_iff.mp h
      exact ⟨_, s, _, hs, hr⟩
    · cases h

section Step

variable {b : Bool} {w v : WireEnd κ} {p q : KexEnd Upper}

/-- An event of one end is the same event with whole packets. -/
theorem WireInv.act (hsmall : env.Small d) (hp : KexInv env conf d b p q)
    (hq : KexInv env conf d (!b) q p) (hw : WireInv X env conf d b w v p q)
    (hv : WireInv X env conf d (!b) v w q p) {e : WireEvent} {r : WireState κ × List UInt8}
    (h : w.state.act X env e = some r) (he : e ≠ .poll) :
    ∃ e' s, p.state.act env e' = some s ∧ WireInv X env conf d b (w.after r) v (p.after s) q ∧
      WireInv X env conf d (!b) v (w.after r) q (p.after s) := by
  obtain ⟨e', s, tape, hact, happly⟩ := act_eq_some h he
  obtain ⟨⟨snd', bs⟩, hemit, rfl⟩ := Option.map_eq_some_iff.mp happly
  obtain ⟨n, ph, hat, hsent, -⟩ := hp.place
  rw [hw.kex] at hact
  obtain ⟨added, hstep⟩ := hat.act hact
  refine ⟨e', s, hact, ⟨rfl, hw.read, hw.owes⟩, hv.write hq.bound rfl rfl ?_⟩
  rw [Bool.not_not]
  -- the random bytes are no part of the link
  have hstream := hstep.stream hsmall hsent hemit
  exact hstream

/-- An end takes a byte. -/
theorem WireInv.take (hw : WireInv X env conf d b w v p q) {byte : UInt8}
    (hbyte : v.sent[w.taken]? = some byte) :
    ∃ recv, packetProcessIncoming w.state.recv [byte] = some recv ∧
      WireInv X env conf d b { w with state := { w.state with recv := recv }, taken := w.taken + 1 }
        v p q := by
  obtain ⟨hlt, rfl⟩ := List.getElem?_eq_some_iff.mp hbyte
  have howes := hw.owes
  rw [List.drop_eq_getElem_cons hlt] at howes
  obtain ⟨recv, hfeed, howes⟩ := @KeyedOwes.feed _ _ _ _ _ _ _ _ _ [_] howes
  exact ⟨recv, hfeed, hw.kex, hlt, howes⟩

/-- **An end looks for a packet.**  Bytes are missing, or the next packet is found and taken as it
is without encoding. -/
theorem WireInv.poll (hs : env.Sound conf d) (hp : KexInv env conf d b p q)
    (hq : KexInv env conf d (!b) q p) (hw : WireInv X env conf d b w v p q) :
    (∃ recv, packetReadPoll2 (X.keys w.state.kex.keysIn) w.state.recv = some (none, recv) ∧
      WireInv X env conf d b { w with state := { w.state with recv := recv } } v p q ∧
      (w.taken = v.sent.length → p.taken = q.sent.length)) ∨
    (∃ m recv s n ph, q.sent[p.taken]? = some m ∧ decodeBody m.body.encode = some m.body ∧
      packetReadPoll2 (X.keys w.state.kex.keysIn) w.state.recv = some (some m.body.encode, recv) ∧
      m.keys = w.state.kex.keysIn ∧ p.state.receive env m = some s ∧
      kexCount p.sent = KexPhase.sent b n ph ∧
      KexStep env conf d b n ph p.state m.body.isKex.toNat [] m.body.payload.toList s ∧
      ∀ snd', WireInv X env conf d b
        { w with state := ⟨s.1, snd', WireState.switchIn X m.body s.1.keysIn recv⟩ } v
        (p.after s).take q) := by
  obtain ⟨n, ph, hat, hsent, htaken⟩ := hp.place
  have hkeys : w.state.kex.keysIn =
      epochKeys env conf d (!b) .modeOut (kexCount (q.sent.take p.taken) / 3) := by
    rw [hw.kex]
    exact keysIn_eq hs hat htaken
  rcases hw.owes.poll with ⟨recv, hpoll, howes, hdone⟩ | ⟨m, ms', recv, hms, hplaced, hpoll, howes⟩
  · left
    rw [hkeys]
    refine ⟨recv, hpoll, ⟨hw.kex, hw.read, howes⟩, fun hall => ?_⟩
    have hnil := hdone (by rw [hall, List.drop_length])
    exact Nat.le_antisymm hp.bound (List.drop_eq_nil_iff.mp hnil)
  · right
    have hget : q.sent[p.taken]? = some m := by
      rw [← List.head?_drop, hms]
      rfl
    obtain ⟨hm, s, hreceive, hstep⟩ := hq.next hs hget hat htaken
    obtain ⟨n', ph', hat', -, htaken'⟩ := hstep.moved
    have hlt := (List.getElem?_eq_some_iff.mp hget).1
    have htake : kexCount (q.sent.take (p.taken + 1)) =
        kexCount (q.sent.take p.taken) + m.body.isKex.toNat := by
      rw [List.take_add_one, hget, kexCount_append]
      simp
    have hdrop : q.sent.drop (p.taken + 1) = ms' := by
      rw [← List.drop_drop, hms]
      rfl
    -- the keys behind `NEWKEYS` are those the state has switched to
    have hswitch : WireState.switchIn X m.body s.1.keysIn recv =
        WireState.switchIn X m.body (epochKeys env conf d (!b) .modeOut
          ((kexCount (q.sent.take p.taken) + 1) / 3)) recv := by
      unfold WireState.switchIn
      split
      · rename_i hnew
        rw [KexBody.isKex_of_isNewkeys hnew, Bool.toNat_true, ← htaken] at htaken'
        rw [keysIn_eq hs hat' htaken'.symm]
      · rfl
    rw [hkeys]
    refine ⟨m, recv, s, n, ph, hget, hplaced.fit.read, hpoll, hplaced.keys, hreceive, hsent, hstep,
      fun snd' => ⟨rfl, hw.read, ?_⟩⟩
    show KeyedOwes X _ (kexCount (q.sent.take (p.taken + 1)))
      (WireState.switchIn X m.body s.1.keysIn recv) (q.sent.drop (p.taken + 1)) _ _ _
    rw [htake, hdrop, hswitch]
    exact howes

end Step

/-- Bytes next to packets, on both sides. -/
def WireRel (X : Suite κ) (env : KexEnv Upper) (conf : Bool → KexConf) (d : DhGroup)
    (ws : Bool → WireEnd κ) (ps : Bool → KexEnd Upper) : Prop :=
  ∀ b, KexInv env conf d b (ps b) (ps !b) ∧ WireInv X env conf d b (ws b) (ws !b) (ps b) (ps !b)

theorem WireRel.peer {ws : Bool → WireEnd κ} (h : WireRel X env conf d ws ps) (b : Bool) :
    KexInv env conf d (!b) (ps !b) (ps b) ∧
      WireInv X env conf d (!b) (ws !b) (ws b) (ps !b) (ps b) := by
  have hpeer := h !b
  rwa [Bool.not_not] at hpeer

/-- One end has moved. -/
theorem WireRel.update {ws : Bool → WireEnd κ} {w' : WireEnd κ} {p' : KexEnd Upper}
    (hp : KexInv env conf d b p' (ps !b) ∧ KexInv env conf d (!b) (ps !b) p')
    (hw : WireInv X env conf d b w' (ws !b) p' (ps !b))
    (hv : WireInv X env conf d (!b) (ws !b) w' (ps !b) p') :
    WireRel X env conf d (Function.update ws b w') (Function.update ps b p') := by
  intro side
  by_cases hside : side = b
  · subst hside
    rw [Function.update_self, Function.update_self, Function.update_of_ne (Bool.not_ne_self _),
      Function.update_of_ne (Bool.not_ne_self _)]
    exact ⟨hp.1, hw⟩
  · obtain rfl : side = !b := Bool.eq_not_of_ne hside
    rw [Bool.not_not, Function.update_self, Function.update_self,
      Function.update_of_ne (Bool.not_ne_self _), Function.update_of_ne (Bool.not_ne_self _)]
    exact ⟨hp.2, hv⟩

/-- **Simulation.**  An event over bytes is an event over packets, or none. -/
theorem WireRel.step (hs : env.Sound conf d) (hsmall : env.Small d) {ws ws' : Bool → WireEnd κ}
    {ev : Duplex.Event WireEvent} (hR : WireRel X env conf d ws ps)
    (h : Duplex.step (wireMachine X env) ws ev = some ws') :
    ∃ evs ps', Transition.run (Duplex.step (kexMachine env)) ps evs = some ps' ∧
      WireRel X env conf d ws' ps' := by
  have hstay : ∀ b, Function.update ps b (ps b) = ps := fun b => Function.update_eq_self b ps
  obtain ⟨w', hmove, rfl⟩ := Duplex.step_move h
  generalize ev.side = b at hmove ⊢
  obtain ⟨hp, hw⟩ := hR b
  obtain ⟨hq, hv⟩ := hR.peer b
  generalize ev.action = action at hmove
  cases hmove with
  | @receive byte r hbyte hr =>
    obtain ⟨recv, hfeed, hw'⟩ := hw.take hbyte
    have hr : (packetProcessIncoming (ws b).state.recv [byte]).map _ = some r := hr
    rw [hfeed] at hr
    obtain rfl := Option.some.inj hr
    refine ⟨[], ps, rfl, ?_⟩
    rw [← hstay b]
    exact WireRel.update ⟨hp, hq⟩ ⟨hw'.kex, hw'.read, hw'.owes⟩
      (hv.write hq.bound rfl (List.append_nil _).symm (.nil _ _))
  | @act e r hr =>
    have hr : (ws b).state.act X env e = some r := hr
    by_cases he : e = .poll
    · subst he
      have hr : (ws b).state.poll X env = some r := hr
      unfold WireState.poll at hr
      rcases hw.poll hs hp hq with ⟨recv, hpoll, hw', -⟩ |
        ⟨m, recv, s, n, ph, hget, hread, hpoll, hkeys, hreceive, hsent, hstep, hw'⟩
      · rw [hpoll, Option.bind_some] at hr
        obtain rfl := Option.some.inj hr
        refine ⟨[], ps, rfl, ?_⟩
        rw [← hstay b]
        exact WireRel.update ⟨hp, hq⟩ ⟨hw'.kex, hw'.read, hw'.owes⟩
          (hv.write hq.bound rfl (List.append_nil _).symm (.nil _ _))
      · rw [hpoll, Option.bind_some] at hr
        dsimp only at hr
        rw [hread, Option.bind_some, ← hkeys, hw.kex, hreceive, Option.bind_some] at hr
        obtain ⟨⟨snd', bs⟩, hemit, rfl⟩ := Option.map_eq_some_iff.mp hr
        have hmove : Duplex.Move (kexMachine env) (ps b) (ps !b) none ((ps b).after s).take :=
          .receive hget hreceive
        have hdeliver := Duplex.step_deliver (M := kexMachine env) hget hreceive
        refine ⟨[.deliver b], Function.update ps b ((ps b).after s).take, ?_,
          WireRel.update (hp.move hs hq hmove) ⟨(hw' snd').kex, (hw' snd').read, (hw' snd').owes⟩
            (hv.write hq.bound rfl rfl ?_)⟩
        · rw [Transition.run, hdeliver]
          rfl
        · rw [Bool.not_not]
          exact hstep.stream hsmall hsent hemit
    · obtain ⟨e', s, hact, hw', hv'⟩ := hw.act hsmall hp hq hv hr he
      have hmove : Duplex.Move (kexMachine env) (ps b) (ps !b) (some e') ((ps b).after s) :=
        .act hact
      refine ⟨[.act b e'], Function.update ps b ((ps b).after s), ?_,
        WireRel.update (hp.move hs hq hmove) hw' hv'⟩
      have hstep : Duplex.step (kexMachine env) ps (.act b e') =
          some (Function.update ps b ((ps b).after s)) := by
        rw [Duplex.step, show (kexMachine env).act (ps b).state e' = some s from hact]
        rfl
      rw [Transition.run, hstep]
      rfl

/-- One end at the start. -/
theorem wireSetup_eq_some (hsmall : env.Small d) {tape : ℕ → UInt8} {r : WireState κ × List UInt8}
    (h : wireSetup X env tape b = some r) :
    r.1.kex = (kexSetup env b).1 ∧
      r.1.recv = { ctx := X.ctxIn none, seqnr := 0, packets := 0 } ∧
      KeyedStream X (epochKeys env conf d b .modeOut) 0 ⟨X.ctxOut none, 0, 0⟩ (kexSetup env b).2
        r.2 (kexCount (kexSetup env b).2) r.1.snd.link := by
  unfold wireSetup WireState.apply at h
  obtain ⟨⟨snd, bs⟩, hemit, rfl⟩ := Option.map_eq_some_iff.mp h
  refine ⟨rfl, rfl, ?_⟩
  rw [@kexSetup_eq _ env conf d] at hemit ⊢
  exact @emit_keyedStream _ _ _ _ _ _ _ _ _ hsmall 1 ⟨X.ctxOut none, 0, 0, tape⟩ _
    ⟨.kex rfl (kexBodyOf_init b 0).symm rfl, trivial⟩ rfl (by decide) hemit

/-- The ends at the start. -/
theorem wireRel_start (hsmall : env.Small d) {tape : Bool → ℕ → UInt8}
    {start : Bool → WireState κ × List UInt8}
    (hstart : ∀ b, wireSetup X env (tape b) b = some (start b)) :
    WireRel X env conf d (fun b => { state := (start b).1, sent := (start b).2 })
      (kexStart env) := by
  intro b
  obtain ⟨hkex, hrecv, -⟩ := @wireSetup_eq_some _ conf _ _ _ _ hsmall _ _ (hstart b)
  obtain ⟨-, -, hstream⟩ := @wireSetup_eq_some _ conf _ _ _ _ hsmall _ _ (hstart !b)
  refine ⟨kexInv_start b _, hkex, Nat.zero_le _, ?_⟩
  have hready : AtPacket (X.keys (epochKeys env conf d (!b) .modeOut (0 / 3))) (start b).1.recv
      ⟨X.ctxOut none, 0, 0⟩ := by
    rw [hrecv]
    exact ⟨rfl, rfl, X.synced none, rfl, rfl⟩
  refine hready.owes hstream ?_
  rw [hrecv]
  rfl

/-- **The secure channel.**  Two ends write and read bytes, in pieces of any length, and exchange
keys as often and as they like.  Whatever they do, it is what two ends with whole packets do; the
bytes that arrive never make an end close the connection; and what an end's upper layers get is a
beginning of what the other end's have sent.  Once all bytes have been read and no packet is left,
it is all of it, both ends have done the same exchanges, and their keys fit. -/
theorem secure_channel (X : Suite κ) (env : KexEnv Upper) (conf : Bool → KexConf) (d : DhGroup)
    (hs : env.Sound conf d) (hsmall : env.Small d) (tape : Bool → ℕ → UInt8)
    (start : Bool → WireState κ × List UInt8)
    (hstart : ∀ b, wireSetup X env (tape b) b = some (start b))
    (evs : List (Duplex.Event WireEvent)) (ws : Bool → WireEnd κ)
    (h : Transition.run (Duplex.step (wireMachine X env))
      (fun b => { state := (start b).1, sent := (start b).2 }) evs = some ws) :
    ∃ evs' ps, Transition.run (Duplex.step (kexMachine env)) (kexStart env) evs' = some ps ∧
      ∀ b, (ws b).state.kex = (ps b).state ∧
        (∃ r, packetReadPoll2 (X.keys (ws b).state.kex.keysIn) (ws b).state.recv = some r ∧
          ∀ payload, r.1 = some payload → ∃ m s, decodeBody payload = some m ∧
            (ws b).state.kex.receive env ⟨(ws b).state.kex.keysIn, m⟩ = some s) ∧
        (ws b).state.kex.errors = 0 ∧
        (ws b).state.kex.received <+: (ws !b).state.kex.submitted ∧
        ((∀ side, (ws side).taken = (ws !side).sent.length ∧ ∃ recv, packetReadPoll2
            (X.keys (ws side).state.kex.keysIn) (ws side).state.recv = some (none, recv)) →
          (ws b).state.kex.received = (ws !b).state.kex.submitted ∧
          (ws b).state.kex.done = true ∧
          (ws b).state.kex.keysIn = (ws !b).state.kex.keysOut) := by
  obtain ⟨evs', ps, hrun, hR⟩ :=
    Transition.sim_run (fun hR hstep => WireRel.step hs hsmall hR hstep)
    h (wireRel_start hsmall hstart)
  have hmissing : ∀ b, (ws b).taken = (ws !b).sent.length → (∃ recv, packetReadPoll2
      (X.keys (ws b).state.kex.keysIn) (ws b).state.recv = some (none, recv)) →
      (ps b).incoming (ps !b) = [] := by
    rintro b hall ⟨recv, hnone⟩
    obtain ⟨hp, hw⟩ := hR b
    obtain ⟨hq, -⟩ := hR.peer b
    rcases hw.poll hs hp hq with ⟨recv', -, -, hdone⟩ | ⟨m, recv', s, n, ph, -, -, hpoll, -⟩
    · rw [Duplex.Party.incoming, hdone hall, List.drop_length]
    · cases hnone.symm.trans hpoll
  refine ⟨evs', ps, hrun, fun b => ?_⟩
  obtain ⟨hp, hw⟩ := hR b
  obtain ⟨hq, hv⟩ := hR.peer b
  obtain ⟨n, ph, hat, -, -⟩ := hp.place
  refine ⟨hw.kex, ?_, ?_, ?_, ?_⟩
  · rcases hw.poll hs hp hq with ⟨recv, hpoll, -⟩ | ⟨m, recv, s, n, ph, -, hread, hpoll, hkeys,
      hreceive, -⟩
    · exact ⟨_, hpoll, fun payload hpayload => by cases hpayload⟩
    · refine ⟨_, hpoll, fun payload hpayload => ?_⟩
      obtain rfl := Option.some.inj hpayload
      refine ⟨m.body, s, hread, ?_⟩
      rw [← hkeys, hw.kex]
      exact hreceive
  · rw [hw.kex]
    exact hat.errors
  · rw [hw.kex, hv.kex, hp.delivered hq, List.append_assoc]
    exact List.prefix_append _ _
  · intro hall
    have hin := hmissing b (hall b).1 (hall b).2
    have hout := hmissing (!b) (hall !b).1 (hall !b).2
    rw [Bool.not_not] at hout
    obtain ⟨hdone, -, -, -, -, hkeys⟩ := hp.quiet hs hq hin hout
    obtain ⟨-, -, hqueued, -⟩ := hq.quiet hs (by rwa [Bool.not_not]) hout hin
    rw [hw.kex, hv.kex]
    refine ⟨?_, hdone, hkeys⟩
    rw [hp.delivered hq, hin, hqueued, payloads_nil, List.append_nil, List.append_nil]

/-- Ciphers that leave the text as it is, and no MAC. -/
def plainSuite : Suite Unit where
  keys := fun _ => identityKeys 8 0 blockSize_eight
  ctxOut := fun _ => ()
  ctxIn := fun _ => ()
  synced := fun _ => trivial

/-- The small environment on the wire. -/
def wireEnv : KexEnv Upper := smallEnv Upper.isNotify

theorem small_wireEnv : wireEnv.Small ⟨23, 5⟩ where
  kexinit := by
    intro b n
    have hlen : (wireEnv.cookie b n).length = kexCookieLen := List.length_replicate
    have hrest : kexCookieLen + (((wireEnv.proposal b).toList.flatMap putString ++
        (0 :: putU32 0)).length + 64) ≤ packetMaxSize := by
      cases b <;> decide +kernel
    rw [kexinitOf, kexProp2buf, List.length_append, hlen, Nat.add_assoc]
    exact hrest
  pub := by
    have hboth : ∀ b : Bool, (bignum2Bytes (DhGroup.pub ⟨23, 5⟩ (if b then 5 else 3))).length ≤
        8 * 1024 := by
      decide +kernel
    exact fun b _ => hboth b
  reply := by
    intro n
    show 1 + 2 + 16 * 1024 ≤ packetMaxSize
    decide

theorem isSome_wireSetup (b : Bool) :
    (wireSetup plainSuite wireEnv (fun _ => 0) b).isSome = true := by
  cases b <;> decide +kernel

/-- The ends have written their first `KEXINIT`. -/
def wireStart (b : Bool) : WireState Unit × List UInt8 :=
  (wireSetup plainSuite wireEnv (fun _ => 0) b).get (isSome_wireSetup b)

/-- One side reads `n` bytes and looks for a packet. -/
def reads (side : Bool) (n : ℕ) : List (Duplex.Event WireEvent) :=
  List.replicate n (.deliver side) ++ [.act side .poll]

/-- A packet of the upper layers. -/
def threeBytes : Upper := ⟨90, [1, 2, 3], by decide, by decide, by decide⟩

/-- Both `KEXINIT`s, `KEXDH_INIT`, `KEXDH_REPLY` and `NEWKEYS` of both sides, and a packet of the
client under the new keys. -/
def oneExchange : List (Duplex.Event WireEvent) :=
  reads true 168 ++ reads false 168 ++ reads true 16 ++ reads false 32 ++ reads false 16 ++
    reads true 16 ++ [.act false (.upper threeBytes)] ++ reads true 16

/-- A side has read all bytes of the other one, and no packet is left. -/
def nothingLeft (ws : Bool → WireEnd Unit) (side : Bool) : Bool :=
  (ws side).taken = (ws !side).sent.length &&
    ((packetReadPoll2 (plainSuite.keys (ws side).state.kex.keysIn) (ws side).state.recv).map
      Prod.fst) = some none

theorem nothingLeft_eq_true {ws : Bool → WireEnd Unit} {side : Bool}
    (h : nothingLeft ws side = true) :
    (ws side).taken = (ws !side).sent.length ∧ ∃ recv, packetReadPoll2
      (plainSuite.keys (ws side).state.kex.keysIn) (ws side).state.recv = some (none, recv) := by
  unfold nothingLeft at h
  rw [Bool.and_eq_true, decide_eq_true_eq, decide_eq_true_eq] at h
  obtain ⟨hall, hpoll⟩ := h
  obtain ⟨⟨payload, recv⟩, hr, hnone⟩ := Option.map_eq_some_iff.mp hpoll
  obtain rfl : payload = none := hnone
  exact ⟨hall, recv, hr⟩

/-- After an exchange over the wire the server has the packet of the client, under keys that fit. -/
theorem secure_channel_oneExchange :
    ∃ ws, Transition.run (Duplex.step (wireMachine plainSuite wireEnv))
        (fun b => { state := (wireStart b).1, sent := (wireStart b).2 }) oneExchange = some ws ∧
      (ws true).state.kex.received.map Upper.data = [[1, 2, 3]] ∧
      (ws true).state.kex.received = (ws false).state.kex.submitted ∧
      (ws true).state.kex.done = true ∧ (ws true).state.kex.keysIn ≠ none ∧
      (ws true).state.kex.keysIn = (ws false).state.kex.keysOut := by
  obtain ⟨ws, hrun, hdata, hkeys, hserver, hclient⟩ : ∃ ws, Transition.run
      (Duplex.step (wireMachine plainSuite wireEnv))
        (fun b => { state := (wireStart b).1, sent := (wireStart b).2 }) oneExchange = some ws ∧
      (ws true).state.kex.received.map Upper.data = [[1, 2, 3]] ∧
      (ws true).state.kex.keysIn ≠ none ∧ nothingLeft ws true = true ∧
      nothingLeft ws false = true := by
    decide +kernel
  obtain ⟨evs, ps, -, hends⟩ := secure_channel plainSuite wireEnv smallConf ⟨23, 5⟩
    (sound_smallEnv _) small_wireEnv (fun _ _ => 0) wireStart (fun b => (Option.some_get _).symm)
    _ ws hrun
  obtain ⟨-, -, -, -, hall⟩ := hends true
  obtain ⟨hreceived, hdone, hfit⟩ := hall fun side => nothingLeft_eq_true (by
    cases side
    · exact hclient
    · exact hserver)
  exact ⟨ws, hrun, hdata, hreceived, hdone, hkeys, hfit⟩

end CSBuFLO
