/-
# Algorithm negotiation (`kex.c`, `match.c`)

Each end sends a proposal of ten name lists in its `KEXINIT` message.  Both then choose, for every
list, the first name of the client's list that the server's list has too; the server's list is
cut after `MAX_PROP` names.  `none` is a `fatal`: no common name, or one that is not supported.

The two ends compute the choice from their own buffers, each with the roles of `my` and `peer`
exchanged, and sort the result into the keys for sending and for receiving.  `kex_choose_conf_agree`
says that they come to the same result, or both give up.  The flags of `datafellows` for peers of
other versions are off.
-/
import CSBuFLO.Drain
import CSBuFLO.WireFormat

namespace CSBuFLO

open Serial

/-! ## Name lists (`match.c`) -/

/-- The bytes of a text. -/
def ascii (s : String) : List UInt8 := s.toList.map fun c => UInt8.ofNat c.toNat

/-- `SEP`. -/
def nameSep : UInt8 := 44

/-- The names the loops over `strsep` see: up to the first empty one. -/
def names (list : List UInt8) : List (List UInt8) := (list.splitOn nameSep).takeWhile (· ≠ [])

/-- `MAX_PROP`. -/
def maxProp : ℕ := 40

/-- `match_list`: the first name of the client that the server has too. -/
def matchList (client server : List UInt8) : Option (List UInt8) :=
  (names client).find? (· ∈ (names server).take maxProp)

/-! ## The tables of algorithms (`cipher.c`, `mac.c`, `key.c`) -/

/-- A row of `ciphers`. -/
structure CipherRow where
  name : String
  blockSize : ℕ
  keyLen : ℕ
  cbcMode : Bool
  deriving DecidableEq, Repr

/-- `ciphers`. -/
def ciphers : List CipherRow :=
  [⟨"none", 8, 0, false⟩, ⟨"des", 8, 8, true⟩, ⟨"3des", 8, 16, true⟩,
    ⟨"blowfish", 8, 32, true⟩, ⟨"3des-cbc", 8, 24, true⟩,
    ⟨"blowfish-cbc", 8, 16, true⟩, ⟨"cast128-cbc", 8, 16, true⟩,
    ⟨"arcfour", 8, 16, false⟩, ⟨"arcfour128", 8, 16, false⟩,
    ⟨"arcfour256", 8, 32, false⟩, ⟨"aes128-cbc", 16, 16, true⟩,
    ⟨"aes192-cbc", 16, 24, true⟩, ⟨"aes256-cbc", 16, 32, true⟩,
    ⟨"rijndael-cbc@lysator.liu.se", 16, 32, true⟩, ⟨"aes128-ctr", 16, 16, false⟩,
    ⟨"aes192-ctr", 16, 24, false⟩, ⟨"aes256-ctr", 16, 32, false⟩]

/-- `cipher_by_name`. -/
def cipherByName (name : List UInt8) : Option CipherRow := ciphers.find? (ascii ·.name = name)

/-- `mac_setup`. -/
def macSetup (name : List UInt8) : Option MacEntry := macs.find? (ascii ·.name = name)

/-- `COMP_NONE`, `COMP_ZLIB` and `COMP_DELAYED`. -/
inductive CompType where
  | none
  | zlib
  | delayed
  deriving DecidableEq, Repr

/-- The compression a name stands for. -/
def compByName (name : List UInt8) : Option CompType :=
  if name = ascii "zlib@openssh.com" then some .delayed
  else if name = ascii "zlib" then some .zlib
  else if name = ascii "none" then some .none
  else Option.none

/-- `enum kex_exchange`. -/
inductive KexType where
  | dhGrp1Sha1
  | dhGrp14Sha1
  | dhGexSha1
  | dhGexSha256
  | ecdhSha2
  deriving DecidableEq, Repr

/-- The hash functions an exchange can use. -/
inductive EvpMd where
  | sha1
  | sha256
  | sha384
  | sha512
  deriving DecidableEq, Repr

/-- `key_curve_name_to_nid` and `key_curve_nid_to_bits`: the size of a curve. -/
def keyCurveBits (name : List UInt8) : Option ℕ :=
  if name = ascii "nistp256" then some 256
  else if name = ascii "nistp384" then some 384
  else if name = ascii "nistp521" then some 521
  else none

/-- `key_ec_nid_to_evpmd`, by the size of the curve. -/
def keyEcEvpmd (kbits : ℕ) : EvpMd :=
  if kbits ≤ 256 then .sha256 else if kbits ≤ 384 then .sha384 else .sha512

/-- `KEX_ECDH_SHA2_STEM`. -/
def ecdhStem : List UInt8 := ascii "ecdh-sha2-"

/-- `kex_ecdh_name_to_evpmd`. -/
def kexEcdhNameToEvpmd (name : List UInt8) : Option EvpMd :=
  (keyCurveBits (name.drop ecdhStem.length)).map keyEcEvpmd

/-- The method a name stands for, and its hash function. -/
def kexByName (name : List UInt8) : Option (KexType × EvpMd) :=
  if name = ascii "diffie-hellman-group1-sha1" then some (.dhGrp1Sha1, .sha1)
  else if name = ascii "diffie-hellman-group14-sha1" then some (.dhGrp14Sha1, .sha1)
  else if name = ascii "diffie-hellman-group-exchange-sha1" then some (.dhGexSha1, .sha1)
  else if name = ascii "diffie-hellman-group-exchange-sha256" then some (.dhGexSha256, .sha256)
  else if ecdhStem <+: name then (kexEcdhNameToEvpmd name).map fun md => (.ecdhSha2, md)
  else none

/-- `enum types` of keys. -/
inductive HostKeyType where
  | rsa1
  | rsa
  | dsa
  | ecdsa
  | rsaCertV00
  | dsaCertV00
  | rsaCert
  | dsaCert
  | ecdsaCert
  deriving DecidableEq, Repr

/-- `key_type_from_name`; `none` is `KEY_UNSPEC`. -/
def keyTypeFromName (name : List UInt8) : Option HostKeyType :=
  if name = ascii "rsa1" then some .rsa1
  else if name = ascii "rsa" then some .rsa
  else if name = ascii "dsa" then some .dsa
  else if name = ascii "ssh-rsa" then some .rsa
  else if name = ascii "ssh-dss" then some .dsa
  else if name = ascii "ecdsa" ∨ name = ascii "ecdsa-sha2-nistp256" ∨
      name = ascii "ecdsa-sha2-nistp384" ∨ name = ascii "ecdsa-sha2-nistp521" then some .ecdsa
  else if name = ascii "ssh-rsa-cert-v00@openssh.com" then some .rsaCertV00
  else if name = ascii "ssh-dss-cert-v00@openssh.com" then some .dsaCertV00
  else if name = ascii "ssh-rsa-cert-v01@openssh.com" then some .rsaCert
  else if name = ascii "ssh-dss-cert-v01@openssh.com" then some .dsaCert
  else if name = ascii "ecdsa-sha2-nistp256-cert-v01@openssh.com" ∨
      name = ascii "ecdsa-sha2-nistp384-cert-v01@openssh.com" ∨
      name = ascii "ecdsa-sha2-nistp521-cert-v01@openssh.com" then some .ecdsaCert
  else none

/-! ## Proposals -/

/-- `enum kex_init_proposals`. -/
inductive ProposalIndex where
  | kexAlgs
  | serverHostKeyAlgs
  | encAlgsCtos
  | encAlgsStoc
  | macAlgsCtos
  | macAlgsStoc
  | compAlgsCtos
  | compAlgsStoc
  | langCtos
  | langStoc
  deriving DecidableEq, Repr

/-- A proposal: ten name lists. -/
def Proposal : Type := ProposalIndex → List UInt8

/-- The ten lists in their order. -/
def Proposal.toList (p : Proposal) : List (List UInt8) :=
  [p .kexAlgs, p .serverHostKeyAlgs, p .encAlgsCtos, p .encAlgsStoc, p .macAlgsCtos,
    p .macAlgsStoc, p .compAlgsCtos, p .compAlgsStoc, p .langCtos, p .langStoc]

/-- The proposal with the given lists. -/
def Proposal.ofList (lists : List (List UInt8)) : Proposal
  | .kexAlgs => lists.getD 0 []
  | .serverHostKeyAlgs => lists.getD 1 []
  | .encAlgsCtos => lists.getD 2 []
  | .encAlgsStoc => lists.getD 3 []
  | .macAlgsCtos => lists.getD 4 []
  | .macAlgsStoc => lists.getD 5 []
  | .compAlgsCtos => lists.getD 6 []
  | .compAlgsStoc => lists.getD 7 []
  | .langCtos => lists.getD 8 []
  | .langStoc => lists.getD 9 []

theorem Proposal.ofList_toList (p : Proposal) : Proposal.ofList p.toList = p := by
  funext i
  cases i <;> rfl

/-- A proposal that `buffer_put_cstring` writes so that it can be read back. -/
def Proposal.Valid (p : Proposal) : Prop := ∀ i, cstringFormat.Valid (p i)

theorem Proposal.Valid.toList {p : Proposal} (h : p.Valid) :
    ∀ s ∈ p.toList, cstringFormat.Valid s := by
  intro s hs
  simp only [Proposal.toList, List.mem_cons, List.not_mem_nil, or_false] at hs
  rcases hs with rfl | rfl | rfl | rfl | rfl | rfl | rfl | rfl | rfl | rfl
  all_goals exact h _

/-- `KEX_COOKIE_LEN`. -/
def kexCookieLen : ℕ := 16

/-- `kex_prop2buf`, with the cookie `kex_send_kexinit` writes over the first bytes. -/
def kexProp2buf (cookie : List UInt8) (p : Proposal) : List UInt8 :=
  cookie ++ (p.toList.flatMap putString ++ (0 :: putU32 0))

/-- `kex_buf2prop`: the proposal and `first_kex_follows`. -/
def kexBuf2prop (raw : List UInt8) : Option (Proposal × Bool) :=
  (getRaw kexCookieLen raw).bind fun cookie =>
    (cstringFormat.getList 10 cookie.2).bind fun lists =>
      (getChar lists.2).bind fun follows =>
        (getUint 4 follows.2).map fun _ => (Proposal.ofList lists.1, follows.1 ≠ 0)

/-- A proposal is read back, and announces no guessed packet. -/
theorem kexBuf2prop_kexProp2buf {cookie : List UInt8} (hcookie : cookie.length = kexCookieLen)
    {p : Proposal} (hp : p.Valid) : kexBuf2prop (kexProp2buf cookie p) = some (p, false) := by
  have hlists : cstringFormat.getList 10 (p.toList.flatMap putString ++ (0 :: putU32 0)) =
      some (p.toList, 0 :: putU32 0) := cstringFormat.getList_flatMap hp.toList _
  unfold kexBuf2prop kexProp2buf
  rw [getRaw_append hcookie, Option.bind_some]
  dsimp only
  rw [hlists, Option.bind_some, getChar, Option.bind_some, p.ofList_toList]
  rfl

/-! ## The choice (`kex.c`) -/

/-- `enum kex_modes`. -/
inductive Mode where
  | modeIn
  | modeOut
  deriving DecidableEq, Repr

/-- The algorithms of one direction: what `struct Newkeys` holds before the keys are derived. -/
structure Newkeys where
  enc : CipherRow
  mac : MacEntry
  comp : CompType
  deriving DecidableEq, Repr

/-- `choose_enc`. -/
def chooseEnc (client server : List UInt8) : Option CipherRow :=
  (matchList client server).bind cipherByName

/-- `choose_mac`. -/
def chooseMac (client server : List UInt8) : Option MacEntry :=
  (matchList client server).bind macSetup

/-- `choose_comp`. -/
def chooseComp (client server : List UInt8) : Option CompType :=
  (matchList client server).bind compByName

/-- What `choose_kex` stores.  For an ECDH method the name says which curve is used. -/
structure KexAlg where
  name : List UInt8
  kexType : KexType
  evpMd : EvpMd
  deriving DecidableEq, Repr

/-- `choose_kex`. -/
def chooseKex (client server : List UInt8) : Option KexAlg :=
  (matchList client server).bind fun name =>
    (kexByName name).map fun k => ⟨name, k.1, k.2⟩

/-- `choose_hostkeyalg`. -/
def chooseHostkeyalg (client server : List UInt8) : Option HostKeyType :=
  (matchList client server).bind keyTypeFromName

/-- The algorithms of one direction. -/
def chooseNewkeys (cprop sprop : Proposal) (ctos : Bool) : Option Newkeys :=
  let nenc := if ctos then ProposalIndex.encAlgsCtos else .encAlgsStoc
  let nmac := if ctos then ProposalIndex.macAlgsCtos else .macAlgsStoc
  let ncomp := if ctos then ProposalIndex.compAlgsCtos else .compAlgsStoc
  (chooseEnc (cprop nenc) (sprop nenc)).bind fun enc =>
    (chooseMac (cprop nmac) (sprop nmac)).bind fun mac =>
      (chooseComp (cprop ncomp) (sprop ncomp)).map fun comp => ⟨enc, mac, comp⟩

/-- The part of a name list before its first comma. -/
def firstName (list : List UInt8) : List UInt8 := list.takeWhile (· ≠ nameSep)

/-- `proposals_match`: both ends would have guessed the same method and host key. -/
def proposalsMatch (my peer : Proposal) : Bool :=
  firstName (my .kexAlgs) = firstName (peer .kexAlgs) &&
    firstName (my .serverHostKeyAlgs) = firstName (peer .serverHostKeyAlgs)

/-- What `kex_choose_conf` stores.  `roaming` is set by the client only; `skip` says that the next
packet is read and dropped. -/
structure KexConf extends KexAlg where
  newkeys : Mode → Newkeys
  hostkeyType : HostKeyType
  weNeed : ℕ
  roaming : Bool
  skip : Bool

/-- The bytes of key material the algorithms of one direction need. -/
def Newkeys.need (k : Newkeys) : ℕ :=
  max (max k.enc.keyLen k.enc.blockSize) (macSetupById k.mac).keyLen

/-- Whether the keys of a mode are those of the direction from client to server. -/
def ctos (server : Bool) : Mode → Bool
  | .modeOut => !server
  | .modeIn => server

/-- `kex_choose_conf`, after both buffers have been parsed. -/
def chooseConf (server : Bool) (my peer : Proposal × Bool) : Option KexConf :=
  let cprop := if server then peer.1 else my.1
  let sprop := if server then my.1 else peer.1
  let roaming := !server && (matchList (ascii "resume@appgate.com") (peer.1 .kexAlgs)).isSome
  (chooseNewkeys cprop sprop (ctos server .modeIn)).bind fun keysIn =>
    (chooseNewkeys cprop sprop (ctos server .modeOut)).bind fun keysOut =>
      (chooseKex (cprop .kexAlgs) (sprop .kexAlgs)).bind fun kex =>
        (chooseHostkeyalg (cprop .serverHostKeyAlgs) (sprop .serverHostKeyAlgs)).map fun hostkey =>
          { toKexAlg := kex
            newkeys := fun
              | .modeIn => keysIn
              | .modeOut => keysOut
            hostkeyType := hostkey
            weNeed := max keysIn.need keysOut.need
            roaming := roaming
            skip := peer.2 && !proposalsMatch my.1 peer.1 }

/-- `kex_choose_conf`. -/
def kexChooseConf (server : Bool) (my peer : List UInt8) : Option KexConf :=
  (kexBuf2prop my).bind fun m => (kexBuf2prop peer).bind fun p => chooseConf server m p

/-- The cookies do not matter. -/
theorem kexChooseConf_kexProp2buf (server : Bool) {my peer : Proposal} (hmy : my.Valid)
    (hpeer : peer.Valid) {cookie cookie' : List UInt8} (hc : cookie.length = kexCookieLen)
    (hc' : cookie'.length = kexCookieLen) :
    kexChooseConf server (kexProp2buf cookie my) (kexProp2buf cookie' peer) =
      chooseConf server (my, false) (peer, false) := by
  rw [kexChooseConf, kexBuf2prop_kexProp2buf hc hmy, Option.bind_some,
    kexBuf2prop_kexProp2buf hc' hpeer, Option.bind_some]

/-! ## Agreement -/

/-- What the client's proposal and the server's proposal lead to: the algorithms of the two
directions, the method and the host key. -/
def negotiate (client server : Proposal) : Option (Newkeys × Newkeys × KexAlg × HostKeyType) :=
  (chooseNewkeys client server true).bind fun toServer =>
    (chooseNewkeys client server false).bind fun toClient =>
      (chooseKex (client .kexAlgs) (server .kexAlgs)).bind fun kex =>
        (chooseHostkeyalg (client .serverHostKeyAlgs)
          (server .serverHostKeyAlgs)).map fun hostkey =>
          (toServer, toClient, kex, hostkey)

/-- A configuration that carries out the outcome of a negotiation at one end. -/
structure KexConf.Carries (c : KexConf) (server : Bool)
    (r : Newkeys × Newkeys × KexAlg × HostKeyType) : Prop where
  keysIn : c.newkeys .modeIn = if server then r.1 else r.2.1
  keysOut : c.newkeys .modeOut = if server then r.2.1 else r.1
  kex : c.toKexAlg = r.2.2.1
  hostkeyType : c.hostkeyType = r.2.2.2
  weNeed : c.weNeed = max r.1.need r.2.1.need
  skip : c.skip = false

/-- Two configurations that fit: what one end sends with, the other receives with. -/
structure KexConf.Mirrors (c s : KexConf) : Prop where
  toServer : c.newkeys .modeOut = s.newkeys .modeIn
  toClient : c.newkeys .modeIn = s.newkeys .modeOut
  kex : c.toKexAlg = s.toKexAlg
  hostkeyType : c.hostkeyType = s.hostkeyType
  weNeed : c.weNeed = s.weNeed
  skip : c.skip = false ∧ s.skip = false

/-- **One end of the negotiation.**  An end succeeds exactly when the proposals have an outcome,
and carries it out. -/
theorem chooseConf_negotiate (client server : Proposal) (side : Bool) :
    match negotiate client server,
      chooseConf side (if side then server else client, false)
        (if side then client else server, false) with
    | none, none => True
    | some r, some c => c.Carries side r
    | _, _ => False := by
  unfold negotiate chooseConf
  cases side with
  | false =>
    simp only [Bool.false_eq_true, if_false, ctos, Bool.not_false]
    cases chooseNewkeys client server true with
    | none => cases chooseNewkeys client server false <;> trivial
    | some toServer =>
      cases chooseNewkeys client server false with
      | none => trivial
      | some toClient =>
        cases chooseKex (client .kexAlgs) (server .kexAlgs) with
        | none => trivial
        | some kex =>
          cases chooseHostkeyalg (client .serverHostKeyAlgs)
            (server .serverHostKeyAlgs) with
          | none => trivial
          | some hostkey => exact ⟨rfl, rfl, rfl, rfl, max_comm _ _, rfl⟩
  | true =>
    simp only [if_true, ctos, Bool.not_true]
    cases chooseNewkeys client server true with
    | none => trivial
    | some toServer =>
      cases chooseNewkeys client server false with
      | none => trivial
      | some toClient =>
        cases chooseKex (client .kexAlgs) (server .kexAlgs) with
        | none => trivial
        | some kex =>
          cases chooseHostkeyalg (client .serverHostKeyAlgs)
            (server .serverHostKeyAlgs) with
          | none => trivial
          | some hostkey => exact ⟨rfl, rfl, rfl, rfl, rfl, rfl⟩

/-- The two ends of one negotiation fit. -/
theorem KexConf.Mirrors.of_carries {c s : KexConf} {r : Newkeys × Newkeys × KexAlg × HostKeyType}
    (hc : c.Carries false r) (hs : s.Carries true r) : c.Mirrors s :=
  ⟨hc.keysOut.trans hs.keysIn.symm, hc.keysIn.trans hs.keysOut.symm,
    hc.kex.trans hs.kex.symm, hc.hostkeyType.trans hs.hostkeyType.symm,
    hc.weNeed.trans hs.weNeed.symm, hc.skip, hs.skip⟩

/-- The first name of one list that another list has too. -/
structure FirstCommon (client server name : List UInt8) : Prop where
  known : name ∈ (names server).take maxProp
  first : ∃ before after, names client = before ++ name :: after ∧
    ∀ other ∈ before, other ∉ (names server).take maxProp

/-- **`match_list` finds the first common name.** -/
theorem firstCommon_of_matchList {client server name : List UInt8}
    (h : matchList client server = some name) : FirstCommon client server name := by
  obtain ⟨hmem, before, after, hnames, hbefore⟩ := List.find?_eq_some_iff_append.mp h
  refine ⟨of_decide_eq_true hmem, before, after, hnames, fun other hother => ?_⟩
  simpa using hbefore other hother

/-- The algorithms of one direction are the first ones both ends know. -/
structure Newkeys.Chosen (k : Newkeys) (client server : Proposal) (enc mac comp : ProposalIndex) :
    Prop where
  enc : FirstCommon (client enc) (server enc) (ascii k.enc.name)
  mac : FirstCommon (client mac) (server mac) (ascii k.mac.name)
  comp : ∃ name, FirstCommon (client comp) (server comp) name ∧ compByName name = some k.comp

theorem name_of_cipherByName {name : List UInt8} {row : CipherRow}
    (h : cipherByName name = some row) : ascii row.name = name := by
  have := List.find?_some h
  exact of_decide_eq_true this

theorem name_of_macSetup {name : List UInt8} {row : MacEntry} (h : macSetup name = some row) :
    ascii row.name = name := by
  have := List.find?_some h
  exact of_decide_eq_true this

/-- The keys of a direction are those of the first common names. -/
theorem chosen_of_chooseNewkeys {client server : Proposal} {toServer : Bool} {k : Newkeys}
    (h : chooseNewkeys client server toServer = some k) :
    k.Chosen client server (if toServer then .encAlgsCtos else .encAlgsStoc)
      (if toServer then .macAlgsCtos else .macAlgsStoc)
      (if toServer then .compAlgsCtos else .compAlgsStoc) := by
  obtain ⟨enc, henc, h⟩ := Option.bind_eq_some_iff.mp h
  obtain ⟨mac, hmac, h⟩ := Option.bind_eq_some_iff.mp h
  obtain ⟨comp, hcomp, rfl⟩ := Option.map_eq_some_iff.mp h
  obtain ⟨ne, hne, henc⟩ := Option.bind_eq_some_iff.mp henc
  obtain ⟨nm, hnm, hmac⟩ := Option.bind_eq_some_iff.mp hmac
  obtain ⟨nc, hnc, hcomp⟩ := Option.bind_eq_some_iff.mp hcomp
  refine ⟨?_, ?_, nc, firstCommon_of_matchList hnc, hcomp⟩
  · rw [name_of_cipherByName henc]
    exact firstCommon_of_matchList hne
  · rw [name_of_macSetup hmac]
    exact firstCommon_of_matchList hnm

/-- Everything a configuration holds is the first choice of the client that the server has too. -/
structure KexConf.FirstChoice (c : KexConf) (client server : Proposal) : Prop where
  toServer : (c.newkeys .modeOut).Chosen client server .encAlgsCtos .macAlgsCtos .compAlgsCtos
  toClient : (c.newkeys .modeIn).Chosen client server .encAlgsStoc .macAlgsStoc .compAlgsStoc
  kex : FirstCommon (client .kexAlgs) (server .kexAlgs) c.name
  method : kexByName c.name = some (c.kexType, c.evpMd)
  hostkey : ∃ name, FirstCommon (client .serverHostKeyAlgs) (server .serverHostKeyAlgs) name ∧
    keyTypeFromName name = some c.hostkeyType

/-- The configuration of the client is made of first choices. -/
theorem KexConf.Carries.firstChoice {c : KexConf} {client server : Proposal}
    {r : Newkeys × Newkeys × KexAlg × HostKeyType} (hc : c.Carries false r)
    (hr : negotiate client server = some r) : c.FirstChoice client server := by
  obtain ⟨toServer, hto, h⟩ := Option.bind_eq_some_iff.mp hr
  obtain ⟨toClient, hfrom, h⟩ := Option.bind_eq_some_iff.mp h
  obtain ⟨kex, hkex, h⟩ := Option.bind_eq_some_iff.mp h
  obtain ⟨hostkey, hhost, rfl⟩ := Option.map_eq_some_iff.mp h
  obtain ⟨name, hname, hmethod⟩ := Option.bind_eq_some_iff.mp hkex
  obtain ⟨k, hk, rfl⟩ := Option.map_eq_some_iff.mp hmethod
  obtain ⟨hostName, hhostName, hhost⟩ := Option.bind_eq_some_iff.mp hhost
  have hcname : c.name = name := congrArg KexAlg.name hc.kex
  have hctype : c.kexType = k.1 := congrArg KexAlg.kexType hc.kex
  have hcmd : c.evpMd = k.2 := congrArg KexAlg.evpMd hc.kex
  refine ⟨?_, ?_, ?_, ?_, hostName, firstCommon_of_matchList hhostName, ?_⟩
  · rw [hc.keysOut]
    exact chosen_of_chooseNewkeys hto
  · rw [hc.keysIn]
    exact chosen_of_chooseNewkeys hfrom
  · rw [hcname]
    exact firstCommon_of_matchList hname
  · rw [hcname, hctype, hcmd]
    exact hk
  · rw [hc.hostkeyType]
    exact hhost

/-- **Both ends choose the same algorithms.**  For every two proposals and all cookies, client and
server both give up, or they come to configurations that fit, made of the first names of the
client that the server has too: ciphers, MACs and compression of both directions, the method of
the exchange with its hash function, and the type of the host key. -/
theorem kex_choose_conf_agree (client server : Proposal) (hclient : client.Valid)
    (hserver : server.Valid) (cookieC cookieS : List UInt8) (hC : cookieC.length = kexCookieLen)
    (hS : cookieS.length = kexCookieLen) :
    (kexChooseConf false (kexProp2buf cookieC client) (kexProp2buf cookieS server) = none ∧
      kexChooseConf true (kexProp2buf cookieS server) (kexProp2buf cookieC client) = none) ∨
    ∃ c s, kexChooseConf false (kexProp2buf cookieC client) (kexProp2buf cookieS server) = some c ∧
      kexChooseConf true (kexProp2buf cookieS server) (kexProp2buf cookieC client) = some s ∧
      c.Mirrors s ∧ c.FirstChoice client server := by
  have hc := chooseConf_negotiate client server false
  have hs := chooseConf_negotiate client server true
  rw [kexChooseConf_kexProp2buf false hclient hserver hC hS,
    kexChooseConf_kexProp2buf true hserver hclient hS hC]
  simp only [if_true, Bool.false_eq_true, if_false] at hc hs
  generalize chooseConf false (client, false) (server, false) = x at hc ⊢
  generalize chooseConf true (server, false) (client, false) = y at hs ⊢
  cases hn : negotiate client server with
  | none =>
    rw [hn] at hc hs
    cases x with
    | some c => exact hc.elim
    | none =>
      cases y with
      | some c => exact hs.elim
      | none => exact Or.inl ⟨rfl, rfl⟩
  | some r =>
    rw [hn] at hc hs
    cases x with
    | none => exact hc.elim
    | some c =>
      cases y with
      | none => exact hs.elim
      | some s => exact Or.inr ⟨c, s, rfl, rfl, .of_carries hc hs, hc.firstChoice hn⟩

/-- A proposal with two ciphers and one algorithm of every other kind. -/
def shortProposal (first second : String) : Proposal
  | .kexAlgs => ascii "diffie-hellman-group14-sha1"
  | .serverHostKeyAlgs => ascii "ssh-rsa"
  | .encAlgsCtos => ascii first ++ nameSep :: ascii second
  | .encAlgsStoc => ascii first ++ nameSep :: ascii second
  | .macAlgsCtos => ascii "hmac-md5"
  | .macAlgsStoc => ascii "hmac-md5"
  | .compAlgsCtos => ascii "none"
  | .compAlgsStoc => ascii "none"
  | .langCtos => []
  | .langStoc => []

theorem valid_shortProposal_client : (shortProposal "aes128-ctr" "arcfour").Valid := by
  intro i
  refine ⟨?_, ?_⟩ <;> cases i <;> decide +kernel

theorem valid_shortProposal_server : (shortProposal "arcfour" "aes128-ctr").Valid := by
  intro i
  refine ⟨?_, ?_⟩ <;> cases i <;> decide +kernel

/-- The client's preference decides. -/
theorem kex_choose_conf_client_first :
    ∃ c s, kexChooseConf false
        (kexProp2buf (List.replicate kexCookieLen 1) (shortProposal "aes128-ctr" "arcfour"))
        (kexProp2buf (List.replicate kexCookieLen 2) (shortProposal "arcfour" "aes128-ctr")) =
          some c ∧
      kexChooseConf true
        (kexProp2buf (List.replicate kexCookieLen 2) (shortProposal "arcfour" "aes128-ctr"))
        (kexProp2buf (List.replicate kexCookieLen 1) (shortProposal "aes128-ctr" "arcfour")) =
          some s ∧
      c.Mirrors s ∧ (c.newkeys .modeOut).enc.name = "aes128-ctr" := by
  have hname : (kexChooseConf false
      (kexProp2buf (List.replicate kexCookieLen 1) (shortProposal "aes128-ctr" "arcfour"))
      (kexProp2buf (List.replicate kexCookieLen 2) (shortProposal "arcfour" "aes128-ctr"))).map
        (fun c => (c.newkeys .modeOut).enc.name) = some "aes128-ctr" := by
    decide +kernel
  rcases kex_choose_conf_agree (shortProposal "aes128-ctr" "arcfour")
    (shortProposal "arcfour" "aes128-ctr") valid_shortProposal_client valid_shortProposal_server
    (List.replicate kexCookieLen 1) (List.replicate kexCookieLen 2) List.length_replicate
    List.length_replicate with ⟨hnone, -⟩ | ⟨c, s, hc, hs, hmirror, -⟩
  · rw [hnone] at hname
    cases hname
  · rw [hc] at hname
    exact ⟨c, s, hc, hs, hmirror, Option.some.inj hname⟩

end CSBuFLO
