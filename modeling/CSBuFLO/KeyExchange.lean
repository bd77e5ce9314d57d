/-
# The key exchange (`kex.c`, `kexdhc.c`, `kexdhs.c`, `packet.c`)

Either end may start a key exchange at any time, or both at once.  Each sends `KEXINIT`; the
client then sends `KEXDH_INIT`, the server answers with `KEXDH_REPLY`, and each ends its part with
`NEWKEYS`, after which it sends under the new keys.  From its `KEXINIT` to its `NEWKEYS` an end
holds back everything outside the transport layer; padding goes on all the time.

An end that is in the middle of an exchange blocks in `packet_read_expect` for one type of packet;
any other closes the connection.  `KexPc` is the place where it blocks.  A packet is modelled as
sealed under the keys of its sender: opened with other keys it has a wrong MAC.

`kexMachine` is what both ends run over a FIFO link in each direction.  `none` is a `fatal` or a
disconnect.  Random draws (cookies and exponents) are read from a tape of each end.  Key exchange
methods other than the fixed Diffie-Hellman groups are left out.
-/
import CSBuFLO.Duplex
import CSBuFLO.Negotiate

namespace CSBuFLO

/-! ## Diffie-Hellman and key derivation -/

/-- A group: its modulus and generator. -/
structure DhGroup where
  p : ℕ
  g : ℕ
  deriving DecidableEq, Repr

/-- The public value of an exponent. -/
def DhGroup.pub (d : DhGroup) (x : ℕ) : ℕ := d.g ^ x % d.p

/-- `DH_compute_key`. -/
def DhGroup.computeKey (d : DhGroup) (pub x : ℕ) : ℕ := pub ^ x % d.p

/-- `dh_pub_is_valid`. -/
def DhGroup.pubIsValid (d : DhGroup) (pub : ℕ) : Bool :=
  decide (1 < pub) && decide (pub < d.p - 1) && decide (1 < pub.bits.count true)

/-- Both ends compute the same secret. -/
theorem DhGroup.computeKey_comm (d : DhGroup) (x y : ℕ) :
    d.computeKey (d.pub y) x = d.computeKey (d.pub x) y := by
  unfold computeKey pub
  rw [← Nat.pow_mod, ← Nat.pow_mod, ← pow_mul, ← pow_mul, Nat.mul_comm]

/-- What the two ends share, and what each of them is given from outside.  `digest` is the hash
function of the exchange, `sign` the server's host key and `verify` its check; `hostKeyOk` is
`verify_host_key`; `group` gives the group of a method, and `cookie` and `secret` are the random
draws of an end (`true` is the server) for its exchanges.  `isNotify` tells the packets of the
upper layers that `packet_read_poll_seqnr` handles itself. -/
structure KexEnv (α : Type) where
  proposal : Bool → Proposal
  clientVersion : List UInt8
  serverVersion : List UInt8
  hostKey : List UInt8
  hostKeyOk : List UInt8 → Bool
  digest : List UInt8 → List UInt8
  sign : List UInt8 → List UInt8
  verify : List UInt8 → List UInt8 → Bool
  group : KexType → Option DhGroup
  cookie : Bool → ℕ → List UInt8
  secret : Bool → ℕ → ℕ
  isNotify : α → Bool

variable {α : Type}

/-- `kex_dh_hash`. -/
def kexDhHash (env : KexEnv α) (ckexinit skexinit hostKey : List UInt8) (e f k : ℕ) : List UInt8 :=
  env.digest (putString env.clientVersion ++ putString env.serverVersion ++
    putString (20 :: ckexinit) ++ putString (20 :: skexinit) ++ putString hostKey ++
    putBignum2 e ++ putBignum2 f ++ putBignum2 k)

/-- The loop of `derive_key`: append digests until there are `need` bytes. -/
def expandKey (env : KexEnv α) (k : ℕ) (hash : List UInt8) (need : ℕ) :
    ℕ → List UInt8 → List UInt8
  | 0, digest => digest
  | fuel + 1, digest =>
    if need ≤ digest.length then digest
    else expandKey env k hash need fuel (digest ++ env.digest (putBignum2 k ++ hash ++ digest))

/-- `derive_key`. -/
def deriveKey (env : KexEnv α) (id : UInt8) (need k : ℕ) (hash sessionId : List UInt8) :
    List UInt8 :=
  expandKey env k hash need need (env.digest (putBignum2 k ++ hash ++ [id] ++ sessionId))

/-- The keys of one direction. -/
structure DirKeys where
  algs : Newkeys
  iv : List UInt8
  key : List UInt8
  mac : List UInt8
  deriving DecidableEq

/-- `kex_derive_keys`: the keys `A`, `C`, `E` belong to the direction from client to server, `B`,
`D`, `F` to the other one. -/
def kexDeriveKeys (env : KexEnv α) (server : Bool) (conf : KexConf) (k : ℕ)
    (hash sessionId : List UInt8) (mode : Mode) : DirKeys :=
  let key := fun id => deriveKey env id conf.weNeed k hash sessionId
  { algs := conf.newkeys mode
    iv := key (if ctos server mode then 65 else 66)
    key := key (if ctos server mode then 67 else 68)
    mac := key (if ctos server mode then 69 else 70) }

/-! ## Messages and states -/

/-- The random bytes of a padding packet, few enough for one packet. -/
structure Filler where
  bytes : List UInt8
  fits : bytes.length + 64 ≤ packetMaxSize

/-- The packets of an exchange; `upper` stands for all packets of the upper layers. -/
inductive KexBody (α : Type) where
  | kexinit (payload : List UInt8)
  | kexdhInit (e : ℕ)
  | kexdhReply (hostKey : List UInt8) (f : ℕ) (signature : List UInt8)
  | newkeys
  | ignore (filler : Filler)
  | upper (d : α)

/-- `type >= SSH2_MSG_TRANSPORT_MIN && type <= SSH2_MSG_TRANSPORT_MAX`. -/
def KexBody.transport : KexBody α → Bool
  | .upper _ => false
  | _ => true

/-- A packet under the keys of its sender; `none` are the days before the first exchange. -/
structure Sealed (α : Type) where
  keys : Option DirKeys
  body : KexBody α

/-- Where an end is: in its main loop, or blocked in `packet_read_expect`. -/
inductive KexPc where
  | dispatch
  | skipNext (conf : KexConf)
  | expectInit (conf : KexConf)
  | expectReply (conf : KexConf)
  | expectNewkeys

/-- `struct Kex`, `current_keys`, and what `packet.c` keeps of the keys.  The last four fields are
history: how many `KEXINIT`s were sent, how often `kex_protocol_error` was called, and what the
upper layers have received and handed over for sending. -/
structure KexState (α : Type) where
  server : Bool
  my : List UInt8
  peer : List UInt8 := []
  initSent : Bool := false
  done : Bool := false
  sessionId : Option (List UInt8) := none
  currentIn : Option DirKeys := none
  currentOut : Option DirKeys := none
  keysIn : Option DirKeys := none
  keysOut : Option DirKeys := none
  rekeying : Bool := false
  outgoing : List (KexBody α) := []
  pc : KexPc := .dispatch
  drawn : ℕ := 0
  errors : ℕ := 0
  received : List α := []
  submitted : List α := []

namespace KexState

variable (s : KexState α)

/-- A packet under the current keys. -/
def encrypt (m : KexBody α) : Sealed α := ⟨s.keysOut, m⟩

/-! ## Sending -/

/-- `set_newkeys(MODE_OUT)`. -/
def setNewkeysOut : Option (KexState α) :=
  s.currentOut.map fun k => { s with keysOut := some k, currentOut := none }

/-- `set_newkeys(MODE_IN)`. -/
def setNewkeysIn : Option (KexState α) :=
  s.currentIn.map fun k => { s with keysIn := some k, currentIn := none }

/-- `packet_send2` for a packet that ends this end's part of the exchange. -/
def sendNewkeys : Option (KexState α × List (Sealed α)) :=
  s.setNewkeysOut.map fun s1 =>
    ({ s1 with rekeying := false, outgoing := [] },
      s.encrypt .newkeys :: s1.outgoing.map s1.encrypt)

/-- `packet_send2` for the other packets. -/
def send (m : KexBody α) : KexState α × List (Sealed α) :=
  if s.rekeying && !m.transport then ({ s with outgoing := s.outgoing ++ [m] }, [])
  else (s, [s.encrypt m])

/-- `kex_send_kexinit`. -/
def sendKexinit (env : KexEnv α) : KexState α × List (Sealed α) :=
  if s.initSent then (s, [])
  else
    let my := env.cookie s.server s.drawn ++ s.my.drop kexCookieLen
    ({ s with done := false, my := my, drawn := s.drawn + 1, rekeying := true, initSent := true },
      [s.encrypt (.kexinit my)])

/-! ## Receiving -/

/-- The exponent of the exchange in progress. -/
def secret (env : KexEnv α) : ℕ := env.secret s.server (s.drawn - 1)

/-- The beginning of `kexdh_client` and `kexdh_server`. -/
def startKexdh (env : KexEnv α) (conf : KexConf) : Option (KexState α × List (Sealed α)) :=
  (env.group conf.kexType).map fun d =>
    if s.server then ({ s with pc := .expectInit conf }, [])
    else ({ s with pc := .expectReply conf }, [s.encrypt (.kexdhInit (d.pub (s.secret env)))])

/-- The layout of `KEXINIT`. -/
def kexinitLayout : List FieldKind :=
  List.replicate kexCookieLen .char ++ (List.replicate 10 .string ++ [.char, .int])

/-- `kex_input_kexinit` and `kex_kexinit_finish`. -/
def inputKexinit (env : KexEnv α) (payload : List UInt8) : Option (KexState α × List (Sealed α)) :=
  if getMessage kexinitLayout payload = none then none
  else
    let r := sendKexinit { s with peer := s.peer ++ payload } env
    (kexChooseConf r.1.server r.1.my r.1.peer).bind fun conf =>
      if conf.skip then some ({ r.1 with pc := .skipNext conf }, r.2)
      else (r.1.startKexdh env conf).map fun t => (t.1, r.2 ++ t.2)

/-- The session id is the first hash. -/
def saveSessionId (hash : List UInt8) : KexState α :=
  { s with sessionId := some (s.sessionId.getD hash) }

/-- `kex_derive_keys`, into `current_keys`. -/
def deriveKeys (env : KexEnv α) (conf : KexConf) (k : ℕ) (hash : List UInt8) : KexState α :=
  { s with
    currentIn := some (kexDeriveKeys env s.server conf k hash (s.sessionId.getD []) .modeIn)
    currentOut := some (kexDeriveKeys env s.server conf k hash (s.sessionId.getD []) .modeOut) }

/-- The first part of `kex_finish`. -/
def startFinish : Option (KexState α × List (Sealed α)) :=
  s.sendNewkeys.map fun r => ({ r.1 with pc := .expectNewkeys }, r.2)

/-- The rest of `kexdh_server`, after `KEXDH_INIT`. -/
def serverKexdh (env : KexEnv α) (conf : KexConf) (d : DhGroup) (e : ℕ) :
    Option (KexState α × List (Sealed α)) :=
  if d.pubIsValid e = false then none
  else
    let f := d.pub (s.secret env)
    let k := d.computeKey e (s.secret env)
    let hash := kexDhHash env s.peer s.my env.hostKey e f k
    let s1 := (s.saveSessionId hash).deriveKeys env conf k hash
    (s1.startFinish).map fun r =>
      (r.1, s.encrypt (.kexdhReply env.hostKey f (env.sign hash)) :: r.2)

/-- The rest of `kexdh_client`, after `KEXDH_REPLY`. -/
def clientKexdh (env : KexEnv α) (conf : KexConf) (d : DhGroup) (hostKey : List UInt8) (f : ℕ)
    (signature : List UInt8) : Option (KexState α × List (Sealed α)) :=
  if env.hostKeyOk hostKey = false then none
  else if d.pubIsValid f = false then none
  else
    let e := d.pub (s.secret env)
    let k := d.computeKey f (s.secret env)
    let hash := kexDhHash env s.my s.peer hostKey e f k
    if env.verify signature hash = false then none
    else ((s.saveSessionId hash).deriveKeys env conf k hash).startFinish

/-- The rest of `kex_finish`, after `NEWKEYS`. -/
def finish : KexState α :=
  { s with done := true, peer := [], initSent := false, pc := .dispatch }

/-- A packet for the main loop; the key exchange packets that `kex_reset_dispatch` does not expect
are only logged. -/
def dispatch (env : KexEnv α) : KexBody α → Option (KexState α × List (Sealed α))
  | .kexinit payload => s.inputKexinit env payload
  | .upper d => some ({ s with received := s.received ++ [d] }, [])
  | .ignore _ => some (s, [])
  | .kexdhInit _ => some ({ s with errors := s.errors + 1 }, [])
  | .kexdhReply _ _ _ => some ({ s with errors := s.errors + 1 }, [])
  | .newkeys => some ({ s with errors := s.errors + 1 }, [])

/-- A packet that `packet_read_poll_seqnr` returned, at the place where the end is. -/
def handle (env : KexEnv α) (m : KexBody α) : Option (KexState α × List (Sealed α)) :=
  match s.pc with
  | .dispatch => s.dispatch env m
  | .skipNext conf => s.startKexdh env conf
  | .expectInit conf =>
    match m with
    | .kexdhInit e => (env.group conf.kexType).bind fun d => s.serverKexdh env conf d e
    | _ => none
  | .expectReply conf =>
    match m with
    | .kexdhReply hostKey f signature =>
      (env.group conf.kexType).bind fun d => s.clientKexdh env conf d hostKey f signature
    | _ => none
  | .expectNewkeys =>
    match m with
    | .newkeys => some (s.finish, [])
    | _ => none

/-- A packet arrives: it is opened, `packet_read_poll2` switches the keys after `NEWKEYS`, and
`packet_read_poll_seqnr` skips padding and handles notifications itself. -/
def receive (env : KexEnv α) (m : Sealed α) : Option (KexState α × List (Sealed α)) :=
  if m.keys ≠ s.keysIn then none
  else
    match m.body with
    | .ignore _ => some (s, [])
    | .upper d =>
      if env.isNotify d then some ({ s with received := s.received ++ [d] }, [])
      else s.handle env (.upper d)
    | .newkeys => s.setNewkeysIn.bind fun s => s.handle env .newkeys
    | body => s.handle env body

/-- Note what the upper layers hand over. -/
def record (ds : List α) : KexState α := { s with submitted := s.submitted ++ ds }

end KexState

/-- What an end does on its own. -/
inductive KexEvent (α : Type) where
  /-- A packet of the upper layers is sent. -/
  | upper (d : α)
  /-- `packet_write_poll` pads. -/
  | pad (filler : Filler)
  /-- The main loop finds that new keys are needed. -/
  | rekey

/-- An event of one end.  The main loop runs only when the end is not blocked, and asks for new
keys only when no exchange is in progress; notifications are sent from inside of
`packet_read_seqnr` too. -/
def KexState.act (env : KexEnv α) (s : KexState α) :
    KexEvent α → Option (KexState α × List (Sealed α))
  | .upper d =>
    match s.pc with
    | .dispatch => some ((s.record [d]).send (.upper d))
    | _ => if env.isNotify d then some ((s.record [d]).send (.upper d)) else none
  | .pad filler => some (s.send (.ignore filler))
  | .rekey =>
    match s.pc with
    | .dispatch => if s.done then some (s.sendKexinit env) else none
    | _ => none

/-- What both ends run. -/
def kexMachine (env : KexEnv α) : Duplex.Machine (KexState α) (KexEvent α) (Sealed α) where
  act s e := s.act env e
  receive s m := s.receive env m

/-- One end of the connection. -/
abbrev KexEnd (α : Type) : Type := Duplex.Party (KexState α) (Sealed α)

/-- `kex_setup`: the proposal is stored and the first `KEXINIT` is sent. -/
def kexSetup (env : KexEnv α) (server : Bool) : KexState α × List (Sealed α) :=
  KexState.sendKexinit
    { server := server
      my := kexProp2buf (List.replicate kexCookieLen 0) (env.proposal server) } env

/-- The two ends at the start; `true` is the server. -/
def kexStart (env : KexEnv α) : Bool → KexEnd α := fun b =>
  { state := (kexSetup env b).1, sent := (kexSetup env b).2 }

end CSBuFLO
