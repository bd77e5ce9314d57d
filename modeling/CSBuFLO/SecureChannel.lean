/-
# The key exchange on the wire (`packet.c`, `kex.c`)

`KeyExchange.lean` has whole packets under keys.  Here the two ends write and read bytes: every
packet is laid out as its sender does, padded, encrypted and followed by its MAC
(`packet_send2_wrapped`), and found in the byte stream by `packet_read_poll2`, whatever pieces the
stream is read in.  `set_newkeys` gives the cipher a new context in the middle of the stream and
leaves the sequence numbers alone.

`wireMachine` is what both ends run; its packets of the upper layers are notifications when
`Upper.isNotify` says so.  A byte arrives at a time: reading several at once is the same
as reading them one by one without looking for packets in between.  `Suite` is what `cipher_init`
and `mac_init` make of derived keys.
-/
import CSBuFLO.KeyExchange
import CSBuFLO.Rekey

namespace CSBuFLO

/-! ## Packets as bytes -/

/-- `SSH2_MSG_KEXDH_INIT`. -/
def msgKexdhInit : UInt8 := 30

/-- `SSH2_MSG_KEXDH_REPLY`. -/
def msgKexdhReply : UInt8 := 31

/-- A packet of the upper layers: its type is outside the transport layer and one that receivers
let through, and it is small enough for one packet. -/
structure Upper where
  type : UInt8
  data : List UInt8
  outside : msgTransportMax < type
  accepted : acceptedType type = true
  fits : data.length + 64 ≤ packetMaxSize

/-- Whether `packet_read_poll_seqnr` handles a packet of the upper layers itself. -/
def Upper.isNotify (u : Upper) : Bool := (Notify.ofMsg u.type).isSome

/-- `packet_start` and the calls of `packet_put_*` that follow. -/
def KexBody.encode : KexBody Upper → List UInt8
  | .kexinit payload => msgKexinit :: payload
  | .kexdhInit e => msgKexdhInit :: putFields [.bignum2 e]
  | .kexdhReply hostKey f signature =>
    msgKexdhReply :: putFields [.string hostKey, .bignum2 f, .string signature]
  | .newkeys => [msgNewkeys]
  | .ignore filler => ignorePayload filler.bytes
  | .upper u => u.type :: u.data

/-- A packet that the upper layers get. -/
def decodeUpper (t : UInt8) (data : List UInt8) : Option (KexBody Upper) :=
  if h : (msgTransportMax < t ∧ acceptedType t = true) ∧ data.length + 64 ≤ packetMaxSize then
    some (.upper ⟨t, data, h.1.1, h.1.2, h.2⟩)
  else none

/-- The calls of `packet_get_*` for a packet, with `packet_check_eom`.  The bytes of a padding
packet are not looked at. -/
def decodeBody : List UInt8 → Option (KexBody Upper)
  | [] => none
  | t :: rest =>
    if t = msgIgnore then
      if h : (rest.drop 4).length + 64 ≤ packetMaxSize then some (.ignore ⟨rest.drop 4, h⟩)
      else none
    else if t = msgKexinit then some (.kexinit rest)
    else if t = msgNewkeys then if rest = [] then some .newkeys else none
    else if t = msgKexdhInit then
      match getMessage [.bignum2] rest with
      | some [.bignum2 e] => some (.kexdhInit e)
      | _ => none
    else if t = msgKexdhReply then
      match getMessage [.string, .bignum2, .string] rest with
      | some [.string hostKey, .bignum2 f, .string signature] =>
        some (.kexdhReply hostKey f signature)
      | _ => none
    else decodeUpper t rest

/-- Whether a packet ends its sender's part of an exchange. -/
def KexBody.isNewkeys {α : Type} : KexBody α → Bool
  | .newkeys => true
  | _ => false

/-! ## An end that writes and reads bytes -/

/-- The ciphers and MACs: what `cipher_init` and `mac_init` make of the keys of a direction, and
the contexts its two ends start with.  `none` is the beginning, with the cipher `none`. -/
structure Suite (κ : Type) where
  keys : Option DirKeys → Keys κ
  ctxOut : Option DirKeys → κ
  ctxIn : Option DirKeys → κ
  synced : ∀ k, (keys k).cipher.Synced (ctxOut k) (ctxIn k)

variable {κ : Type}

/-- The state of an end. -/
structure WireState (κ : Type) where
  kex : KexState Upper
  snd : SendState κ
  recv : RecvState κ

/-- `packet_send2_wrapped` for one packet after the other.  After `NEWKEYS`, `set_newkeys(MODE_OUT)`
starts with the keys `after`. -/
def emit (X : Suite κ) (after : Option DirKeys) :
    SendState κ → List (Sealed Upper) → Option (SendState κ × List UInt8)
  | snd, [] => some (snd, [])
  | snd, m :: ms =>
    (packetSend2Wrapped (X.keys m.keys) snd 0 m.body.encode).bind fun r =>
      let snd :=
        if m.body.isNewkeys then { r.2 with ctx := X.ctxOut after, packets := 0 } else r.2
      (emit X after snd ms).map fun t => (t.1, r.1 ++ t.2)

namespace WireState

/-- A step of the key exchange, with what it sends. -/
def apply (X : Suite κ) (w : WireState κ) (r : KexState Upper × List (Sealed Upper)) :
    Option (WireState κ × List UInt8) :=
  (emit X r.1.keysOut w.snd r.2).map fun e => ({ w with kex := r.1, snd := e.1 }, e.2)

/-- What becomes of the receiving side when `packet_read_poll2` has found a packet:
`set_newkeys(MODE_IN)` after `NEWKEYS`. -/
def switchIn (X : Suite κ) (m : KexBody Upper) (keysIn : Option DirKeys) (recv : RecvState κ) :
    RecvState κ :=
  if m.isNewkeys then { recv with ctx := X.ctxIn keysIn, packets := 0 } else recv

/-- `packet_read_poll2`, and what is done with a packet. -/
def poll (X : Suite κ) (env : KexEnv Upper) (w : WireState κ) : Option (WireState κ × List UInt8) :=
  (packetReadPoll2 (X.keys w.kex.keysIn) w.recv).bind fun r =>
    match r.1 with
    | none => some ({ w with recv := r.2 }, [])
    | some payload =>
      (decodeBody payload).bind fun m =>
        (w.kex.receive env ⟨w.kex.keysIn, m⟩).bind fun k =>
          apply X { w with recv := switchIn X m k.1.keysIn r.2 } k

end WireState

/-- What an end does besides taking a byte. -/
inductive WireEvent where
  /-- The upper layers send a packet. -/
  | upper (u : Upper)
  /-- `packet_write_poll` pads with `n` bytes. -/
  | pad (n : ℕ)
  /-- The main loop finds that new keys are needed. -/
  | rekey
  /-- The end looks for a packet. -/
  | poll

/-- The random filler of a padding packet fits a packet. -/
theorem filler_fits {n : ℕ} (h : n + 64 ≤ packetMaxSize) (tape : ℕ → UInt8) :
    (draw tape n).1.length + 64 ≤ packetMaxSize := by
  rw [length_draw]
  exact h

/-- `packet_send_ignore(n)`: the random bytes are drawn first. -/
def WireState.sendIgnore (X : Suite κ) (env : KexEnv Upper) (w : WireState κ) (n : ℕ) :
    Option (WireState κ × List UInt8) :=
  if h : n + 64 ≤ packetMaxSize then
    (w.kex.act env (.pad ⟨(draw w.snd.tape n).1, filler_fits h w.snd.tape⟩)).bind
      (WireState.apply X { w with snd := { w.snd with tape := (draw w.snd.tape n).2 } })
  else none

/-- One event. -/
def WireState.act (X : Suite κ) (env : KexEnv Upper) (w : WireState κ) :
    WireEvent → Option (WireState κ × List UInt8)
  | .upper u => (w.kex.act env (.upper u)).bind (w.apply X)
  | .pad n => w.sendIgnore X env n
  | .rekey => (w.kex.act env .rekey).bind (w.apply X)
  | .poll => w.poll X env

/-- What both ends run. -/
def wireMachine (X : Suite κ) (env : KexEnv Upper) :
    Duplex.Machine (WireState κ) WireEvent UInt8 where
  act w e := w.act X env e
  receive w byte :=
    (packetProcessIncoming w.recv [byte]).map fun recv => ({ w with recv := recv }, [])

/-- One end of the connection. -/
abbrev WireEnd (κ : Type) : Type := Duplex.Party (WireState κ) UInt8

/-- `packet_set_connection` and `kex_setup`: the cipher is `none`, and the first `KEXINIT` is
written. -/
def wireSetup (X : Suite κ) (env : KexEnv Upper) (tape : ℕ → UInt8) (server : Bool) :
    Option (WireState κ × List UInt8) :=
  WireState.apply X
    { kex := (kexSetup env server).1
      snd := ⟨X.ctxOut none, 0, 0, tape⟩
      recv := { ctx := X.ctxIn none, seqnr := 0, packets := 0 } } (kexSetup env server)

end CSBuFLO
