/-
# Encoding and reading SSH2 packets (`packet.c`)

The byte-exact packet layer: `packet_send2_wrapped` with padding, MAC and cipher, and
the receiving side `packet_process_incoming` and `packet_read_poll2`, which keeps a
partially decrypted first block between calls.

`Keys` collects what a key exchange fixes for one direction (cipher, MAC).  Compression
is off.  A key change is not part of this layer: `SSH2_MSG_NEWKEYS` is not special here.
-/
import CSBuFLO.BlockCipher
import CSBuFLO.CutStream
import CSBuFLO.PacketWrite

namespace CSBuFLO

/-- `PACKET_MAX_SIZE`. -/
def packetMaxSize : ℕ := 256 * 1024

/-- The keys of one direction.  `plaintext` is the cipher `none`, whose padding is zero;
`noRekey` is the compatibility flag `SSH_BUG_NOREKEY`. -/
structure Keys (κ : Type) where
  cipher : BlockCipher.Cipher UInt8 κ
  cbc : Bool
  plaintext : Bool
  macLen : ℕ
  mac : ℕ → List UInt8 → List UInt8
  noRekey : Bool
  blockSize_eq : cipher.blockSize = 8 ∨ cipher.blockSize = 16
  length_mac : ∀ seqnr text, (mac seqnr text).length = macLen

variable {κ : Type}

/-! ## Sending -/

/-- The sending side's cipher context, packet counters and source of random bytes. -/
structure SendState (κ : Type) where
  ctx : κ
  seqnr : ℕ
  packets : ℕ
  tape : ℕ → UInt8

/-- The next `n` random bytes. -/
def draw (tape : ℕ → UInt8) (n : ℕ) : List UInt8 × (ℕ → UInt8) :=
  ((List.range n).map tape, fun i => tape (n + i))

@[simp] theorem length_draw (tape : ℕ → UInt8) (n : ℕ) : (draw tape n).1.length = n := by
  simp [draw]

/-- A packet before encryption: packet length, padding length, payload, padding. -/
def frame (payload padding : List UInt8) : List UInt8 :=
  putU32 (1 + payload.length + padding.length) ++
    UInt8.ofNat padding.length :: (payload ++ padding)

@[simp] theorem length_frame (payload padding : List UInt8) :
    (frame payload padding).length = 5 + payload.length + padding.length := by
  simp [frame]; omega

/-- The packet counter after one more packet; `none` is the `fatal` of a counter that
wraps to zero. -/
def nextPackets (noRekey : Bool) (packets : ℕ) : Option ℕ :=
  if (packets + 1) % 2 ^ 32 = 0 ∧ noRekey = false then none else some ((packets + 1) % 2 ^ 32)

/-- `packet_send2_wrapped`. -/
def packetSend2Wrapped (K : Keys κ) (s : SendState κ) (extraPad : ℕ) (payload : List UInt8) :
    Option (List UInt8 × SendState κ) :=
  let padlen := padLength K.cipher.blockSize extraPad (5 + payload.length)
  let r := draw s.tape padlen
  let padding := if K.plaintext then List.replicate padlen 0 else r.1
  let plain := frame payload padding
  let e := K.cipher.enc s.ctx plain
  (nextPackets K.noRekey s.packets).map fun packets =>
    (e.1 ++ K.mac s.seqnr plain,
      { ctx := e.2
        seqnr := (s.seqnr + 1) % 2 ^ 32
        packets := packets
        tape := if K.plaintext then s.tape else r.2 })

variable {K : Keys κ} {payload : List UInt8} {ps : List (List UInt8)}

/-- What `packet_send2_wrapped` made: an encrypted frame with some padding, followed by
the MAC of the plain frame. -/
theorem packetSend2Wrapped_eq_some {s s' : SendState κ} {e : ℕ} {bs : List UInt8}
    (h : packetSend2Wrapped K s e payload = some (bs, s')) :
    ∃ padding, padding.length = padLength K.cipher.blockSize e (5 + payload.length) ∧
      bs = (K.cipher.enc s.ctx (frame payload padding)).1 ++ K.mac s.seqnr (frame payload padding) ∧
      s'.ctx = (K.cipher.enc s.ctx (frame payload padding)).2 ∧
      s'.seqnr = (s.seqnr + 1) % 2 ^ 32 ∧
      nextPackets K.noRekey s.packets = some s'.packets := by
  obtain ⟨n, hn, h⟩ := Option.map_eq_some_iff.mp h
  obtain ⟨rfl, rfl⟩ := Prod.mk.inj h
  refine ⟨_, ?_, rfl, rfl, rfl, hn⟩
  split <;> simp

/-- The byte-exact encoder. -/
def packetCodec (K : Keys κ) : Codec (SendState κ) UInt8 where
  blockSize := K.cipher.blockSize
  macLen := K.macLen
  arc4random s n := ((draw s.tape n).1, { s with tape := (draw s.tape n).2 })
  send2 := packetSend2Wrapped K
  blockSize_eq := K.blockSize_eq
  length_arc4random s n := length_draw s.tape n
  length_send2 {s e p bs s'} h := by
    obtain ⟨padding, hlen, rfl, -⟩ := packetSend2Wrapped_eq_some h
    have hdvd : K.cipher.blockSize ∣ (frame p padding).length := by
      rw [length_frame, hlen]
      exact padLength_dvd_all K.blockSize_eq e (5 + p.length)
    rw [List.length_append, K.cipher.length_enc _ hdvd, K.length_mac, length_frame, hlen]
    rfl

/-- The packet counter of the current keys leaves room for all packets before it wraps. -/
theorem room_packetCodec (K : Keys κ) {s : SendState κ} {n : ℕ} (h : s.packets + n < 2 ^ 32) :
    (packetCodec K).Room n s := by
  induction n generalizing s with
  | zero => trivial
  | succ n ih =>
    intro k extraPad payload
    have hnext : nextPackets K.noRekey s.packets = some (s.packets + 1) := by
      unfold nextPackets
      rw [Nat.mod_eq_of_lt (by omega), if_neg (by omega)]
    obtain ⟨⟨bs, t⟩, hsend⟩ : ∃ r, packetSend2Wrapped K ((packetCodec K).arc4random s k).2
        extraPad payload = some r := by
      unfold packetSend2Wrapped
      dsimp only [packetCodec]
      rw [hnext]
      exact ⟨_, rfl⟩
    obtain ⟨-, -, -, -, -, hpackets⟩ := packetSend2Wrapped_eq_some hsend
    have ht : s.packets + 1 = t.packets := Option.some.inj (hnext.symm.trans hpackets)
    exact ⟨(bs, t), hsend, ih (by rw [← ht]; omega)⟩

/-- Keys whose cipher leaves the text as it is and whose MAC is constant. -/
def identityKeys (b m : ℕ) (hb : b = 8 ∨ b = 16) : Keys Unit where
  cipher :=
    { blockSize := b
      blockSize_pos := by omega
      encBlock := fun k x => (x, k)
      decBlock := fun k x => (x, k)
      Synced := fun _ _ => True
      length_encBlock := fun _ _ h => h
      decBlock_encBlock := fun _ _ _ => rfl
      synced_encBlock := fun _ _ _ => trivial }
  cbc := false
  plaintext := true
  macLen := m
  mac := fun _ _ => List.replicate m 0
  noRekey := false
  blockSize_eq := hb
  length_mac := fun _ _ => List.length_replicate

/-- The encoder without encryption and MAC. -/
def plainCodec : Codec (SendState Unit) UInt8 := packetCodec (identityKeys 8 0 blockSize_eight)

/-- A sender with `n` bytes buffered. -/
def bufferedState (n : ℕ) : PacketState (SendState Unit) UInt8 :=
  { snd := ⟨(), 0, 0, fun _ => 0⟩, output := List.replicate n 0 }

/-! ## Receiving -/

/-- The receiving side of `packet.c`: bytes read and not yet consumed, the packet being
decrypted with the packet length found in its first block (0 between packets), and the
number of bytes still to be discarded after a corrupted packet. -/
structure RecvState (κ : Type) where
  ctx : κ
  seqnr : ℕ
  packets : ℕ
  input : List UInt8 := []
  incoming : List UInt8 := []
  packlen : ℕ := 0
  discard : ℕ := 0

/-- `packet_process_incoming`; `none` is the exit of `packet_stop_discard`.  The counter
`received_sofar` is kept with the other globals. -/
def packetProcessIncoming (r : RecvState κ) (buf : List UInt8) : Option (RecvState κ) :=
  if r.discard ≠ 0 then
    if r.discard ≤ buf.length then none else some { r with discard := r.discard - buf.length }
  else some { r with input := r.input ++ buf }

/-- `packet_start_discard`: without a CBC cipher the connection is closed at once. -/
def packetStartDiscard (K : Keys κ) (amount : ℕ) (r : RecvState κ) : Option (RecvState κ) :=
  if K.cbc = false then none
  else if amount ≤ r.input.length then none
  else some { r with discard := amount - r.input.length }

/-- The message numbers `packet_read_poll2` lets through. -/
def acceptedType (t : UInt8) : Bool :=
  (decide (1 ≤ t) && decide (t < msgLocalMin)) || (Notify.ofMsg t).isSome

/-- The end of `packet_read_poll2`: count the packet, strip length fields and padding and
look at the type.  The payload is returned with its type byte. -/
def finishPacket (K : Keys κ) (r : RecvState κ) :
    Option (Option (List UInt8) × RecvState κ) :=
  (nextPackets K.noRekey r.packets).bind fun packets =>
    let padlen := (r.incoming.getD 4 0).toNat
    if padlen < 4 then none
    else if r.incoming.length < 5 + padlen then none
    else
      match (r.incoming.drop 5).take (r.incoming.length - 5 - padlen) with
      | [] => none
      | t :: data =>
        if acceptedType t then
          some (some (t :: data),
            { r with seqnr := (r.seqnr + 1) % 2 ^ 32, packets := packets, packlen := 0 })
        else none

/-- The bytes of a packet after its first block: `4 + packlen - block_size` as an unsigned
number, which wraps for a packet shorter than a block. -/
def needBytes (blockSize packlen : ℕ) : ℕ :=
  if blockSize ≤ 4 + packlen then 4 + packlen - blockSize
  else 2 ^ 32 - (blockSize - (4 + packlen))

/-- The part of `packet_read_poll2` that comes after the first block is decrypted. -/
def readRest (K : Keys κ) (r : RecvState κ) : Option (Option (List UInt8) × RecvState κ) :=
  let b := K.cipher.blockSize
  let need := needBytes b r.packlen
  if need % b ≠ 0 then (packetStartDiscard K (packetMaxSize - b) r).map fun r' => (none, r')
  else if r.input.length < need + K.macLen then some (none, r)
  else
    let d := K.cipher.dec r.ctx (r.input.take need)
    let r1 := { r with ctx := d.2, incoming := r.incoming ++ d.1, input := r.input.drop need }
    if K.mac r1.seqnr r1.incoming ≠ r1.input.take K.macLen then
      if need > packetMaxSize then none
      else (packetStartDiscard K (packetMaxSize - need) r1).map fun r' => (none, r')
    else finishPacket K { r1 with input := r1.input.drop K.macLen }

/-- `packet_read_poll2`: `none` when the process exits, no payload when more input is
needed (`SSH_MSG_NONE`). -/
def packetReadPoll2 (K : Keys κ) (r : RecvState κ) :
    Option (Option (List UInt8) × RecvState κ) :=
  let b := K.cipher.blockSize
  if r.discard ≠ 0 then some (none, r)
  else if r.packlen = 0 then
    if r.input.length < b then some (none, r)
    else
      let d := K.cipher.dec r.ctx (r.input.take b)
      let r1 := { r with ctx := d.2, incoming := d.1, packlen := getU32 d.1 }
      if r1.packlen < 5 ∨ packetMaxSize < r1.packlen then
        (packetStartDiscard K packetMaxSize r1).map fun r' => (none, r')
      else readRest K { r1 with input := r1.input.drop b }
  else readRest K r

/-- The receiver as a decoder of the byte stream. -/
def packetDecoder (K : Keys κ) : CutStream.Decoder (RecvState κ) UInt8 (List UInt8) where
  feed := packetProcessIncoming
  poll := packetReadPoll2 K

/-! ## The stream a sender produces -/

/-- What both ends of a direction count: the cipher context and the packet counters. -/
structure Link (κ : Type) where
  ctx : κ
  seqnr : ℕ
  packets : ℕ

/-- A payload and padding that a receiver takes: a known message number, at least four
padding bytes, a packet length within the limit and whole blocks. -/
structure Acceptable (K : Keys κ) (payload padding : List UInt8) : Prop where
  type : ∃ t data, payload = t :: data ∧ acceptedType t
  four_le : 4 ≤ padding.length
  lt_256 : padding.length < 256
  fits : 1 + payload.length + padding.length ≤ packetMaxSize
  aligned : K.cipher.blockSize ∣ (frame payload padding).length

/-- `PacketStream K a ps bs z`: from link state `a`, the payloads `ps` become the bytes
`bs` and leave link state `z`. -/
inductive PacketStream (K : Keys κ) :
    Link κ → List (List UInt8) → List UInt8 → Link κ → Prop where
  | nil (a : Link κ) : PacketStream K a [] [] a
  | cons {a z : Link κ} {payload padding : List UInt8} {packets : ℕ}
      {ps : List (List UInt8)} {bs : List UInt8}
      (hok : Acceptable K payload padding)
      (hpackets : nextPackets K.noRekey a.packets = some packets)
      (htail : PacketStream K
        ⟨(K.cipher.enc a.ctx (frame payload padding)).2, (a.seqnr + 1) % 2 ^ 32, packets⟩ ps bs z) :
      PacketStream K a (payload :: ps)
        ((K.cipher.enc a.ctx (frame payload padding)).1 ++
          (K.mac a.seqnr (frame payload padding) ++ bs)) z

/-- Streams can be put one after the other. -/
theorem PacketStream.append {a m z : Link κ} {qs : List (List UInt8)} {bs cs : List UInt8}
    (h1 : PacketStream K a ps bs m) (h2 : PacketStream K m qs cs z) :
    PacketStream K a (ps ++ qs) (bs ++ cs) z := by
  induction h1 with
  | nil a => exact h2
  | cons hok hpackets _ ih =>
    have := PacketStream.cons hok hpackets (ih h2)
    simpa only [List.append_assoc, List.cons_append] using this

/-! ## Reading the stream -/

@[simp] theorem drop_five_frame (payload padding : List UInt8) :
    (frame payload padding).drop 5 = payload ++ padding := rfl

@[simp] theorem getD_four_frame (payload padding : List UInt8) :
    (frame payload padding).getD 4 0 = UInt8.ofNat padding.length := rfl

variable {r : RecvState κ}

/-- A decrypted acceptable frame yields its payload. -/
theorem finishPacket_frame {padding : List UInt8} {packets : ℕ} (hok : Acceptable K payload padding)
    (hr : r.incoming = frame payload padding)
    (hpackets : nextPackets K.noRekey r.packets = some packets) :
    finishPacket K r = some (some payload,
      { r with seqnr := (r.seqnr + 1) % 2 ^ 32, packets := packets, packlen := 0 }) := by
  obtain ⟨t, data, hpl, ht⟩ := hok.type
  have hpadlen : (UInt8.ofNat padding.length).toNat = padding.length := by
    rw [UInt8.toNat_ofNat', Nat.mod_eq_of_lt hok.lt_256]
  have htake : ((frame payload padding).drop 5).take
      ((frame payload padding).length - 5 - padding.length) = t :: data := by
    rw [drop_five_frame, length_frame, show 5 + payload.length + padding.length - 5 - padding.length
      = payload.length from by omega, List.take_left, hpl]
  have hfour := hok.four_le
  unfold finishPacket
  simp only [hpackets, Option.bind_some, hr, getD_four_frame, hpadlen, htake, ht, if_true]
  rw [if_neg (by omega), if_neg (by rw [length_frame]; omega), hpl]

/-- A receiver that holds the first block `x` of a packet: the rest `y` of the frame, its
MAC and the packets `ps` that follow are still in `input` or to come in `rest`. -/
structure Halfway (K : Keys κ) (z : Link κ) (r : RecvState κ) (payload padding x y : List UInt8)
    (ps : List (List UInt8)) (rest : List UInt8) : Prop where
  ok : Acceptable K payload padding
  frame_eq : frame payload padding = x ++ y
  length_x : x.length = K.cipher.blockSize
  incoming : r.incoming = x
  packlen : r.packlen = 1 + payload.length + padding.length
  stream : ∃ ctx packets bs, K.cipher.Synced ctx r.ctx ∧
    nextPackets K.noRekey r.packets = some packets ∧
    r.input ++ rest = (K.cipher.enc ctx y).1 ++ (K.mac r.seqnr (x ++ y) ++ bs) ∧
    PacketStream K ⟨(K.cipher.enc ctx y).2, (r.seqnr + 1) % 2 ^ 32, packets⟩ ps bs z

/-- What a receiver owes when the stream ends in link state `z`: between two packets, the
packets of the stream made of its input and what is to come; otherwise the packet it has
begun and those after it. -/
inductive RecvOwes (K : Keys κ) (z : Link κ) :
    RecvState κ → List (List UInt8) → List UInt8 → Prop where
  | between {r : RecvState κ} {ps : List (List UInt8)} {rest : List UInt8} {ctx : κ}
      (hdiscard : r.discard = 0) (hpacklen : r.packlen = 0) (hsync : K.cipher.Synced ctx r.ctx)
      (hstream : PacketStream K ⟨ctx, r.seqnr, r.packets⟩ ps (r.input ++ rest) z) :
      RecvOwes K z r ps rest
  | halfway {r : RecvState κ} {payload padding x y : List UInt8} {ps : List (List UInt8)}
      {rest : List UInt8} (hdiscard : r.discard = 0)
      (h : Halfway K z r payload padding x y ps rest) : RecvOwes K z r (payload :: ps) rest

/-- A sender that goes on sending owes the receiver more packets. -/
theorem RecvOwes.extend {m z : Link κ} {qs : List (List UInt8)} {rest cs : List UInt8}
    (h : RecvOwes K m r ps rest) (hstream : PacketStream K m qs cs z) :
    RecvOwes K z r (ps ++ qs) (rest ++ cs) := by
  cases h with
  | between hdiscard hpacklen hsync h =>
    refine .between hdiscard hpacklen hsync ?_
    rw [← List.append_assoc]
    exact h.append hstream
  | halfway hdiscard h =>
    obtain ⟨hok, hframe, hx, hinc, hpacklen, ctx, packets, bs, hsync, hpackets, hin, htail⟩ := h
    refine .halfway hdiscard ⟨hok, hframe, hx, hinc, hpacklen, ctx, packets, bs ++ cs, hsync,
      hpackets, ?_, htail.append hstream⟩
    rw [← List.append_assoc, hin, List.append_assoc, List.append_assoc]

/-- A text that is at least as long as the beginning of the stream it belongs to starts
with it. -/
theorem eq_append_of_le_length {a b c d : List UInt8} (h : a ++ b = c ++ d)
    (hle : c.length ≤ a.length) : ∃ a', a = c ++ a' ∧ a' ++ b = d := by
  obtain ⟨a', rfl⟩ : c <+: a :=
    List.prefix_of_prefix_length_le ⟨d, rfl⟩ ⟨b, h⟩ hle
  rw [List.append_assoc] at h
  exact ⟨a', rfl, List.append_cancel_left h⟩

/-- **Reading the rest of a packet.**  Either input is missing and nothing changes, or the
payload is delivered. -/
theorem readRest_halfway {z : Link κ} {padding x y : List UInt8} {rest : List UInt8}
    (hdiscard : r.discard = 0) (h : Halfway K z r payload padding x y ps rest) :
    (readRest K r = some (none, r) ∧ rest ≠ []) ∨
    ∃ r', readRest K r = some (some payload, r') ∧ RecvOwes K z r' ps rest := by
  obtain ⟨hok, hframe, hx, hinc, hpacklen, ctx, packets, bs, hsync, hpackets, hin, htail⟩ := h
  have hlen : x.length + y.length = 5 + payload.length + padding.length := by
    rw [← List.length_append, ← hframe, length_frame]
  have hdvd : K.cipher.blockSize ∣ y.length := by
    have := hok.aligned
    rw [hframe, List.length_append, hx] at this
    exact (Nat.dvd_add_right (dvd_refl _)).mp this
  have hneed : needBytes K.cipher.blockSize r.packlen = y.length := by
    unfold needBytes
    rw [if_pos (by omega)]
    omega
  have henc : (K.cipher.enc ctx y).1.length = y.length := K.cipher.length_enc y hdvd ctx
  unfold readRest
  simp only [hneed]
  rw [if_neg (by rw [not_not]; exact Nat.mod_eq_zero_of_dvd hdvd)]
  by_cases hshort : r.input.length < y.length + K.macLen
  · left
    refine ⟨if_pos hshort, ?_⟩
    rintro rfl
    rw [List.append_nil] at hin
    have := congrArg List.length hin
    simp only [List.length_append, henc, K.length_mac] at this
    omega
  · right
    rw [if_neg hshort]
    obtain ⟨in1, hin1, hin'⟩ := eq_append_of_le_length hin (by omega)
    obtain ⟨in2, rfl, rfl⟩ := eq_append_of_le_length hin' (by
      rw [hin1, List.length_append, henc] at hshort
      rw [K.length_mac]; omega)
    obtain ⟨htext, hsync'⟩ := K.cipher.dec_enc y hdvd hsync
    rw [hin1, List.take_left' henc, List.drop_left' henc, htext, hinc,
      List.take_left' (K.length_mac _ _), List.drop_left' (K.length_mac _ _),
      if_neg (not_not.mpr rfl)]
    refine ⟨_, finishPacket_frame hok hframe.symm hpackets, ?_⟩
    exact RecvOwes.between hdiscard rfl hsync' htail

/-- The first block of a frame holds the packet length. -/
theorem getU32_of_frame_eq {padding x y : List UInt8} (h : frame payload padding = x ++ y)
    (hx : 4 ≤ x.length) (hfits : 1 + payload.length + padding.length < 2 ^ 32) :
    getU32 x = 1 + payload.length + padding.length := by
  obtain ⟨x', rfl, -⟩ := eq_append_of_le_length h.symm
    (by rw [length_putU32]; exact hx)
  exact getU32_putU32 _ hfits x'

/-- Without a whole first block nothing happens. -/
theorem packetReadPoll2_of_short (hdiscard : r.discard = 0) (hpacklen : r.packlen = 0)
    (hshort : r.input.length < K.cipher.blockSize) : packetReadPoll2 K r = some (none, r) := by
  unfold packetReadPoll2
  rw [if_neg (not_not.mpr hdiscard), if_pos hpacklen, if_pos hshort]

/-- **Reading between two packets.**  Either a first block is missing, and then nothing is
owed if nothing is to come; or the first block of the next packet is decrypted and the
rest of it is read. -/
theorem packetReadPoll2_between {rest : List UInt8} {ctx : κ} {z : Link κ}
    (hdiscard : r.discard = 0) (hpacklen : r.packlen = 0) (hsync : K.cipher.Synced ctx r.ctx)
    (hstream : PacketStream K ⟨ctx, r.seqnr, r.packets⟩ ps (r.input ++ rest) z) :
    (packetReadPoll2 K r = some (none, r) ∧ (rest = [] → ps = [])) ∨
    ∃ payload padding x y ps' r1, ps = payload :: ps' ∧ r1.discard = 0 ∧
      packetReadPoll2 K r = readRest K r1 ∧ Halfway K z r1 payload padding x y ps' rest := by
  have hb := K.blockSize_eq
  generalize hbs : r.input ++ rest = bs at hstream
  cases hstream with
  | nil =>
    left
    have hnil : r.input = [] := (List.append_eq_nil_iff.mp hbs).1
    exact ⟨packetReadPoll2_of_short hdiscard hpacklen (by rw [hnil, List.length_nil]; omega),
      fun _ => rfl⟩
  | @cons _ _ payload padding packets ps' bs' hok hpackets htail =>
    have hframe := (List.take_append_drop K.cipher.blockSize (frame payload padding)).symm
    have hle : K.cipher.blockSize ≤ (frame payload padding).length :=
      Nat.le_of_dvd (by rw [length_frame]; omega) hok.aligned
    generalize hxdef : (frame payload padding).take K.cipher.blockSize = x at hframe
    generalize (frame payload padding).drop K.cipher.blockSize = y at hframe
    have hx : x.length = K.cipher.blockSize := by
      rw [← hxdef, List.length_take, Nat.min_eq_left hle]
    have hxdvd : K.cipher.blockSize ∣ x.length := hx ▸ dvd_refl _
    have henc := K.cipher.length_enc x hxdvd ctx
    rw [hframe, K.cipher.enc_append ctx hxdvd y] at hbs htail
    rw [List.append_assoc] at hbs
    by_cases hshort : r.input.length < K.cipher.blockSize
    · left
      refine ⟨packetReadPoll2_of_short hdiscard hpacklen hshort, ?_⟩
      rintro rfl
      have := congrArg List.length hbs
      simp only [List.length_append, List.length_nil, henc, hx] at this
      omega
    · right
      obtain ⟨in1, hin1, hin⟩ := eq_append_of_le_length hbs (by omega)
      obtain ⟨htext, hsync'⟩ := K.cipher.dec_enc x hxdvd hsync
      have hfits := hok.fits
      have hu32 : getU32 x = 1 + payload.length + padding.length :=
        getU32_of_frame_eq hframe (by omega) (by unfold packetMaxSize at hfits; omega)
      have hfour := hok.four_le
      refine ⟨payload, padding, x, y, ps', { r with
          ctx := (K.cipher.dec r.ctx (K.cipher.enc ctx x).1).2
          incoming := x
          packlen := 1 + payload.length + padding.length
          input := in1 }, rfl, hdiscard, ?_, ?_⟩
      · unfold packetReadPoll2
        rw [if_neg (not_not.mpr hdiscard), if_pos hpacklen, if_neg hshort]
        simp only [hin1, List.take_left' (henc.trans hx), List.drop_left' (henc.trans hx), htext,
          hu32]
        rw [if_neg (by omega)]
      · exact ⟨hok, hframe, hx, rfl, rfl, _, packets, bs', hsync', hpackets, hin, htail⟩

/-- The receiver never drops, changes or invents a packet of the stream. -/
theorem owes_packetDecoder (K : Keys κ) (z : Link κ) : (packetDecoder K).Owes (RecvOwes K z) where
  feed := by
    intro r ps piece rest h
    cases h with
    | between hdiscard hpacklen hsync hstream =>
      rw [← List.append_assoc] at hstream
      refine ⟨{ r with input := r.input ++ piece }, ?_, .between hdiscard hpacklen hsync hstream⟩
      simp [packetDecoder, packetProcessIncoming, hdiscard]
    | halfway hdiscard h =>
      obtain ⟨hok, hframe, hx, hinc, hpacklen, ctx, packets, bs, hsync, hpackets, hin, htail⟩ := h
      rw [← List.append_assoc] at hin
      refine ⟨{ r with input := r.input ++ piece }, ?_, .halfway hdiscard
        ⟨hok, hframe, hx, hinc, hpacklen, ctx, packets, bs, hsync, hpackets, hin, htail⟩⟩
      simp [packetDecoder, packetProcessIncoming, hdiscard]
  poll := by
    intro r ps rest h
    cases h with
    | between hdiscard hpacklen hsync hstream =>
      obtain ⟨hpoll, hdone⟩ | ⟨payload, padding, x, y, ps', r1, rfl, hr1, hpoll, h1⟩ :=
        packetReadPoll2_between hdiscard hpacklen hsync hstream
      · exact Or.inl ⟨r, hpoll, .between hdiscard hpacklen hsync hstream, hdone⟩
      · obtain ⟨hread, hrest⟩ | ⟨r', hread, hr'⟩ := readRest_halfway hr1 h1
        · exact Or.inl ⟨r1, hpoll.trans hread, .halfway hr1 h1, fun hnil => absurd hnil hrest⟩
        · exact Or.inr ⟨_, _, r', rfl, hpoll.trans hread, hr'⟩
    | halfway hdiscard h =>
      have hne : r.packlen ≠ 0 := by rw [h.packlen]; omega
      obtain ⟨hpoll, hrest⟩ | ⟨r', hpoll, hr'⟩ := readRest_halfway hdiscard h
      · exact Or.inl ⟨r, by simp [packetDecoder, packetReadPoll2, hdiscard, hne, hpoll],
          .halfway hdiscard h, fun hnil => absurd hnil hrest⟩
      · exact Or.inr ⟨_, _, r', rfl,
          by simp [packetDecoder, packetReadPoll2, hdiscard, hne, hpoll],
          hr'⟩

end CSBuFLO
