/-
# Key re-exchange (`packet_send2` of `packet.c`)

Between this side's `KEXINIT` and its `NEWKEYS` only packets of the transport layer (types 1 to
49) may be sent.  `packet_send2` puts all others into the queue `outgoing`; after `NEWKEYS` it
switches to the new keys and encrypts the queue.  Padding packets (`IGNORE`) are of the transport
layer and go past the queue.

The model keeps a history: the packets `packet_send` was called for (`sent`), and the packets
that were encrypted (`log`) with the keys and the sequence number used.  `rekey_keeps_packets`
says that for every sequence of calls

* every packet is encrypted once, at once or by the next `NEWKEYS`;
* the packets outside the transport layer leave in the order they were sent, and none of them
  between `KEXINIT` and `NEWKEYS`;
* those sent in between follow `NEWKEYS` directly, under the new keys;
* the sequence numbers count the encrypted packets.
-/
import CSBuFLO.PacketRead
import CSBuFLO.Transition

namespace CSBuFLO

variable {κ : Type}

/-! ## The sender -/

/-- `SSH2_MSG_KEXINIT`. -/
def msgKexinit : UInt8 := 20

/-- `SSH2_MSG_TRANSPORT_MIN`. -/
def msgTransportMin : UInt8 := 1

/-- `SSH2_MSG_TRANSPORT_MAX`. -/
def msgTransportMax : UInt8 := 49

/-- A packet: the number of the call of `packet_send` it was made for, and its payload. -/
structure Packet where
  id : ℕ
  payload : List UInt8
  deriving DecidableEq, Repr

namespace Packet

/-- The type of a packet. -/
def type (p : Packet) : UInt8 := p.payload.headD 0

/-- A packet of the transport layer. -/
def transport (p : Packet) : Bool :=
  decide (msgTransportMin ≤ p.type) && decide (p.type ≤ msgTransportMax)

/-- A packet that has to wait for the end of a key exchange. -/
def outside (p : Packet) : Bool := !p.transport

end Packet

/-- A packet that `packet_send2_wrapped` has encrypted.  `epoch` is the number of key changes
before it. -/
structure Encrypted (κ : Type) where
  packet : Packet
  epoch : ℕ
  keys : Keys κ
  seqnr : ℕ
  bytes : List UInt8
  genuine : ∃ snd snd' extraPad, snd.seqnr = seqnr ∧
    packetSend2Wrapped keys snd extraPad packet.payload = some (bytes, snd')

/-- The sending side of `active_state`, with its history.  `newkeys` are the keys
`kex_get_newkeys` has ready; `retired` are the keys used before the current ones. -/
structure Sender (κ : Type) where
  keys : Keys κ
  snd : SendState κ
  extraPad : ℕ := 0
  rekeying : Bool := false
  outgoing : List Packet := []
  newkeys : Option (Keys κ × κ) := none
  output : List UInt8 := []
  sent : List Packet := []
  log : List (Encrypted κ) := []
  retired : List (Keys κ) := []

namespace Sender

/-- `set_newkeys(MODE_OUT)`; `none` is the `fatal` without new keys. -/
def setNewkeys (s : Sender κ) : Option (Sender κ) :=
  s.newkeys.map fun k => { s with
    keys := k.1
    snd := { s.snd with ctx := k.2, packets := 0 }
    newkeys := none
    retired := s.retired ++ [s.keys] }

/-- The part of `packet_send2_wrapped` that encrypts. -/
def encrypt (s : Sender κ) (p : Packet) : Option (Sender κ) :=
  match h : packetSend2Wrapped s.keys s.snd s.extraPad p.payload with
  | none => none
  | some (bytes, snd) => some { s with
      snd := snd
      extraPad := 0
      output := s.output ++ bytes
      log := s.log ++ [⟨p, s.retired.length, s.keys, s.snd.seqnr, bytes,
        s.snd, snd, s.extraPad, rfl, h⟩] }

/-- `packet_send2_wrapped`, with the key change after `NEWKEYS`. -/
def wrapped (s : Sender κ) (p : Packet) : Option (Sender κ) :=
  (s.encrypt p).bind fun s => if p.type = msgNewkeys then s.setNewkeys else some s

/-- The loop of `packet_send2` over the queue. -/
def flush (s : Sender κ) : List Packet → Option (Sender κ)
  | [] => some { s with outgoing := [] }
  | p :: ps => (wrapped { s with outgoing := ps } p).bind fun s => s.flush ps

/-- `packet_send2`. -/
def packetSend2 (s : Sender κ) (p : Packet) : Option (Sender κ) :=
  if s.rekeying && !p.transport then some { s with outgoing := s.outgoing ++ [p] }
  else
    let s := if p.type = msgKexinit then { s with rekeying := true } else s
    (s.wrapped p).bind fun s =>
      if p.type = msgNewkeys then flush { s with rekeying := false } s.outgoing else some s

end Sender

/-- What happens to the sending side. -/
inductive SenderEvent (κ : Type) where
  /-- The key exchange has derived new keys. -/
  | derive (K : Keys κ) (ctx : κ)
  /-- `packet_send`, after `packet_add_padding(pad)` unless `pad = 0`. -/
  | send (pad : ℕ) (payload : List UInt8)

/-- One event. -/
def senderStep (s : Sender κ) : SenderEvent κ → Option (Sender κ)
  | .derive K ctx => some { s with newkeys := some (K, ctx) }
  | .send pad payload =>
    let p : Packet := ⟨s.sent.length, payload⟩
    Sender.packetSend2 { s with
      extraPad := if pad = 0 then s.extraPad else pad
      sent := s.sent ++ [p] } p

/-! ## What one call does -/

variable {p : Packet} {s s' : Sender κ}

namespace Sender

/-- **One packet encrypted**: its record in the log, with the keys and the number it was given. -/
theorem encrypt_eq_some (h : s.encrypt p = some s') :
    ∃ snd bytes x, packetSend2Wrapped s.keys s.snd s.extraPad p.payload = some (bytes, snd) ∧
      x.packet = p ∧ x.epoch = s.retired.length ∧ x.keys = s.keys ∧ x.seqnr = s.snd.seqnr ∧
      x.bytes = bytes ∧ s' = { s with
        snd := snd, extraPad := 0, output := s.output ++ bytes, log := s.log ++ [x] } := by
  unfold encrypt at h
  split at h
  · cases h
  · rename_i bytes snd hwrapped
    exact ⟨snd, bytes, _, hwrapped, rfl, rfl, rfl, rfl, rfl, (Option.some.inj h).symm⟩

/-- What `packet_send2_wrapped` leaves alone and what it logs, for any packet but `NEWKEYS`. -/
structure Logged (s s' : Sender κ) (xs : List (Encrypted κ)) : Prop where
  log : s'.log = s.log ++ xs
  epoch : ∀ x ∈ xs, x.epoch = s.retired.length ∧ x.keys = s.keys
  keys : s'.keys = s.keys
  rekeying : s'.rekeying = s.rekeying
  newkeys : s'.newkeys = s.newkeys
  sent : s'.sent = s.sent
  retired : s'.retired = s.retired

/-- A packet other than `NEWKEYS` is encrypted, and the queue stays. -/
theorem wrapped_eq_some (hp : p.type ≠ msgNewkeys) (h : s.wrapped p = some s') :
    ∃ x, x.packet = p ∧ s.Logged s' [x] ∧ s'.outgoing = s.outgoing := by
  obtain ⟨s1, h1, h⟩ := Option.bind_eq_some_iff.mp h
  rw [if_neg hp] at h
  obtain rfl := Option.some.inj h
  obtain ⟨snd, bytes, x, -, hpacket, hepoch, hkeys, -, -, rfl⟩ := encrypt_eq_some h1
  exact ⟨x, hpacket, ⟨rfl, by simpa using ⟨hepoch, hkeys⟩, rfl, rfl, rfl, rfl, rfl⟩, rfl⟩

/-- The loop encrypts the queue, in order and under the same keys. -/
theorem flush_eq_some {q : List Packet} (hq : ∀ p ∈ q, p.type ≠ msgNewkeys)
    (h : s.flush q = some s') :
    ∃ xs, xs.map Encrypted.packet = q ∧ s.Logged s' xs ∧ s'.outgoing = [] := by
  induction q generalizing s with
  | nil =>
    obtain rfl := Option.some.inj h
    exact ⟨[], rfl, ⟨(List.append_nil _).symm, by simp, rfl, rfl, rfl, rfl, rfl⟩, rfl⟩
  | cons p q ih =>
    obtain ⟨s1, h1, h⟩ := Option.bind_eq_some_iff.mp h
    obtain ⟨x, hpacket, hx, -⟩ := wrapped_eq_some (hq p List.mem_cons_self) h1
    obtain ⟨xs, hpackets, hxs, hout⟩ := ih (fun p' hp' => hq p' (List.mem_cons_of_mem p hp')) h
    refine ⟨x :: xs, by rw [List.map_cons, hpacket, hpackets], ⟨?_, ?_, hxs.keys.trans hx.keys,
      hxs.rekeying.trans hx.rekeying, hxs.newkeys.trans hx.newkeys, hxs.sent.trans hx.sent,
      hxs.retired.trans hx.retired⟩, hout⟩
    · rw [hxs.log, hx.log, List.append_assoc, List.singleton_append]
    · refine List.forall_mem_cons.mpr ⟨hx.epoch x List.mem_cons_self, fun y hy => ?_⟩
      obtain ⟨hepoch, hkeys⟩ := hxs.epoch y hy
      exact ⟨hepoch.trans (congrArg List.length hx.retired), hkeys.trans hx.keys⟩

/-- `NEWKEYS` itself: encrypted under the old keys, after which the new ones are in place. -/
theorem wrapped_newkeys (hp : p.type = msgNewkeys) (h : s.wrapped p = some s') :
    ∃ x K ctx, s.newkeys = some (K, ctx) ∧ x.packet = p ∧ x.epoch = s.retired.length ∧
      x.keys = s.keys ∧ s'.log = s.log ++ [x] ∧ s'.keys = K ∧ s'.newkeys = none ∧
      s'.retired = s.retired ++ [s.keys] ∧ s'.sent = s.sent ∧ s'.outgoing = s.outgoing := by
  obtain ⟨s1, h1, h⟩ := Option.bind_eq_some_iff.mp h
  rw [if_pos hp] at h
  obtain ⟨⟨K, ctx⟩, hnew, rfl⟩ := Option.map_eq_some_iff.mp h
  obtain ⟨snd, bytes, x, -, hpacket, hepoch, hkeys, -, -, rfl⟩ := encrypt_eq_some h1
  exact ⟨x, K, ctx, hnew, hpacket, hepoch, hkeys, rfl, rfl, rfl, rfl, rfl, rfl⟩

/-- What a call of `packet_send2` can do. -/
inductive SendStep (s : Sender κ) (p : Packet) (s' : Sender κ) : Prop where
  /-- The packet has to wait. -/
  | queued (hrekeying : s.rekeying = true) (hp : p.outside = true)
      (heq : s' = { s with outgoing := s.outgoing ++ [p] })
  /-- The packet is encrypted. -/
  | plain (x : Encrypted κ) (hfree : s.rekeying = true → p.transport = true)
      (hp : p.type ≠ msgNewkeys) (hx : x.packet = p)
      (hlog : Logged { s with rekeying := s.rekeying || decide (p.type = msgKexinit) } s' [x])
      (hout : s'.outgoing = s.outgoing)
  /-- `NEWKEYS` is encrypted, and the queue after it. -/
  | newkeys (x : Encrypted κ) (xs : List (Encrypted κ)) (hp : p.type = msgNewkeys)
      (hx : x.packet = p) (hepoch : x.epoch = s.retired.length) (hkeys : x.keys = s.keys)
      (hxs : xs.map Encrypted.packet = s.outgoing)
      (hnew : ∀ y ∈ xs, y.epoch = s.retired.length + 1 ∧ y.keys = s'.keys)
      (hlog : s'.log = s.log ++ x :: xs) (hout : s'.outgoing = []) (hoff : s'.rekeying = false)
      (hready : ∃ ctx, s.newkeys = some (s'.keys, ctx)) (hused : s'.newkeys = none)
      (hretired : s'.retired = s.retired ++ [s.keys]) (hsent : s'.sent = s.sent)

theorem type_ne_newkeys_of_outside (h : p.outside = true) : p.type ≠ msgNewkeys := by
  intro htype
  unfold Packet.outside Packet.transport at h
  rw [htype] at h
  exact absurd h (by decide)

/-- **Inversion of a call.** -/
theorem packetSend2_cases (h : s.packetSend2 p = some s')
    (hq : ∀ x ∈ s.outgoing, x.outside = true) : s.SendStep p s' := by
  unfold packetSend2 at h
  split at h
  · rename_i hwait
    obtain ⟨hrekeying, hp⟩ := Bool.and_eq_true_iff.mp hwait
    exact .queued hrekeying hp (Option.some.inj h).symm
  · rename_i hwait
    have hfree : s.rekeying = true → p.transport = true := by
      intro hrekeying
      simpa [hrekeying] using hwait
    have hkexinit : (if p.type = msgKexinit then { s with rekeying := true } else s) =
        { s with rekeying := s.rekeying || decide (p.type = msgKexinit) } := by
      split
      · rename_i hp
        rw [decide_eq_true hp, Bool.or_true]
      · rename_i hp
        rw [decide_eq_false hp, Bool.or_false]
    dsimp only at h
    rw [hkexinit] at h
    obtain ⟨s1, h1, h⟩ := Option.bind_eq_some_iff.mp h
    by_cases hp : p.type = msgNewkeys
    · rw [if_pos hp] at h
      obtain ⟨x, K, ctx, hready, hx, hepoch, hkeys, hlog, hK, hnone, hretired, hsent, hout⟩ :=
        wrapped_newkeys hp h1
      obtain ⟨xs, hxs, hflush, hempty⟩ := flush_eq_some (s := { s1 with rekeying := false })
        (fun y hy => type_ne_newkeys_of_outside (hq y (by rw [← hout]; exact hy))) h
      refine .newkeys x xs hp hx hepoch hkeys (hxs.trans hout) (fun y hy => ?_) ?_ hempty
        hflush.rekeying ⟨ctx, ?_⟩ (hflush.newkeys.trans hnone) (hflush.retired.trans hretired)
        (hflush.sent.trans hsent)
      · obtain ⟨hy1, hy2⟩ := hflush.epoch y hy
        refine ⟨hy1.trans ?_, hy2.trans hflush.keys.symm⟩
        exact (congrArg List.length hretired).trans (by simp)
      · rw [hflush.log]
        change s1.log ++ xs = _
        rw [hlog, List.append_assoc, List.singleton_append]
      · rw [hflush.keys]
        change s.newkeys = some (s1.keys, ctx)
        rw [hK]
        exact hready
    · rw [if_neg hp] at h
      obtain rfl := Option.some.inj h
      obtain ⟨x, hx, hlog, hout⟩ := wrapped_eq_some hp h1
      exact .plain x hfree hp hx hlog hout

end Sender

/-- **Between key exchanges** a packet is what `packetSend` makes of it under the current keys. -/
theorem Sender.packetSend2_eq_packetSend (hr : s.rekeying = false) (hkexinit : p.type ≠ msgKexinit)
    (hnewkeys : p.type ≠ msgNewkeys) (padding : Bool) {pkt : PacketState (SendState κ) UInt8}
    (hsnd : pkt.snd = s.snd) (houtput : pkt.output = s.output) :
    (s.packetSend2 p).map (fun s' => (s'.snd, s'.output)) =
      (packetSend (packetCodec s.keys) padding s.extraPad p.payload pkt).map
        fun pkt' => (pkt'.snd, pkt'.output) := by
  have hencrypt : s.packetSend2 p = s.encrypt p := by
    unfold packetSend2
    rw [hr, Bool.false_and, if_neg Bool.false_ne_true, if_neg hkexinit]
    dsimp only
    unfold wrapped
    simp only [if_neg hnewkeys, Option.bind_fun_some]
  have hsend2 : (packetCodec s.keys).send2 pkt.snd s.extraPad p.payload =
      packetSend2Wrapped s.keys s.snd s.extraPad p.payload := by
    rw [hsnd]
    rfl
  rw [hencrypt]
  unfold encrypt packetSend
  rw [hsend2]
  split
  · rename_i hnone
    rw [hnone]
    rfl
  · rename_i bytes snd hsome
    simp only [hsome, Option.map_some, houtput]

/-! ## The exchange in progress -/

/-- The packets of the key exchange in progress, from its `KEXINIT` on; none if the last exchange
has ended with its `NEWKEYS`. -/
def exchange (l : List Packet) : List Packet :=
  (l.rtakeWhile (·.type ≠ msgNewkeys)).dropWhile (·.type ≠ msgKexinit)

/-- The packets that wait for the end of the exchange in progress. -/
def waiting (l : List Packet) : List Packet := (exchange l).filter Packet.outside

/-- `NEWKEYS` ends an exchange. -/
theorem exchange_newkeys (l : List Packet) (hp : p.type = msgNewkeys) :
    exchange (l ++ [p]) = [] := by
  unfold exchange
  rw [List.rtakeWhile_concat_neg _ _ _ (by simpa using hp), List.dropWhile_nil]

/-- Any other packet belongs to the exchange under way, or starts one as `KEXINIT`. -/
theorem exchange_concat (l : List Packet) (hp : p.type ≠ msgNewkeys) :
    exchange (l ++ [p]) =
      if exchange l = [] ∧ p.type ≠ msgKexinit then [] else exchange l ++ [p] := by
  unfold exchange
  rw [List.rtakeWhile_concat_pos _ _ _ (by simpa using hp), List.dropWhile_append]
  by_cases hnone : (l.rtakeWhile (·.type ≠ msgNewkeys)).dropWhile (·.type ≠ msgKexinit) = []
  · rw [hnone, List.isEmpty_nil, if_pos rfl, List.nil_append]
    by_cases hk : p.type = msgKexinit
    · rw [if_neg fun h => h.2 hk, List.dropWhile_cons_of_neg (by simpa using hk)]
    · rw [if_pos ⟨rfl, hk⟩, List.dropWhile_cons_of_pos (by simpa using hk), List.dropWhile_nil]
  · rw [if_neg (by simpa using hnone), if_neg fun h => hnone h.1]

/-- An exchange starts with `KEXINIT`, a packet of the transport layer. -/
theorem waiting_concat (l : List Packet) (hp : p.type ≠ msgNewkeys) :
    waiting (l ++ [p]) =
      if exchange l ≠ [] ∧ p.outside = true then waiting l ++ [p] else waiting l := by
  unfold waiting
  rw [exchange_concat l hp]
  by_cases hnone : exchange l = []
  · have hfree : ¬ (exchange l ≠ [] ∧ p.outside = true) := fun h => h.1 hnone
    rw [if_neg hfree, hnone]
    by_cases hk : p.type = msgKexinit
    · have hout : p.outside = false := by
        unfold Packet.outside Packet.transport
        rw [hk]
        decide
      rw [if_neg fun h => h.2 hk, List.nil_append, List.filter_cons_of_neg (by simp [hout])]
    · rw [if_pos ⟨rfl, hk⟩]
  · rw [if_neg fun h => hnone h.1, List.filter_append]
    by_cases hout : p.outside = true
    · rw [if_pos ⟨hnone, hout⟩, List.filter_cons_of_pos hout, List.filter_nil]
    · rw [if_neg fun h => hout h.2, List.filter_cons_of_neg hout, List.filter_nil, List.append_nil]

/-- Whether an exchange is in progress can be told from the transport layer. -/
theorem exchange_filter (l : List Packet) :
    exchange (l.filter Packet.transport) = [] ↔ exchange l = [] := by
  induction l using List.reverseRecOn with
  | nil => rfl
  | append_singleton l p ih =>
    rw [List.filter_append]
    by_cases hp : p.transport = true
    · rw [List.filter_cons_of_pos hp, List.filter_nil]
      by_cases hn : p.type = msgNewkeys
      · rw [exchange_newkeys _ hn, exchange_newkeys _ hn]
      · rw [exchange_concat _ hn, exchange_concat _ hn]
        simp only [ih]
        split <;> simp
    · have hout : p.outside = true := by simpa [Packet.outside] using hp
      have hn := Sender.type_ne_newkeys_of_outside hout
      have hk : p.type ≠ msgKexinit := by
        intro hk
        unfold Packet.transport at hp
        rw [hk] at hp
        exact hp (by decide)
      rw [List.filter_cons_of_neg hp, List.filter_nil, List.append_nil, ih, exchange_concat _ hn]
      split
      · rename_i h
        exact ⟨fun _ => rfl, fun _ => h.1⟩
      · rename_i h
        have hsome : exchange l ≠ [] := fun hnone => h ⟨hnone, hk⟩
        exact ⟨fun hnone => absurd hnone hsome, fun hnone => absurd hnone (by simp)⟩

/-- Packets of the upper layers start no exchange. -/
theorem exchange_append_outside {l q : List Packet} (h : exchange l = [])
    (hq : ∀ p ∈ q, p.outside = true) : exchange (l ++ q) = [] := by
  have hnone : q.filter Packet.transport = [] :=
    List.filter_eq_nil_iff.mpr fun p hp => by simpa [Packet.outside] using hq p hp
  rw [← exchange_filter, List.filter_append, hnone, List.append_nil, exchange_filter]
  exact h

/-- Only packets of the upper layers have to wait. -/
theorem outside_of_mem_waiting {l : List Packet} (h : p ∈ waiting l) : p.outside = true :=
  (List.mem_filter.mp h).2

/-- Nothing waits outside of an exchange. -/
theorem waiting_of_exchange_nil {l : List Packet} (h : exchange l = []) : waiting l = [] := by
  rw [waiting, h, List.filter_nil]

/-! ## What holds after every sequence of calls -/

/-- The packets of a log. -/
def packets (log : List (Encrypted κ)) : List Packet := log.map Encrypted.packet

@[simp] theorem packets_append (l l' : List (Encrypted κ)) :
    packets (l ++ l') = packets l ++ packets l' :=
  List.map_append

@[simp] theorem packets_cons (x : Encrypted κ) (l : List (Encrypted κ)) :
    packets (x :: l) = x.packet :: packets l := rfl

@[simp] theorem packets_nil : packets ([] : List (Encrypted κ)) = [] := rfl

/-- An element of two lists in a row is in the first or in the second of them. -/
theorem split_append {α : Type} {l l' pre post : List α} {x : α}
    (h : l ++ l' = pre ++ x :: post) :
    (∃ mid, l = pre ++ x :: mid ∧ post = mid ++ l') ∨
      ∃ mid, pre = l ++ mid ∧ l' = mid ++ x :: post := by
  rcases List.append_eq_append_iff.mp h with ⟨mid, hpre, hl'⟩ | ⟨mid, hl, hpost⟩
  · exact Or.inr ⟨mid, hpre, hl'⟩
  · cases mid with
    | nil => exact Or.inr ⟨[], by simpa using hl.symm, by simpa using hpost.symm⟩
    | cons y mid =>
      obtain ⟨rfl, rfl⟩ := List.cons.inj hpost
      exact Or.inl ⟨mid, hl, rfl⟩

/-- Where an element lies in a list with one more at the end. -/
theorem split_concat {α : Type} {l a b : List α} {x y : α} (h : l ++ [y] = a ++ x :: b) :
    (∃ mid, l = a ++ x :: mid ∧ b = mid ++ [y]) ∨ (a = l ∧ x = y ∧ b = []) := by
  rcases split_append h with hmid | ⟨mid, rfl, hmid⟩
  · exact Or.inl hmid
  · cases mid with
    | nil =>
      obtain ⟨rfl, rfl⟩ := List.cons.inj hmid
      exact Or.inr ⟨List.append_nil l, rfl, rfl⟩
    | cons z mid => simp at hmid

/-- How the encrypted packets relate to the packets sent. -/
structure Orderly (sent : List Packet) (log : List (Encrypted κ)) (outgoing : List Packet) :
    Prop where
  /-- No packet is lost, and none is encrypted twice. -/
  once : (packets log ++ outgoing).Perm sent
  /-- A packet is encrypted at once if no exchange is in progress, or if it is of the transport
  layer. -/
  atOnce : ∀ a p b, sent = a ++ p :: b → exchange a = [] ∨ p.transport = true → p ∈ packets log
  /-- Otherwise it is encrypted when the next `NEWKEYS` is sent. -/
  byNewkeys : ∀ a p b, sent = a ++ p :: b → (∃ q ∈ b, q.type = msgNewkeys) → p ∈ packets log
  /-- The packets outside the transport layer keep their order. -/
  order : (packets log).filter Packet.outside ++ outgoing = sent.filter Packet.outside
  /-- None of them is encrypted between `KEXINIT` and `NEWKEYS`. -/
  silent : ∀ pre x post, log = pre ++ x :: post → x.packet.outside = true →
    exchange (packets pre) = []
  /-- Those that waited for `NEWKEYS` come directly after it, under the new keys. -/
  flushed : ∀ a p b, sent = a ++ p :: b → p.type = msgNewkeys →
    ∃ pre x xs post, log = pre ++ x :: (xs ++ post) ∧ x.packet = p ∧ packets xs = waiting a ∧
      ∀ y ∈ xs, y.epoch = x.epoch + 1

/-- **One more call.**  The packet `p` is sent, and the packets `xs` are encrypted. -/
theorem Orderly.extend {sent outgoing outgoing' : List Packet} {log xs : List (Encrypted κ)}
    (h : Orderly sent log outgoing) (honce : (packets xs ++ outgoing').Perm (outgoing ++ [p]))
    (hatOnce : exchange sent = [] ∨ p.transport = true → p ∈ packets xs)
    (hbyNewkeys : p.type = msgNewkeys → ∀ q ∈ outgoing, q ∈ packets xs)
    (horder : (packets xs).filter Packet.outside ++ outgoing' =
      outgoing ++ [p].filter Packet.outside)
    (hsilent : ∀ pre x post, xs = pre ++ x :: post → x.packet.outside = true →
      exchange (packets log ++ packets pre) = [])
    (hflushed : p.type = msgNewkeys → ∃ x ys, xs = x :: ys ∧ x.packet = p ∧
      packets ys = waiting sent ∧ ∀ y ∈ ys, y.epoch = x.epoch + 1) :
    Orderly (sent ++ [p]) (log ++ xs) outgoing' := by
  refine ⟨?_, ?_, ?_, ?_, ?_, ?_⟩
  · rw [packets_append, List.append_assoc]
    refine (honce.append_left _).trans ?_
    rw [← List.append_assoc]
    exact h.once.append_right _
  · intro a q b hq hcond
    rw [packets_append, List.mem_append]
    rcases split_concat hq with ⟨mid, hmid, -⟩ | ⟨rfl, rfl, -⟩
    · exact Or.inl (h.atOnce a q mid hmid hcond)
    · exact Or.inr (hatOnce hcond)
  · rintro a q b hq ⟨k, hk, htype⟩
    rw [packets_append, List.mem_append]
    rcases split_concat hq with ⟨mid, hmid, rfl⟩ | ⟨-, -, rfl⟩
    · rcases List.mem_append.mp hk with hk | hk
      · exact Or.inl (h.byNewkeys a q mid hmid ⟨k, hk, htype⟩)
      · -- the `NEWKEYS` is the new packet: what was queued is encrypted now
        rw [List.mem_singleton.mp hk] at htype
        have hsent : q ∈ sent := by
          rw [hmid]
          exact List.mem_append_right _ List.mem_cons_self
        exact (List.mem_append.mp (h.once.mem_iff.mpr hsent)).imp_right (hbyNewkeys htype q)
    · cases hk
  · rw [packets_append, List.filter_append, List.append_assoc, horder, ← List.append_assoc,
      h.order, List.filter_append]
  · intro pre x post hx hout
    rcases split_append hx with ⟨mid, hmid, -⟩ | ⟨mid, rfl, hmid⟩
    · exact h.silent pre x mid hmid hout
    · rw [packets_append]
      exact hsilent mid x post hmid hout
  · intro a q b hq htype
    rcases split_concat hq with ⟨mid, hmid, -⟩ | ⟨rfl, rfl, -⟩
    · obtain ⟨pre, x, ys, post, rfl, hx, hys, hepoch⟩ := h.flushed a q mid hmid htype
      exact ⟨pre, x, ys, post ++ xs, by simp, hx, hys, hepoch⟩
    · obtain ⟨x, ys, rfl, hx, hys, hepoch⟩ := hflushed htype
      exact ⟨log, x, ys, [], by rw [List.append_nil], hx, hys, hepoch⟩

namespace Sender

/-- The invariant of the sender. -/
structure History (s : Sender κ) : Prop where
  ids : s.sent.map Packet.id = List.range s.sent.length
  rekeying : s.rekeying = true ↔ exchange s.sent ≠ []
  outgoing : s.outgoing = waiting s.sent
  transport : (packets s.log).filter Packet.transport = s.sent.filter Packet.transport
  orderly : Orderly s.sent s.log s.outgoing

variable {s s' : Sender κ} {p : Packet}

/-- An end that is not rekeying has finished its exchange. -/
theorem History.free (h : s.History) (hr : s.rekeying = false) : exchange s.sent = [] := by
  by_contra hsome
  rw [h.rekeying.mpr hsome] at hr
  cases hr

/-- Between exchanges the encrypted stream is between exchanges as well. -/
theorem History.exchange_log (h : s.History) (hr : s.rekeying = false) :
    exchange (packets s.log) = [] := by
  rw [← exchange_filter, h.transport, exchange_filter]
  exact h.free hr

/-- The packets are numbered in the order they were given to the sender. -/
theorem History.ids_concat (h : s.History) (hp : p.id = s.sent.length) :
    (s.sent ++ [p]).map Packet.id = List.range (s.sent ++ [p]).length := by
  rw [List.map_append, h.ids, List.length_append, List.length_singleton, List.range_succ,
    List.map_singleton, hp]

theorem transport_eq_false (hp : p.outside = true) : p.transport = false := by
  simpa [Packet.outside] using hp

theorem outside_eq_false (hp : p.transport = true) : p.outside = false := by
  simpa [Packet.outside] using hp

theorem transport_newkeys (hp : p.type = msgNewkeys) : p.transport = true := by
  unfold Packet.transport
  rw [hp]
  decide

/-- A packet that is queued. -/
theorem History.queued (h : s.History) (hp : p.id = s.sent.length) (hr : s.rekeying = true)
    (hout : p.outside = true) (hsent : s'.sent = s.sent ++ [p]) (hlog : s'.log = s.log)
    (houtgoing : s'.outgoing = s.outgoing ++ [p]) (hr' : s'.rekeying = true) : s'.History := by
  have hn := type_ne_newkeys_of_outside hout
  have hexchange := h.rekeying.mp hr
  have htransport := transport_eq_false hout
  refine ⟨?_, ?_, ?_, ?_, ?_⟩
  · rw [hsent]
    exact h.ids_concat hp
  · rw [hr', hsent, exchange_concat _ hn, if_neg fun hc => hexchange hc.1]
    simp
  · rw [houtgoing, hsent, waiting_concat _ hn, if_pos ⟨hexchange, hout⟩, h.outgoing]
  · rw [hlog, hsent, List.filter_append, h.transport,
      List.filter_cons_of_neg (by simp [htransport]),
      List.filter_nil, List.append_nil]
  · rw [hsent, hlog, houtgoing, ← List.append_nil s.log]
    refine h.orderly.extend ?_ ?_ (fun htype => absurd htype hn) ?_ ?_ fun htype => absurd htype hn
    · exact List.Perm.refl _
    · rintro (hfree | hp')
      · exact absurd hfree hexchange
      · rw [htransport] at hp'
        cases hp'
    · rw [List.filter_cons_of_pos hout]
      rfl
    · exact fun pre x post hx => absurd hx (by simp)

/-- A packet that is encrypted at once. -/
theorem History.plain (h : s.History) (hp : p.id = s.sent.length) {x : Encrypted κ}
    (hx : x.packet = p) (hfree : s.rekeying = true → p.transport = true)
    (hn : p.type ≠ msgNewkeys) (hsent : s'.sent = s.sent ++ [p]) (hlog : s'.log = s.log ++ [x])
    (houtgoing : s'.outgoing = s.outgoing)
    (hr' : s'.rekeying = (s.rekeying || decide (p.type = msgKexinit))) : s'.History := by
  -- outside the transport layer there is no exchange in progress
  have hidle : p.outside = true → s.rekeying = false := by
    intro hout
    by_contra hr
    rw [outside_eq_false (hfree (by simpa using hr))] at hout
    cases hout
  refine ⟨?_, ?_, ?_, ?_, ?_⟩
  · rw [hsent]
    exact h.ids_concat hp
  · rw [hr', hsent, exchange_concat _ hn, Bool.or_eq_true_iff, decide_eq_true_iff, h.rekeying]
    by_cases hnone : exchange s.sent = [] <;> by_cases hk : p.type = msgKexinit <;>
      simp [hnone, hk]
  · rw [houtgoing, hsent, waiting_concat _ hn, if_neg, h.outgoing]
    exact fun hc => hc.1 (h.free (hidle hc.2))
  · rw [hlog, hsent, packets_append, List.filter_append, List.filter_append, h.transport]
    simp [hx]
  · rw [hsent, hlog, houtgoing]
    refine h.orderly.extend ?_ (fun _ => by simp [hx]) (fun htype => absurd htype hn) ?_ ?_
      fun htype => absurd htype hn
    · rw [packets_cons, packets_nil, hx]
      exact List.perm_append_comm
    · rw [packets_cons, packets_nil, hx]
      by_cases hout : p.outside = true
      · rw [h.outgoing, waiting_of_exchange_nil (h.free (hidle hout)), List.append_nil,
          List.nil_append]
      · rw [List.filter_cons_of_neg hout, List.filter_nil, List.nil_append, List.append_nil]
    · intro pre y post hy hout
      obtain ⟨rfl, rfl, -⟩ : pre = [] ∧ y = x ∧ post = [] := by
        cases pre with
        | nil => simpa [eq_comm] using hy
        | cons z pre => simp at hy
      rw [packets_nil, List.append_nil]
      rw [hx] at hout
      exact h.exchange_log (hidle hout)

/-- `NEWKEYS`, and the queue after it. -/
theorem History.newkeys (h : s.History) (hp : p.id = s.sent.length) {x : Encrypted κ}
    {xs : List (Encrypted κ)} (hx : x.packet = p) (hxs : packets xs = s.outgoing)
    (hn : p.type = msgNewkeys) (hepoch : ∀ y ∈ xs, y.epoch = x.epoch + 1)
    (hsent : s'.sent = s.sent ++ [p]) (hlog : s'.log = s.log ++ x :: xs)
    (houtgoing : s'.outgoing = []) (hr' : s'.rekeying = false) : s'.History := by
  have htransport := transport_newkeys hn
  have hout := outside_eq_false htransport
  have hwaiting : ∀ q ∈ packets xs, q.outside = true := by
    rw [hxs, h.outgoing]
    exact fun q hq => outside_of_mem_waiting hq
  refine ⟨?_, ?_, ?_, ?_, ?_⟩
  · rw [hsent]
    exact h.ids_concat hp
  · rw [hr', hsent, exchange_newkeys _ hn]
    simp
  · rw [houtgoing, hsent, waiting_of_exchange_nil (exchange_newkeys _ hn)]
  · have hnone : (packets xs).filter Packet.transport = [] :=
      List.filter_eq_nil_iff.mpr fun q hq => by rw [transport_eq_false (hwaiting q hq)]; decide
    rw [hlog, hsent, packets_append, List.filter_append, List.filter_append, h.transport,
      packets_cons, hx, List.filter_cons_of_pos htransport, hnone,
      List.filter_cons_of_pos htransport, List.filter_nil]
  · rw [hsent, hlog, houtgoing]
    refine h.orderly.extend ?_ (fun _ => by simp [hx]) (fun _ q hq => ?_) ?_ ?_
      fun _ => ⟨x, xs, rfl, hx, hxs.trans h.outgoing, hepoch⟩
    · rw [packets_cons, hx, hxs, List.append_nil]
      have hcomm : ([p] ++ s.outgoing).Perm (s.outgoing ++ [p]) := List.perm_append_comm
      exact hcomm
    · rw [packets_cons, hxs]
      exact List.mem_cons_of_mem _ hq
    · rw [packets_cons, hx, List.filter_cons_of_neg (by simp [hout]),
        List.filter_cons_of_neg (by simp [hout]), List.filter_nil, List.append_nil, List.append_nil,
        List.filter_eq_self.mpr hwaiting, hxs]
    · intro pre y post hy hyout
      cases pre with
      | nil =>
        obtain ⟨rfl, -⟩ := List.cons.inj hy
        rw [hx, hout] at hyout
        cases hyout
      | cons z pre =>
        obtain ⟨rfl, rfl⟩ := List.cons.inj hy
        have hpre : ∀ q ∈ packets pre, q.outside = true := fun q hq => hwaiting q (by simp [hq])
        rw [packets_cons, List.append_cons, hx]
        exact exchange_append_outside (exchange_newkeys _ hn) hpre

/-- **Every event keeps the history.** -/
theorem History.step {e : SenderEvent κ} (h : s.History) (hstep : senderStep s e = some s') :
    s'.History := by
  cases e with
  | derive K ctx =>
    obtain rfl := Option.some.inj hstep
    exact ⟨h.ids, h.rekeying, h.outgoing, h.transport, h.orderly⟩
  | send pad payload =>
    have hq : ∀ x ∈ s.outgoing, x.outside = true := by
      rw [h.outgoing]
      exact fun x hx => outside_of_mem_waiting hx
    cases packetSend2_cases hstep hq with
    | queued hr hp heq =>
      subst heq
      exact h.queued rfl hr hp rfl rfl rfl hr
    | plain x hfree hp hx hlog hout =>
      exact h.plain rfl hx hfree hp hlog.sent hlog.log hout hlog.rekeying
    | newkeys x xs hp hx hepoch hkeys hxs hnew hlog hout hoff hready hused hretired hsent =>
      exact h.newkeys rfl hx hxs hp (fun y hy => by rw [(hnew y hy).1, hepoch]) hsent hlog hout
        hoff

/-! ## Keys, sequence numbers and bytes -/

/-- The number of `NEWKEYS` in a log. -/
def keyChanges (log : List (Encrypted κ)) : ℕ :=
  log.countP fun x => decide (x.packet.type = msgNewkeys)

/-- Each packet is encrypted under the keys of its epoch, which `NEWKEYS` ends. -/
structure Keyed (s : Sender κ) : Prop where
  count : s.retired.length = keyChanges s.log
  epoch : ∀ pre x post, s.log = pre ++ x :: post → x.epoch = keyChanges pre
  keys : ∀ x ∈ s.log, (s.retired ++ [s.keys])[x.epoch]? = some x.keys

theorem keyChanges_append (l l' : List (Encrypted κ)) :
    keyChanges (l ++ l') = keyChanges l + keyChanges l' :=
  List.countP_append

/-- Keys change at `NEWKEYS` only. -/
theorem keyChanges_eq_zero {l : List (Encrypted κ)} (h : ∀ x ∈ l, x.packet.type ≠ msgNewkeys) :
    keyChanges l = 0 :=
  List.countP_eq_zero.mpr fun x hx => by simpa using h x hx

/-- More packets under the current keys. -/
theorem Keyed.logged (h : s.Keyed) {xs : List (Encrypted κ)} (hlog : s.Logged s' xs)
    (hxs : ∀ x ∈ xs, x.packet.type ≠ msgNewkeys) : s'.Keyed := by
  refine ⟨?_, ?_, ?_⟩
  · rw [hlog.retired, hlog.log, keyChanges_append, keyChanges_eq_zero hxs]
    exact h.count
  · intro pre x post hx
    rw [hlog.log] at hx
    rcases split_append hx with ⟨mid, hmid, -⟩ | ⟨mid, rfl, rfl⟩
    · exact h.epoch pre x mid hmid
    · rw [keyChanges_append, keyChanges_eq_zero fun y hy => hxs y (List.mem_append_left _ hy),
        (hlog.epoch x (by simp)).1]
      exact h.count
  · intro x hx
    rw [hlog.log, List.mem_append] at hx
    rw [hlog.retired, hlog.keys]
    rcases hx with hx | hx
    · exact h.keys x hx
    · obtain ⟨hepoch, hkeys⟩ := hlog.epoch x hx
      rw [hepoch, hkeys]
      simp

/-- A packet is encrypted with the keys of its epoch. -/
theorem Keyed.wrapped (h : s.Keyed) (hstep : s.wrapped p = some s') : s'.Keyed := by
  by_cases hp : p.type = msgNewkeys
  · obtain ⟨x, K, ctx, -, hx, hepoch, hkeys, hlog, hK, -, hretired, -, -⟩ :=
      wrapped_newkeys hp hstep
    have hone : keyChanges [x] = 1 := by simp [keyChanges, hx, hp]
    refine ⟨?_, ?_, ?_⟩
    · rw [hretired, hlog, keyChanges_append, hone, List.length_append, List.length_singleton,
        h.count]
    · intro pre y post hy
      rw [hlog] at hy
      rcases split_concat hy with ⟨mid, hmid, -⟩ | ⟨rfl, rfl, -⟩
      · exact h.epoch pre y mid hmid
      · rw [hepoch, h.count]
    · intro y hy
      rw [hlog, List.mem_append, List.mem_singleton] at hy
      have hold : (s.retired ++ [s.keys])[y.epoch]? = some y.keys := by
        rcases hy with hy | rfl
        · exact h.keys y hy
        · rw [hepoch, hkeys]
          simp
      obtain ⟨hlt, -⟩ := List.getElem?_eq_some_iff.mp hold
      rw [hretired, List.getElem?_append_left hlt, hold]
  · obtain ⟨x, hx, hlog, -⟩ := wrapped_eq_some hp hstep
    exact h.logged hlog (by simpa [hx] using hp)

/-- The sequence numbers and the bytes of the log. -/
structure Wire (s : Sender κ) : Prop where
  chain : s.log.IsChain fun x y => y.seqnr = (x.seqnr + 1) % 2 ^ 32
  next : ∀ x ∈ s.log.getLast?, s.snd.seqnr = (x.seqnr + 1) % 2 ^ 32
  output : s.output = s.log.flatMap Encrypted.bytes

/-- The output is what the log says, packet by packet. -/
theorem Wire.encrypt (h : s.Wire) (hstep : s.encrypt p = some s') : s'.Wire := by
  obtain ⟨snd, bytes, x, hwrapped, -, -, -, hseqnr, rfl, rfl⟩ := encrypt_eq_some hstep
  obtain ⟨-, -, -, -, hnext, -⟩ := packetSend2Wrapped_eq_some hwrapped
  refine ⟨?_, ?_, ?_⟩
  · refine List.isChain_append.mpr ⟨h.chain, List.isChain_singleton x, fun y hy z hz => ?_⟩
    obtain rfl : x = z := by simpa using hz
    rw [hseqnr]
    exact h.next y hy
  · intro y hy
    obtain rfl : x = y := by simpa using hy
    rw [hseqnr]
    exact hnext
  · rw [List.flatMap_append, ← h.output]
    simp

theorem Wire.wrapped (h : s.Wire) (hstep : s.wrapped p = some s') : s'.Wire := by
  obtain ⟨s1, h1, hstep⟩ := Option.bind_eq_some_iff.mp hstep
  have hs1 := h.encrypt h1
  split at hstep
  · obtain ⟨k, -, rfl⟩ := Option.map_eq_some_iff.mp hstep
    exact ⟨hs1.chain, hs1.next, hs1.output⟩
  · obtain rfl := Option.some.inj hstep
    exact hs1

/-- **Invariant rule.**  What holds whatever the queue and the flags are, and what
`packet_send2_wrapped` keeps, every event keeps. -/
theorem inv_senderStep {J : Sender κ → Prop}
    (hframe : ∀ {s : Sender κ} {extraPad rekeying outgoing newkeys sent}, J s →
      J { s with extraPad, rekeying, outgoing, newkeys, sent })
    (hwrapped : ∀ {s s' : Sender κ} {p}, J s → s.wrapped p = some s' → J s')
    {e : SenderEvent κ} (h : J s) (hstep : senderStep s e = some s') : J s' := by
  have hflush : ∀ {q : List Packet} {s s' : Sender κ}, J s → s.flush q = some s' → J s' := by
    intro q
    induction q with
    | nil =>
      intro s s' hs hq
      obtain rfl := Option.some.inj hq
      exact hframe hs
    | cons p q ih =>
      intro s s' hs hq
      obtain ⟨s1, h1, hq⟩ := Option.bind_eq_some_iff.mp hq
      exact ih (hwrapped (hframe hs) h1) hq
  cases e with
  | derive K ctx =>
    obtain rfl := Option.some.inj hstep
    exact hframe h
  | send pad payload =>
    unfold senderStep packetSend2 at hstep
    dsimp only at hstep
    split at hstep
    · obtain rfl := Option.some.inj hstep
      exact hframe h
    · obtain ⟨s1, h1, hstep⟩ := Option.bind_eq_some_iff.mp hstep
      have hs1 : J s1 := by
        refine hwrapped ?_ h1
        split
        · exact hframe h
        · exact hframe h
      split at hstep
      · exact hflush (hframe hs1) hstep
      · obtain rfl := Option.some.inj hstep
        exact hs1

end Sender

/-! ## Calls that return -/

/-- Every `NEWKEYS` finds new keys; `ready` says whether there are some at the start. -/
def keysReady : Bool → List (SenderEvent κ) → Bool
  | _, [] => true
  | _, .derive _ _ :: evs => keysReady true evs
  | ready, .send _ payload :: evs =>
    if payload.headD 0 = msgNewkeys then ready && keysReady false evs else keysReady ready evs

namespace Sender

variable {s : Sender κ} {p : Packet}

/-- With room in the packet counter a packet can be encrypted. -/
theorem exists_encrypt (p : Packet) (h : s.snd.packets + 1 < 2 ^ 32) :
    ∃ s', s.encrypt p = some s' ∧ s'.snd.packets = s.snd.packets + 1 ∧ s'.newkeys = s.newkeys ∧
      s'.outgoing = s.outgoing := by
  have hnext : nextPackets s.keys.noRekey s.snd.packets = some (s.snd.packets + 1) := by
    unfold nextPackets
    rw [Nat.mod_eq_of_lt h, if_neg fun hc => absurd hc.1 (Nat.succ_ne_zero _)]
  obtain ⟨⟨bytes, snd⟩, hwrapped⟩ :
      ∃ r, packetSend2Wrapped s.keys s.snd s.extraPad p.payload = some r := by
    unfold packetSend2Wrapped
    dsimp only
    rw [hnext]
    exact ⟨_, rfl⟩
  obtain ⟨-, -, -, -, -, hpackets⟩ := packetSend2Wrapped_eq_some hwrapped
  rw [hnext] at hpackets
  unfold encrypt
  split
  · rename_i hnone
    rw [hwrapped] at hnone
    cases hnone
  · rename_i bytes' snd' hsome
    rw [hwrapped] at hsome
    obtain ⟨rfl, rfl⟩ := Prod.mk.inj (Option.some.inj hsome)
    exact ⟨_, rfl, (Option.some.inj hpackets).symm, rfl, rfl⟩

theorem exists_wrapped (hp : p.type ≠ msgNewkeys) (h : s.snd.packets + 1 < 2 ^ 32) :
    ∃ s', s.wrapped p = some s' ∧ s'.snd.packets = s.snd.packets + 1 ∧ s'.newkeys = s.newkeys ∧
      s'.outgoing = s.outgoing := by
  obtain ⟨s1, h1, hs1⟩ := exists_encrypt p h
  exact ⟨s1, by rw [wrapped, h1, Option.bind_some, if_neg hp], hs1⟩

/-- With room for all of them the packets that wait can be encrypted. -/
theorem exists_flush {q : List Packet} (hq : ∀ p ∈ q, p.type ≠ msgNewkeys)
    (h : s.snd.packets + q.length < 2 ^ 32) :
    ∃ s', s.flush q = some s' ∧ s'.snd.packets = s.snd.packets + q.length ∧
      s'.newkeys = s.newkeys ∧ s'.outgoing = [] := by
  induction q generalizing s with
  | nil => exact ⟨_, rfl, rfl, rfl, rfl⟩
  | cons p q ih =>
    rw [List.length_cons] at h
    obtain ⟨s1, h1, hpackets, hnew, -⟩ := exists_wrapped (s := { s with outgoing := q })
      (hq p List.mem_cons_self) (show s.snd.packets + 1 < 2 ^ 32 by omega)
    obtain ⟨s2, h2, hpackets2, hnew2, hout⟩ := ih (s := s1)
      (fun p' hp' => hq p' (List.mem_cons_of_mem p hp'))
      (by rw [hpackets]; show s.snd.packets + 1 + q.length < 2 ^ 32; omega)
    refine ⟨s2, ?_, ?_, hnew2.trans hnew, hout⟩
    · rw [flush, h1, Option.bind_some, h2]
    · rw [hpackets2, hpackets, List.length_cons]
      show s.snd.packets + 1 + q.length = _
      omega

/-- A call returns if there is room for its packets in the counter and `NEWKEYS` finds keys. -/
theorem exists_packetSend2 (hq : ∀ x ∈ s.outgoing, x.outside = true)
    (hkeys : p.type = msgNewkeys → s.newkeys.isSome = true)
    (h : s.snd.packets + s.outgoing.length + 1 < 2 ^ 32) :
    ∃ s', s.packetSend2 p = some s' ∧
      s'.snd.packets + s'.outgoing.length ≤ s.snd.packets + s.outgoing.length + 1 ∧
      s'.newkeys.isSome = (s.newkeys.isSome && decide (p.type ≠ msgNewkeys)) := by
  unfold packetSend2
  dsimp only
  split
  · rename_i hwait
    have hn := type_ne_newkeys_of_outside (p := p) (Bool.and_eq_true_iff.mp hwait).2
    refine ⟨_, rfl, ?_, by simp [hn]⟩
    rw [List.length_append, List.length_singleton, Nat.add_assoc]
  · -- the flag `rekeying` plays no part in what follows
    generalize hs0 : (if p.type = msgKexinit then { s with rekeying := true } else s) = s0
    have h0 : s0.snd = s.snd ∧ s0.newkeys = s.newkeys ∧ s0.outgoing = s.outgoing := by
      rw [← hs0]
      split <;> exact ⟨rfl, rfl, rfl⟩
    by_cases hn : p.type = msgNewkeys
    · obtain ⟨k, hk⟩ := Option.isSome_iff_exists.mp (hkeys hn)
      obtain ⟨s1, h1, hpackets, hnew, hout⟩ := exists_encrypt (s := s0) p
        (by rw [h0.1]; omega)
      have hwrapped : s0.wrapped p = s1.setNewkeys := by
        rw [wrapped, h1, Option.bind_some, if_pos hn]
      rw [hwrapped, setNewkeys, hnew, h0.2.1, hk, Option.map_some, Option.bind_some, if_pos hn]
      have hqueue : s1.outgoing = s.outgoing := hout.trans h0.2.2
      obtain ⟨s2, h2, hpackets2, hnew2, hout2⟩ := exists_flush (q := s1.outgoing)
        (s := { s1 with
          keys := k.1, snd := { s1.snd with ctx := k.2, packets := 0 }, newkeys := none
          retired := s1.retired ++ [s1.keys], rekeying := false })
        (fun x hx => type_ne_newkeys_of_outside (hq x (hqueue ▸ hx)))
        (show 0 + s1.outgoing.length < 2 ^ 32 by rw [hqueue]; omega)
      refine ⟨s2, h2, ?_, ?_⟩
      · rw [hpackets2, hout2, List.length_nil, hqueue]
        show 0 + s.outgoing.length + 0 ≤ _
        omega
      · rw [hnew2]
        simp [hn]
    · obtain ⟨s1, h1, hpackets, hnew, hout⟩ := exists_wrapped (s := s0) hn (by rw [h0.1]; omega)
      refine ⟨s1, by rw [h1, Option.bind_some, if_neg hn], ?_, ?_⟩
      · rw [hpackets, hout, h0.1, h0.2.2]
        omega
      · rw [hnew, h0.2.1]
        simp [hn]

/-- A sequence of calls returns if every `NEWKEYS` finds keys and the packet counter does not
wrap. -/
theorem exists_run {evs : List (SenderEvent κ)} (h : s.History)
    (hkeys : keysReady s.newkeys.isSome evs = true)
    (hfew : s.snd.packets + s.outgoing.length + evs.length < 2 ^ 32) :
    ∃ s', Transition.run senderStep s evs = some s' := by
  induction evs generalizing s with
  | nil => exact ⟨s, rfl⟩
  | cons e evs ih =>
    rw [List.length_cons] at hfew
    cases e with
    | derive K ctx =>
      have hstep : senderStep s (.derive K ctx) =
          some { s with newkeys := some (K, ctx) } := rfl
      obtain ⟨s', hs'⟩ := ih (h.step hstep) hkeys
        (show s.snd.packets + s.outgoing.length + evs.length < 2 ^ 32 by omega)
      exact ⟨s', Transition.run_cons_eq_some.mpr ⟨_, hstep, hs'⟩⟩
    | send pad payload =>
      have hq : ∀ x ∈ s.outgoing, x.outside = true := by
        rw [h.outgoing]
        exact fun x hx => outside_of_mem_waiting hx
      unfold keysReady at hkeys
      obtain ⟨s1, h1, hcount, hready⟩ := exists_packetSend2
        (s := { s with
          extraPad := if pad = 0 then s.extraPad else pad
          sent := s.sent ++ [⟨s.sent.length, payload⟩] })
        (p := ⟨s.sent.length, payload⟩) hq
        (fun hn => by
          rw [if_pos (show payload.headD 0 = msgNewkeys from hn)] at hkeys
          exact (Bool.and_eq_true_iff.mp hkeys).1)
        (show s.snd.packets + s.outgoing.length + 1 < 2 ^ 32 by omega)
      have hstep : senderStep s (.send pad payload) = some s1 := h1
      have hcount' : s1.snd.packets + s1.outgoing.length ≤
          s.snd.packets + s.outgoing.length + 1 := hcount
      obtain ⟨s', hs'⟩ := ih (h.step hstep) (by
        rw [hready]
        split at hkeys
        · rename_i hn
          have hdecide : decide ((⟨s.sent.length, payload⟩ : Packet).type ≠ msgNewkeys) =
              false :=
            decide_eq_false (not_not.mpr hn)
          rw [hdecide, Bool.and_false]
          exact (Bool.and_eq_true_iff.mp hkeys).2
        · rename_i hn
          have hdecide : decide ((⟨s.sent.length, payload⟩ : Packet).type ≠ msgNewkeys) =
              true :=
            decide_eq_true hn
          rw [hdecide, Bool.and_true]
          exact hkeys) (by omega)
      exact ⟨s', Transition.run_cons_eq_some.mpr ⟨s1, hstep, hs'⟩⟩

end Sender

/-! ## The result -/

/-- The payloads `packet_send` is called for. -/
def sentPayloads (evs : List (SenderEvent κ)) : List (List UInt8) :=
  evs.filterMap fun
    | .derive _ _ => none
    | .send _ payload => some payload

/-- What the history of a sender says after these calls. -/
structure Sender.Faithful (s : Sender κ) (evs : List (SenderEvent κ)) : Prop where
  sent : s.sent.map Packet.payload = sentPayloads evs
  nodup : s.sent.Nodup
  orderly : Orderly s.sent s.log s.outgoing
  keyed : s.Keyed
  wire : s.Wire

/-- The payloads given to the sender, one event at a time. -/
theorem sent_senderStep {e : SenderEvent κ} (h : s.History) (hstep : senderStep s e = some s') :
    s'.sent.map Packet.payload = s.sent.map Packet.payload ++ sentPayloads [e] := by
  cases e with
  | derive K ctx =>
    obtain rfl := Option.some.inj hstep
    exact (List.append_nil _).symm
  | send pad payload =>
    have hq : ∀ x ∈ s.outgoing, x.outside = true := by
      rw [h.outgoing]
      exact fun x hx => outside_of_mem_waiting hx
    have hsent : s'.sent = s.sent ++ [⟨s.sent.length, payload⟩] := by
      cases Sender.packetSend2_cases hstep hq with
      | queued _ _ heq =>
        subst heq
        rfl
      | plain _ _ _ _ hlog _ => exact hlog.sent
      | newkeys _ _ _ _ _ _ _ _ _ _ _ _ _ _ hsent => exact hsent
    rw [hsent, List.map_append]
    rfl

/-- The payloads given to the sender over a whole run. -/
theorem sent_run {evs : List (SenderEvent κ)} (h : s.History)
    (hrun : Transition.run senderStep s evs = some s') :
    s'.sent.map Packet.payload = s.sent.map Packet.payload ++ sentPayloads evs := by
  induction evs generalizing s with
  | nil =>
    obtain rfl := Option.some.inj hrun
    exact (List.append_nil _).symm
  | cons e evs ih =>
    obtain ⟨s1, h1, hrun⟩ := Transition.run_cons_eq_some.mp hrun
    rw [ih (h.step h1) hrun, sent_senderStep h h1, List.append_assoc]
    congr 1
    show sentPayloads [e] ++ sentPayloads evs = sentPayloads ([e] ++ evs)
    unfold sentPayloads
    rw [List.filterMap_append]

/-- A sender before its first packet. -/
theorem Sender.history_start (K : Keys κ) (snd : SendState κ) :
    Sender.History { keys := K, snd := snd } :=
  ⟨rfl, ⟨fun h => (nomatch h), fun h => absurd rfl h⟩, rfl, rfl, .refl _, by simp, by simp, rfl,
    by simp, by simp⟩

/-- **Key re-exchange neither loses nor reorders packets.**  And calls of `packet_send` do
return, as long as every `NEWKEYS` finds new keys and the packet counter does not wrap. -/
theorem rekey_keeps_packets (K : Keys κ) (snd : SendState κ) (evs : List (SenderEvent κ)) :
    (∀ s, Transition.run senderStep { keys := K, snd := snd } evs = some s → s.Faithful evs) ∧
    (keysReady false evs = true → snd.packets + evs.length < 2 ^ 32 →
      ∃ s, Transition.run senderStep { keys := K, snd := snd } evs = some s) := by
  have hstart := Sender.history_start K snd
  refine ⟨fun s hrun => ?_, fun hkeys hfew => Sender.exists_run hstart hkeys hfew⟩
  have hhistory := Transition.inv_run (I := Sender.History) (fun _ _ _ h => h.step) hrun hstart
  refine ⟨sent_run hstart hrun, ?_, hhistory.orderly, ?_, ?_⟩
  · refine List.Nodup.of_map Packet.id ?_
    rw [hhistory.ids]
    exact List.nodup_range
  · refine Transition.inv_run (I := Sender.Keyed) (fun _ _ _ h hstep => ?_) hrun
      ⟨rfl, by simp, by simp⟩
    exact Sender.inv_senderStep (fun h => ⟨h.count, h.epoch, h.keys⟩) (fun h => h.wrapped) h hstep
  · refine Transition.inv_run (I := Sender.Wire) (fun _ _ _ h hstep => ?_) hrun
      ⟨List.isChain_nil, by simp, rfl⟩
    exact Sender.inv_senderStep (fun h => ⟨h.chain, h.next, h.output⟩) (fun h => h.wrapped) h hstep

/-- Channel data, a key exchange with channel data and padding in it, and a notification. -/
def rekeyCalls : List (SenderEvent Unit) :=
  [.send 0 [94, 1], .send 0 [msgKexinit], .send 0 [94, 2], .send 0 [msgIgnore],
    .derive (identityKeys 16 20 blockSize_sixteen) (), .send 0 [msgNewkeys], .send 0 [200]]

/-- The channel data sent during the exchange leaves directly after `NEWKEYS`. -/
theorem rekey_keeps_packets_rekeyCalls :
    ∃ s, Transition.run senderStep
        { keys := identityKeys 8 0 (Or.inl rfl), snd := ⟨(), 0, 0, fun _ => 0⟩ } rekeyCalls =
      some s ∧ s.Faithful rekeyCalls ∧ (packets s.log).map Packet.id = [0, 1, 3, 4, 2, 5] := by
  obtain ⟨hfaithful, hreturns⟩ := rekey_keeps_packets (identityKeys 8 0 (Or.inl rfl))
    ⟨(), 0, 0, fun _ => 0⟩ rekeyCalls
  obtain ⟨s, hs⟩ := hreturns (by decide) (by decide)
  refine ⟨s, hs, hfaithful s hs, ?_⟩
  have hids : (Transition.run senderStep
      { keys := identityKeys 8 0 (Or.inl rfl), snd := ⟨(), 0, 0, fun _ => 0⟩ } rekeyCalls).map
      (fun s => (packets s.log).map Packet.id) = some [0, 1, 3, 4, 2, 5] := by
    decide +kernel
  rw [hs] at hids
  exact Option.some.inj hids

end CSBuFLO
