/-
# Padding is transparent

Packets are appended to the output buffer while `packet_write_poll` runs, in any mode and
with any budget, any state of the socket and any result of the writes.  The write routine
adds padding packets of its own and cuts the output at arbitrary offsets.

The invariant `Faithful` says that the bytes written and the bytes still buffered are
together the encoding of one sequence of packets, and that the packets in it that are not
padding are the ones appended.  With the receiver of `PacketRead.lean`, which does not
depend on how the stream is cut, the peer sees exactly the appended packets.
-/
import CSBuFLO.PacketRead
import CSBuFLO.Transition

namespace CSBuFLO

/-! ## The sender among its callers -/

/-- What can happen to the sending side: a packet is appended, or `packet_write_poll` is
called, with the globals as they are at that moment. -/
inductive WriteEvent where
  | append (extraPad : ℕ) (payload : List UInt8)
  | poll (g : Globals) (inp : PollInput)

/-- One event.  A poll that is still looping shows its state so far. -/
def writeStep {σ β : Type} (c : Codec σ β) (p : PacketState σ β) :
    WriteEvent → Option (PacketState σ β)
  | .append extraPad payload => packetSend c false extraPad payload p
  | .poll g inp => (packetWritePoll c inp g p).seen.map Prod.snd

/-- The payloads appended by a list of events. -/
def appended : List WriteEvent → List (List UInt8)
  | [] => []
  | .append _ payload :: evs => payload :: appended evs
  | .poll _ _ :: evs => appended evs

variable {κ : Type}

/-- The packets the rest of the program appends: no key change, a message number the peer
knows, a packet length within the limit, and the extra padding of the password replies or
none. -/
structure Sendable (K : Keys κ) (extraPad : ℕ) (payload : List UInt8) : Prop where
  type : ∃ t data, payload = t :: data ∧ acceptedType t ∧ t ≠ msgNewkeys
  extra : extraPad = 0 ∨ extraPad = 64
  fits : 1 + payload.length + padLength K.cipher.blockSize extraPad (5 + payload.length)
    ≤ packetMaxSize

/-- The link state of a sender. -/
def SendState.link (s : SendState κ) : Link κ := ⟨s.ctx, s.seqnr, s.packets⟩

/-- The output of a sender that has been asked to send `reals`. -/
structure Faithful (K : Keys κ) (a : Link κ) (reals : List (List UInt8))
    (p : PacketState (SendState κ) UInt8) : Prop where
  calls_le : ∀ w ∈ p.calls, w.handed ≤ w.buffered
  bytes_eq : p.wire ++ p.output = (p.sent.map Sent.bytes).flatten
  stream : PacketStream K a (p.sent.map Sent.payload) (p.wire ++ p.output) p.snd.link
  reals_eq : (p.sent.filter fun s => !s.padding).map Sent.payload = reals
  padding_eq : ∀ s ∈ p.sent, s.padding = true → ∃ random, s.payload = ignorePayload random

/-! ## Each event keeps the output faithful -/

variable {K : Keys κ} {p p' : PacketState (SendState κ) UInt8}

/-- Sending a packet appends one packet to the stream. -/
theorem packetStream_packetSend {b : Bool} {e : ℕ} {payload : List UInt8}
    (h : packetSend (packetCodec K) b e payload p = some p') (he : e = 0 ∨ e = 64)
    (htype : ∃ t data, payload = t :: data ∧ acceptedType t)
    (hfits : 1 + payload.length + padLength K.cipher.blockSize e (5 + payload.length)
      ≤ packetMaxSize) :
    ∃ bs, p' = { p with
        snd := p'.snd, output := p.output ++ bs, sent := p.sent ++ [⟨b, payload, bs⟩] } ∧
      PacketStream K p.snd.link [payload] bs p'.snd.link := by
  obtain ⟨bs, s, hs, rfl⟩ := packetSend_eq_some h
  obtain ⟨padding, hlen, rfl, hctx, hseq, hpackets⟩ := packetSend2Wrapped_eq_some hs
  have hpad : 4 ≤ padding.length ∧ padding.length < 256 := by
    rw [hlen]
    rcases he with rfl | rfl
    · have := padLength_bounds K.blockSize_eq (5 + payload.length)
      have := K.blockSize_eq
      omega
    · have := padLength_extra K.blockSize_eq (5 + payload.length)
      omega
  have hok : Acceptable K payload padding :=
    ⟨htype, hpad.1, hpad.2, by rw [hlen]; exact hfits, by
      rw [length_frame, hlen]
      exact padLength_dvd_all K.blockSize_eq e (5 + payload.length)⟩
  refine ⟨_, rfl, ?_⟩
  have hstream := PacketStream.cons (a := p.snd.link) hok hpackets (PacketStream.nil _)
  rw [List.append_nil] at hstream
  rw [show SendState.link s = ⟨s.ctx, s.seqnr, s.packets⟩ from rfl, hctx, hseq]
  exact hstream

/-- Appending a packet to a faithful output. -/
theorem Faithful.packetSend {a : Link κ} {reals : List (List UInt8)} {b : Bool} {e : ℕ}
    {payload : List UInt8} (hp : Faithful K a reals p)
    (h : packetSend (packetCodec K) b e payload p = some p') (he : e = 0 ∨ e = 64)
    (htype : ∃ t data, payload = t :: data ∧ acceptedType t)
    (hfits : 1 + payload.length + padLength K.cipher.blockSize e (5 + payload.length)
      ≤ packetMaxSize) (hpadding : b = true → ∃ random, payload = ignorePayload random) :
    Faithful K a (if b then reals else reals ++ [payload]) p' := by
  obtain ⟨bs, heq, hstream⟩ := packetStream_packetSend h he htype hfits
  rw [heq]
  refine ⟨hp.calls_le, ?_, ?_, ?_, ?_⟩
  · simp [← hp.bytes_eq]
  · have := hp.stream.append hstream
    simpa using this
  · rw [List.filter_append, List.map_append, hp.reals_eq]
    cases b <;> simp
  · intro s hs hpad
    rcases List.mem_append.mp hs with hs | hs
    · exact hp.padding_eq s hs hpad
    · obtain rfl := List.mem_singleton.mp hs
      exact hpadding hpad

/-- `packet_write_poll` keeps the output faithful. -/
theorem Faithful.packetWritePoll {a : Link κ} {reals : List (List UInt8)}
    (hp : Faithful K a reals p) (inp : PollInput) (g : Globals) :
    (packetWritePoll (packetCodec K) inp g p).All (fun r => Faithful K a reals r.2) := by
  refine inv_packetWritePoll ?_ ?_ ?_ inp g p hp
  · intro n q q' hn hq hsend
    -- the padding packet is sent from a state with fewer random bytes left
    have hq1 : Faithful K a reals
        { q with snd := ((packetCodec K).arc4random q.snd n).2 } :=
      ⟨hq.calls_le, hq.bytes_eq, hq.stream, hq.reals_eq, hq.padding_eq⟩
    have hlen : (ignorePayload ((packetCodec K).arc4random q.snd n).1).length = 5 + n := by
      rw [length_ignorePayload, (packetCodec K).length_arc4random]
    have hb := padLength_bounds K.blockSize_eq (5 + (5 + n))
    have := K.blockSize_eq
    refine hq1.packetSend hsend (Or.inl rfl) ⟨_, _, rfl, by decide⟩ ?_ fun _ => ⟨_, rfl⟩
    rw [hlen]
    unfold packetMaxSize
    omega
  · intro n acc q hq hn hacc
    refine ⟨?_, ?_, ?_, hq.reals_eq, hq.padding_eq⟩
    · intro w hw
      rcases List.mem_append.mp hw with hw | hw
      · exact hq.calls_le w hw
      · obtain rfl := List.mem_singleton.mp hw
        exact hn
    · simpa [PacketState.consume, PacketState.handOver] using hq.bytes_eq
    · simpa [PacketState.consume, PacketState.handOver] using hq.stream
  · exact fun t q hq => ⟨hq.calls_le, hq.bytes_eq, hq.stream, hq.reals_eq, hq.padding_eq⟩

/-- **The run lemma.**  Whatever happens, the output stays faithful to what was appended. -/
theorem Faithful.run {a : Link κ} {reals : List (List UInt8)} {evs : List WriteEvent}
    (hp : Faithful K a reals p)
    (hok : ∀ e payload, WriteEvent.append e payload ∈ evs → Sendable K e payload)
    (hrun : Transition.run (writeStep (packetCodec K)) p evs = some p') :
    Faithful K a (reals ++ appended evs) p' := by
  induction evs generalizing reals p with
  | nil =>
    rw [appended, List.append_nil]
    exact Option.some.inj hrun ▸ hp
  | cons ev evs ih =>
    obtain ⟨p1, h1, hrun1⟩ := Transition.run_cons_eq_some.mp hrun
    have hok' := fun e payload hm => hok e payload (List.mem_cons_of_mem ev hm)
    cases ev with
    | append e payload =>
      have hs := hok e payload List.mem_cons_self
      obtain ⟨t, data, hpl, ht, -⟩ := hs.type
      have hp1 := hp.packetSend h1 hs.extra ⟨t, data, hpl, ht⟩ hs.fits (by simp)
      have := ih hp1 hok' hrun1
      simpa [appended] using this
    | poll g inp =>
      obtain ⟨r, hr, rfl⟩ := Option.map_eq_some_iff.mp h1
      exact ih ((hp.packetWritePoll inp g).of_seen hr) hok' hrun1

/-! ## What the peer sees -/

/-- Not an `SSH2_MSG_IGNORE` packet. -/
def notIgnore (payload : List UInt8) : Bool := payload.head? != some msgIgnore

/-- Dropping the ignored packets drops the padding. -/
theorem filter_notIgnore_sent {l : List (Sent UInt8)}
    (h : ∀ s ∈ l, s.padding = true → ∃ random, s.payload = ignorePayload random) :
    (l.map Sent.payload).filter notIgnore =
      ((l.filter fun s => !s.padding).map Sent.payload).filter notIgnore := by
  induction l with
  | nil => rfl
  | cons s l ih =>
    have htail := ih fun x hx => h x (List.mem_cons_of_mem s hx)
    rw [List.map_cons, List.filter_cons, htail, List.filter_cons]
    cases hpad : s.padding with
    | false => simp [List.filter_cons]
    | true =>
      obtain ⟨random, hr⟩ := h s List.mem_cons_self hpad
      have hdrop : notIgnore s.payload = false := by rw [hr]; rfl
      simp [hdrop]

/-- Every packet takes bytes, so the empty stream carries no packet. -/
theorem PacketStream.eq_nil {a z : Link κ} {ps : List (List UInt8)} (h : PacketStream K a ps [] z) :
    ps = [] := by
  generalize hbs : ([] : List UInt8) = bs at h
  cases h with
  | nil => rfl
  | cons hok _ _ =>
    have hlen := K.cipher.length_enc _ hok.aligned a.ctx
    rw [(List.append_eq_nil_iff.mp hbs.symm).1, length_frame, List.length_nil] at hlen
    omega

/-- A receiver that starts where the sender started gets a part of the packets from every
cut of a part of the stream, and all of them from every cut of the whole stream. -/
theorem receive_of_packetStream {s : SendState κ} {ctx : κ} {z : Link κ} {ps : List (List UInt8)}
    {bs rest : List UInt8} {fuel : ℕ} (hsync : K.cipher.Synced s.ctx ctx)
    (hstream : PacketStream K s.link ps bs z) (cuts : List (List UInt8))
    (hcuts : cuts.flatten ++ rest = bs) (hfuel : ps.length < fuel) :
    ∃ got r, (packetDecoder K).receive fuel
        { ctx := ctx, seqnr := s.seqnr, packets := s.packets } cuts = some (got, r) ∧
      got <+: ps ∧ (rest = [] → got = ps) := by
  subst hcuts
  by_cases hne : cuts = []
  · subst hne
    refine ⟨[], _, rfl, List.nil_prefix, ?_⟩
    rintro rfl
    exact hstream.eq_nil.symm
  · have howes : RecvOwes K z { ctx := ctx, seqnr := s.seqnr, packets := s.packets } ps
        (cuts.flatten ++ rest) := .between rfl rfl hsync hstream
    obtain ⟨got, ms', r, rfl, hrec, -, hdone⟩ :=
      (owes_packetDecoder K z).receive cuts howes hne hfuel
    refine ⟨got, r, hrec, List.prefix_append got ms', fun hrest => ?_⟩
    rw [hdone hrest, List.append_nil]

/-- **Padding is transparent end to end.**  For every sequence of appended packets and
calls of `packet_write_poll` in any mode, with any budget, socket state and results:

* `roaming_write` is never handed more bytes than the buffer holds;
* the bytes accepted and the bytes still buffered are the concatenation, in order, of all
  packets appended, which are the real ones and padding;
* whatever way the peer's reads cut a beginning of that stream, the peer gets a beginning
  of that sequence of packets, and all of it from the whole stream; without the ignored
  packets it is the sequence of real packets. -/
theorem padding_transparent (K : Keys κ) (s : SendState κ) (tau : ℤ) (time : ℕ)
    (evs : List WriteEvent) (p : PacketState (SendState κ) UInt8)
    (hok : ∀ e payload, WriteEvent.append e payload ∈ evs → Sendable K e payload)
    (hrun : Transition.run (writeStep (packetCodec K))
      { snd := s, packetTau := tau, packetTimeToWrite := time } evs = some p) :
    (∀ w ∈ p.calls, w.handed ≤ w.buffered) ∧
    p.wire ++ p.output = (p.sent.map Sent.bytes).flatten ∧
    (p.sent.filter fun q => !q.padding).map Sent.payload = appended evs ∧
    (∀ q ∈ p.sent, q.padding = true → ∃ random, q.payload = ignorePayload random) ∧
    ∀ (ctx : κ) (cuts : List (List UInt8)) (rest : List UInt8) (fuel : ℕ),
      K.cipher.Synced s.ctx ctx → cuts.flatten ++ rest = p.wire ++ p.output →
      p.sent.length < fuel →
      ∃ got r, (packetDecoder K).receive fuel
          { ctx := ctx, seqnr := s.seqnr, packets := s.packets } cuts = some (got, r) ∧
        got <+: p.sent.map Sent.payload ∧
        (rest = [] → got = p.sent.map Sent.payload ∧
          got.filter notIgnore = (appended evs).filter notIgnore) := by
  have hstart : Faithful K s.link []
      ({ snd := s, packetTau := tau, packetTimeToWrite := time } :
        PacketState (SendState κ) UInt8) :=
    ⟨by simp, rfl, PacketStream.nil _, rfl, by simp⟩
  have hp := hstart.run hok hrun
  rw [List.nil_append] at hp
  refine ⟨hp.calls_le, hp.bytes_eq, hp.reals_eq, hp.padding_eq, ?_⟩
  intro ctx cuts rest fuel hsync hcuts hfuel
  obtain ⟨got, r, hrec, hprefix, hall⟩ := receive_of_packetStream hsync hp.stream cuts hcuts
    (by rwa [List.length_map])
  refine ⟨got, r, hrec, hprefix, fun hrest => ⟨hall hrest, ?_⟩⟩
  rw [hall hrest, filter_notIgnore_sent hp.padding_eq, hp.reals_eq]

/-- Two packets, a poll that pads to 128 bytes of which the kernel takes 50, and a poll
that flushes the rest. -/
def sampleEvents : List WriteEvent :=
  [.append 0 [90, 1, 2, 3], .append 64 [94, 7],
    .poll {} ⟨0, 0, [⟨0, .accepted 50⟩]⟩, .append 0 [98], .poll {} ⟨90000, 5, [⟨0, .again⟩]⟩]

theorem sendable_sampleEvents (e : ℕ) (payload : List UInt8)
    (h : WriteEvent.append e payload ∈ sampleEvents) :
    Sendable (identityKeys 8 0 (Or.inl rfl)) e payload := by
  simp only [sampleEvents, List.mem_cons, WriteEvent.append.injEq, reduceCtorEq, false_or,
    List.not_mem_nil, or_false] at h
  rcases h with ⟨rfl, rfl⟩ | ⟨rfl, rfl⟩ | ⟨rfl, rfl⟩ <;>
    exact ⟨⟨_, _, rfl, by decide, by decide⟩, by decide, by decide⟩

/-- The peer of the sample run gets the three packets, cut at the first write. -/
theorem padding_transparent_sample :
    ∃ p, Transition.run (writeStep (packetCodec (identityKeys 8 0 (Or.inl rfl))))
        { snd := ⟨(), 0, 0, fun _ => 170⟩, packetTau := 8192, packetTimeToWrite := 0 }
        sampleEvents = some p ∧
      ∃ got r, (packetDecoder (identityKeys 8 0 (Or.inl rfl))).receive (p.sent.length + 1)
          { ctx := (), seqnr := 0, packets := 0 } [p.wire, p.output] = some (got, r) ∧
        got.filter notIgnore = [[90, 1, 2, 3], [94, 7], [98]] := by
  obtain ⟨p, hp⟩ := Option.isSome_iff_exists.mp
    (show (Transition.run (writeStep (packetCodec (identityKeys 8 0 (Or.inl rfl))))
      { snd := ⟨(), 0, 0, fun _ => 170⟩, packetTau := 8192, packetTimeToWrite := 0 }
      sampleEvents).isSome from by decide +kernel)
  have h := padding_transparent (identityKeys 8 0 (Or.inl rfl)) _ 8192 0 sampleEvents p
    sendable_sampleEvents hp
  obtain ⟨got, r, hrec, -, hall⟩ := h.2.2.2.2 () [p.wire, p.output] [] (p.sent.length + 1)
    trivial (by simp) (Nat.lt_succ_self _)
  exact ⟨p, hp, got, r, hrec, (hall rfl).2⟩

end CSBuFLO
