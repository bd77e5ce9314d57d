/-
# Where a notification stands in the stream

A notification is handled once its whole packet has been written, read and decrypted.  For the
order in which packets arrive it is enough to know which ones are under way (`Carries`); for the
question whether a notification must have arrived, its place in the byte stream counts.

`Pending K m inbox p mark` says that `m` is under way and that the packets up to it end at byte
`mark` of the sender's stream.  The mark does not move while the sender queues and writes and the
receiver reads.  A receiver that has read up to the mark and finds no packet has handled `m`
(`Pending.not_settled`).
-/
import CSBuFLO.Pages

namespace CSBuFLO

variable {κ : Type}

/-! ## A receiver with more input -/

/-- A receiver with more input. -/
def RecvState.more (r : RecvState κ) (extra : List UInt8) : RecvState κ :=
  { r with input := r.input ++ extra }

variable {payload : List UInt8}

/-- A packet that can be finished is finished in the same way with more input. -/
theorem finishPacket_more {K : Keys κ} {r r' : RecvState κ}
    (h : finishPacket K r = some (some payload, r')) (extra : List UInt8) :
    r'.discard = r.discard ∧
      finishPacket K (r.more extra) = some (some payload, r'.more extra) := by
  unfold finishPacket at h ⊢
  obtain ⟨packets, hpackets, h⟩ := Option.bind_eq_some_iff.mp h
  have hpackets' : nextPackets K.noRekey (r.more extra).packets = some packets := hpackets
  rw [hpackets', Option.bind_some]
  have hincoming : (r.more extra).incoming = r.incoming := rfl
  rw [hincoming]
  dsimp only at h ⊢
  split at h
  · cases h
  · rename_i hfour
    split at h
    · cases h
    · rename_i hlong
      rw [if_neg hfour, if_neg hlong]
      split at h
      · cases h
      · split at h
        · rename_i htype
          cases h
          exact ⟨rfl, if_pos htype⟩
        · cases h

theorem readRest_more {K : Keys κ} {r r' : RecvState κ} (h : readRest K r = some (some payload, r'))
    (extra : List UInt8) :
    r'.discard = r.discard ∧ readRest K (r.more extra) = some (some payload, r'.more extra) := by
  have hdiscard : ∀ {n : ℕ} {r1 : RecvState κ},
      (packetStartDiscard K n r1).map (fun r' => ((none : Option (List UInt8)), r')) ≠
        some (some payload, r') := by
    intro n r1 hd
    obtain ⟨r2, -, hr2⟩ := Option.map_eq_some_iff.mp hd
    cases hr2
  unfold readRest at h ⊢
  dsimp only at h ⊢
  have hpacklen : (r.more extra).packlen = r.packlen := rfl
  rw [hpacklen]
  generalize needBytes K.cipher.blockSize r.packlen = need at h ⊢
  split at h
  · exact absurd h hdiscard
  · rename_i haligned
    rw [if_neg haligned]
    split at h
    · cases h
    · rename_i hshort
      have htake : (r.more extra).input.take need = r.input.take need :=
        List.take_append_of_le_length (by omega)
      have hdrop : (r.more extra).input.drop need = r.input.drop need ++ extra :=
        List.drop_append_of_le_length (by omega)
      have hrest : K.macLen ≤ (r.input.drop need).length := by
        rw [List.length_drop]
        omega
      rw [if_neg (by simp only [RecvState.more, List.length_append]; omega), htake, hdrop,
        List.take_append_of_le_length hrest, List.drop_append_of_le_length hrest]
      split at h
      · split_ifs at h
        exact absurd h hdiscard
      · rename_i hmac
        obtain ⟨hsame, hfinish⟩ := finishPacket_more h extra
        exact ⟨hsame, (if_neg hmac).trans hfinish⟩

/-- **More input does not change the packet that is read next.** -/
theorem packetReadPoll2_more {K : Keys κ} {r r' : RecvState κ}
    (h : packetReadPoll2 K r = some (some payload, r')) (extra : List UInt8) :
    r.discard = 0 ∧ r'.discard = 0 ∧
      packetReadPoll2 K (r.more extra) = some (some payload, r'.more extra) := by
  unfold packetReadPoll2 at h ⊢
  dsimp only at h ⊢
  have hpacklen : (r.more extra).packlen = r.packlen := rfl
  rw [hpacklen]
  split at h
  · cases h
  · rename_i hdiscard
    have hzero : r.discard = 0 := not_not.mp hdiscard
    rw [if_neg (show ¬(r.more extra).discard ≠ 0 from hdiscard)]
    split at h
    · -- the first block is there, and it is the same
      rename_i hbetween
      rw [if_pos hbetween]
      split at h
      · cases h
      · rename_i hshort
        have htake : (r.more extra).input.take K.cipher.blockSize =
            r.input.take K.cipher.blockSize := List.take_append_of_le_length (by omega)
        have hdrop : (r.more extra).input.drop K.cipher.blockSize =
            r.input.drop K.cipher.blockSize ++ extra := List.drop_append_of_le_length (by omega)
        rw [if_neg (by simp only [RecvState.more, List.length_append]; omega), htake, hdrop]
        split at h
        · obtain ⟨r2, -, hr2⟩ := Option.map_eq_some_iff.mp h
          cases hr2
        · rename_i hfits
          obtain ⟨hsame, hread⟩ := readRest_more h extra
          exact ⟨hzero, hsame.trans hzero, (if_neg hfits).trans hread⟩
    · -- the length is known from an earlier call
      rename_i hhalfway
      obtain ⟨hsame, hread⟩ := readRest_more h extra
      rw [if_neg hhalfway]
      exact ⟨hzero, hsame.trans hzero, hread⟩

theorem steady_packetDecoder (K : Keys κ) : (packetDecoder K).Steady where
  feed_append := by
    intro r r1 a b h
    have h : packetProcessIncoming r a = some r1 := h
    show packetProcessIncoming r (a ++ b) = packetProcessIncoming r1 b
    unfold packetProcessIncoming at h ⊢
    by_cases hdiscard : r.discard = 0
    · -- bytes are appended to the input
      rw [if_neg (not_not.mpr hdiscard)] at h ⊢
      obtain rfl := Option.some.inj h
      dsimp only
      rw [if_neg (not_not.mpr hdiscard), List.append_assoc]
    · -- bytes of a damaged packet are only counted
      rw [if_pos hdiscard] at h ⊢
      split at h
      · cases h
      · rename_i hleft
        obtain rfl := Option.some.inj h
        have hleft' : r.discard - a.length ≠ 0 := by omega
        dsimp only
        rw [if_pos hleft', List.length_append]
        by_cases hend : r.discard ≤ a.length + b.length
        · rw [if_pos hend, if_pos (by omega)]
        · rw [if_neg hend, if_neg (by omega), Nat.sub_sub]
  poll_feed := by
    intro r r' r1 payload extra hpoll hfeed
    obtain ⟨hr, hr', hmore⟩ := packetReadPoll2_more hpoll extra
    have hfeed1 : ∀ {x : RecvState κ}, x.discard = 0 →
        (packetDecoder K).feed x extra = some (x.more extra) :=
      fun hx => if_neg (not_not.mpr hx)
    obtain rfl := Option.some.inj ((hfeed1 hr).symm.trans hfeed)
    exact ⟨r'.more extra, hmore, hfeed1 hr'⟩

/-! ## A notification under way -/

/-- The notification `m` is under way: it is in one of the packets that end at byte `mark` of the
sender's stream. -/
structure Pending (K : Keys κ) (m : Msg) (inbox : Inbox κ) (p : PacketState (SendState κ) UInt8)
    (mark : ℕ) : Prop where
  read_le : inbox.read ≤ p.wire.length
  due : ∃ z ps late, (packetDecoder K).Due (RecvOwes K z) ps late inbox.recv
      (p.wire.drop inbox.read ++ p.output) ∧
    m ∈ ps.filterMap Msg.ofPayload ∧ mark + late.length = p.wire.length + p.output.length

/-- What is under way is pending, with the end of the stream as its mark. -/
theorem Carries.pending {K : Keys κ} {m : Msg} {inbox : Inbox κ}
    {p : PacketState (SendState κ) UInt8} (h : Carries K inbox p)
    (hm : m ∈ p.queued.drop inbox.seen) :
    Pending K m inbox p (p.wire.length + p.outputLen) := by
  obtain ⟨ps, howes, -, hnotes⟩ := h.owes
  refine ⟨h.read_le, p.snd.link, ps, [], ?_, hnotes ▸ hm, rfl⟩
  rw [← List.append_nil (p.wire.drop inbox.read ++ p.output)]
  exact .coming howes

namespace Pending

variable {K : Keys κ} {m : Msg} {inbox : Inbox κ} {p p' : PacketState (SendState κ) UInt8}
  {mark : ℕ}

theorem mark_le (h : Pending K m inbox p mark) : mark ≤ p.wire.length + p.outputLen := by
  obtain ⟨-, -, late, -, -, hmark⟩ := h.due
  unfold PacketState.outputLen
  omega

/-- A packet that is queued comes behind. -/
theorem packetSend {b : Bool} {x : ℕ} (h : Pending K m inbox p mark)
    (hsend : packetSend (packetCodec K) b x payload p = some p') : Pending K m inbox p' mark := by
  obtain ⟨bs, s, -, rfl⟩ := packetSend_eq_some hsend
  obtain ⟨hread, z, ps, late, hdue, hm, hmark⟩ := h
  refine ⟨hread, z, ps, late ++ bs, ?_, hm, ?_⟩
  · have := hdue.append bs
    rwa [List.append_assoc] at this
  · simp only [List.length_append]
    omega

/-- Random draws do not matter. -/
theorem draw (h : Pending K m inbox p mark) (n : ℕ) :
    Pending K m inbox { p with snd := ((packetCodec K).arc4random p.snd n).2 } mark :=
  ⟨h.read_le, h.due⟩

/-- Reading a piece of what was written. -/
theorem netInput {n : ℕ} {recv : RecvState κ} (h : Pending K m inbox p mark)
    (hn : n ≤ (p.wire.drop inbox.read).length)
    (hrecv : packetProcessIncoming inbox.recv ((p.wire.drop inbox.read).take n) = some recv) :
    Pending K m { inbox with recv := recv, read := inbox.read + n } p mark := by
  obtain ⟨hread, z, ps, late, hdue, hm, hmark⟩ := h
  have hcut : p.wire.drop inbox.read ++ p.output =
      (p.wire.drop inbox.read).take n ++ (p.wire.drop (inbox.read + n) ++ p.output) := by
    rw [← List.append_assoc, ← List.drop_drop, List.take_append_drop]
  rw [hcut] at hdue
  rw [List.length_drop] at hn
  exact ⟨by dsimp only; omega, z, ps, late,
    hdue.feed (steady_packetDecoder K) (owes_packetDecoder K z) hrecv, hm, hmark⟩

/-- Looking for a packet finds the notification, or leaves it under way. -/
theorem poll {found : Option (List UInt8)} {recv : RecvState κ} (h : Pending K m inbox p mark)
    (hpoll : packetReadPoll2 K inbox.recv = some (found, recv)) (seen : ℕ) :
    found.bind Msg.ofPayload = some m ∨
      Pending K m { inbox with recv := recv, seen := seen } p mark := by
  obtain ⟨hread, z, ps, late, hdue, hm, hmark⟩ := h
  have hne : ps ≠ [] := by
    rintro rfl
    cases hm
  rcases hdue.poll (steady_packetDecoder K) (owes_packetDecoder K z) hpoll hne with
    ⟨rfl, hdue'⟩ | ⟨payload, ps', rfl, rfl, hdue'⟩
  · exact Or.inr ⟨hread, z, ps, late, hdue', hm, hmark⟩
  · rw [List.filterMap_cons] at hm
    cases hmsg : Msg.ofPayload payload with
    | none =>
      rw [hmsg] at hm
      exact Or.inr ⟨hread, z, ps', late, hdue', hm, hmark⟩
    | some m' =>
      rw [hmsg] at hm
      rcases List.mem_cons.mp hm with rfl | hm
      · exact Or.inl hmsg
      · exact Or.inr ⟨hread, z, ps', late, hdue', hm, hmark⟩

/-- **A receiver that has read all that is written and finds no packet has handled every
notification up to what is written.** -/
theorem not_settled {recv : RecvState κ} (h : Pending K m inbox p mark)
    (hread : inbox.read = p.wire.length)
    (hpoll : packetReadPoll2 K inbox.recv = some (none, recv)) :
    p.wire.length < mark ∧ p.output ≠ [] := by
  obtain ⟨-, z, ps, late, hdue, hm, hmark⟩ := h
  rw [hread, List.drop_length, List.nil_append] at hdue
  have hlate : ¬p.output.length ≤ late.length := by
    intro hle
    have hnil := hdue.eq_nil (steady_packetDecoder K) (owes_packetDecoder K z) hpoll hle
    rw [hnil] at hm
    cases hm
  refine ⟨by omega, fun hnil => hlate ?_⟩
  rw [hnil]
  exact Nat.zero_le _

end Pending

/-- Nothing the sending side does moves the mark. -/
theorem sendInv_pending (K : Keys κ) (m : Msg) (inbox : Inbox κ) (mark : ℕ) :
    SendInv (packetCodec K) (fun _ _ => True) (Pending K m inbox · mark) where
  notify _ hp h := (hp.draw 4).packetSend h
  url {url _ _} _ hp h := (hp.draw (urlFill url)).packetSend h
  data _ _ hp h := hp.packetSend h
  pad n _ _ _ hp h := (hp.draw n).packetSend h
  write n acc p hp hn hacc := by
    obtain ⟨hread, z, ps, late, hdue, hm, hmark⟩ := hp
    have hstream : (p.wire ++ p.output.take acc).drop inbox.read ++ p.output.drop acc =
        p.wire.drop inbox.read ++ p.output := by
      rw [List.drop_append_of_le_length hread, List.append_assoc, List.take_append_drop]
    refine ⟨?_, z, ps, late, ?_, hm, ?_⟩
    · exact hread.trans (by simp [PacketState.consume, PacketState.handOver])
    · rw [← hstream] at hdue
      exact hdue
    · rw [hmark]
      simp only [PacketState.consume, PacketState.handOver, List.length_append, List.length_take,
        List.length_drop]
      omega
  time _ _ hp := ⟨hp.read_le, hp.due⟩
  tau _ _ hp := ⟨hp.read_le, hp.due⟩

end CSBuFLO
