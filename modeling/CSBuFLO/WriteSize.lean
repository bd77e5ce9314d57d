/-
# The padding step and the size of a csbuflo write

A write that aims at more bytes than are buffered appends one padding packet, which reaches the
aim and exceeds it by less than a block and a MAC (`padding_step`).

In csbuflo mode a write aims at `TARGET_QUEUE_LEN` bytes.  When the buffer holds fewer,
a padding packet is added, and this mode alone hands its overshoot over as well.  So the
size of a write is `TARGET_QUEUE_LEN` exactly when that much was buffered, and otherwise
depends on how the missing bytes fall into cipher blocks.
-/
import CSBuFLO.PacketRead

namespace CSBuFLO

variable {σ β : Type}

/-! ## The padding step -/

/-- One padding packet is at least as long as the missing bytes, and not much longer. -/
theorem ignoreLength_bounds {b : ℕ} (hb : b = 8 ∨ b = 16) (m : ℕ) {diff : ℕ} (hdiff : 0 < diff) :
    diff ≤ ignoreLength b m diff ∧ ignoreLength b m diff ≤ diff + max (b + 3) 15 + m := by
  rcases Nat.lt_or_ge 16 diff with h | h
  · have hpad := padLength_bounds hb diff
    rw [ignoreLength_of_gt b m h]
    omega
  · rw [ignoreLength_of_le hb m h]
    omega

/-- The padding packet as the encoder makes it: a frame of whole blocks with 4 to `b + 3` bytes of
padding, encrypted and followed by its MAC. -/
theorem packetSendIgnore_frame {κ : Type} {K : Keys κ} {n : ℕ}
    {p p1 : PacketState (SendState κ) UInt8} (h : packetSendIgnore (packetCodec K) n p = some p1) :
    ∃ random padding, random.length = n ∧
      p1.output = p.output ++ ((K.cipher.enc p.snd.ctx (frame (ignorePayload random) padding)).1 ++
        K.mac p.snd.seqnr (frame (ignorePayload random) padding)) ∧
      p1.sent = p.sent ++ [⟨true, ignorePayload random,
        (K.cipher.enc p.snd.ctx (frame (ignorePayload random) padding)).1 ++
          K.mac p.snd.seqnr (frame (ignorePayload random) padding)⟩] ∧
      4 ≤ padding.length ∧ padding.length ≤ K.cipher.blockSize + 3 ∧
      K.cipher.blockSize ∣ (frame (ignorePayload random) padding).length := by
  obtain ⟨bs, s, hs, rfl⟩ := packetSend_eq_some h
  obtain ⟨padding, hlen, rfl, -⟩ := packetSend2Wrapped_eq_some hs
  have hbounds := padLength_bounds K.blockSize_eq
    (5 + (ignorePayload ((packetCodec K).arc4random p.snd n).1).length)
  refine ⟨_, padding, (packetCodec K).length_arc4random p.snd n, rfl, rfl, ?_, ?_, ?_⟩
  · rw [hlen]
    exact hbounds.1
  · rw [hlen]
    exact hbounds.2
  · rw [length_frame, hlen]
    exact padLength_dvd K.blockSize_eq _

/-- Sending a padding packet fails only when the packet counter of the keys wraps. -/
theorem packetSendIgnore_eq_none_iff {κ : Type} (K : Keys κ) (n : ℕ)
    (p : PacketState (SendState κ) UInt8) :
    packetSendIgnore (packetCodec K) n p = none ↔ nextPackets K.noRekey p.snd.packets = none := by
  unfold packetSendIgnore packetSend packetCodec packetSend2Wrapped
  dsimp only
  cases nextPackets K.noRekey p.snd.packets with
  | none => exact ⟨fun _ => rfl, fun _ => rfl⟩
  | some m => exact ⟨fun h => (nomatch h), fun h => (nomatch h)⟩

/-- The junk counter after a write that padded. -/
theorem paddedJunk_packetWritePollOneWrite {c : Codec σ β} {g g' : Globals} {ori ori' : ℤ}
    {k : Kernel} {p p1 p' : PacketState σ β} {aw : ℕ} (hlen : p.outputLen < aw)
    (haw : actualWrite g ori k.outq p.outputLen = aw) (hp1 : padOutput c aw p = some p1)
    (h : packetWritePollOneWrite c g ori k p = some (ori', g', p')) :
    g'.paddedJunk = g.paddedJunk + ((p1.outputLen : ℤ) - p.outputLen) := by
  obtain ⟨hle, -⟩ | ⟨aw', p2, acc, haw', -, hp2, -, -, rfl, -⟩ := packetWritePollOneWrite_cases h
  · omega
  · obtain rfl : aw' = aw := by omega
    obtain rfl := Option.some.inj (hp1.symm.trans hp2)
    exact (paddedJunk_afterWrite _ _ _).trans (paddedJunk_padJunk g (by omega))

/-- **Padding reaches its target with one packet and bounded overshoot.**  A write that aims at
more than is buffered appends exactly one `SSH2_MSG_IGNORE` packet: the loop after it is not
entered, and only the wrapping packet counter of the keys stops it.  The buffer then holds at
least the aim and at most `max (b + 3) 15` bytes and a MAC more, and the junk counter has grown
by the bytes appended. -/
theorem padding_step {κ : Type} (K : Keys κ) {aw : ℕ} {p : PacketState (SendState κ) UInt8}
    (hlen : p.outputLen < aw) :
    padOutput (packetCodec K) aw p =
        packetSendIgnore (packetCodec K) (ignoreBytes (aw - p.outputLen)) p ∧
      (padOutput (packetCodec K) aw p = none ↔ nextPackets K.noRekey p.snd.packets = none) ∧
      ∀ p1, padOutput (packetCodec K) aw p = some p1 →
        aw ≤ p1.outputLen ∧
        p1.outputLen ≤ aw + max (K.cipher.blockSize + 3) 15 + K.macLen ∧
        (∃ random padding : List UInt8, ∃ bs,
          p1.output = p.output ++ bs ∧ p1.sent = p.sent ++ [⟨true, ignorePayload random, bs⟩] ∧
          bs = (K.cipher.enc p.snd.ctx (frame (ignorePayload random) padding)).1 ++
            K.mac p.snd.seqnr (frame (ignorePayload random) padding) ∧
          4 ≤ padding.length ∧ padding.length ≤ K.cipher.blockSize + 3 ∧
          K.cipher.blockSize ∣ (frame (ignorePayload random) padding).length) ∧
        ∀ (g g' : Globals) (ori ori' : ℤ) (k : Kernel) (p' : PacketState (SendState κ) UInt8),
          actualWrite g ori k.outq p.outputLen = aw →
          packetWritePollOneWrite (packetCodec K) g ori k p = some (ori', g', p') →
            g'.paddedJunk = g.paddedJunk + ((p1.outputLen : ℤ) - p.outputLen) := by
  have hpad : padOutput (packetCodec K) aw p =
      packetSendIgnore (packetCodec K) (ignoreBytes (aw - p.outputLen)) p := by
    rw [padOutput_eq, if_neg (by omega)]
  refine ⟨hpad, ?_, fun p1 h => ?_⟩
  · rw [hpad]
    exact packetSendIgnore_eq_none_iff K _ p
  have houtput : p1.outputLen =
      p.outputLen + ignoreLength K.cipher.blockSize K.macLen (aw - p.outputLen) := by
    have hlength := outputLen_padOutput h
    unfold paddedLength at hlength
    rw [if_neg (by omega)] at hlength
    exact hlength
  have hbounds := ignoreLength_bounds K.blockSize_eq K.macLen (show 0 < aw - p.outputLen by omega)
  obtain ⟨random, padding, -, hout, hsent, hlo, hhi, hdvd⟩ := packetSendIgnore_frame (hpad ▸ h)
  exact ⟨by omega, by omega, ⟨random, padding, _, hout, hsent, rfl, hlo, hhi, hdvd⟩,
    fun g g' ori ori' k p' haw hwrite => paddedJunk_packetWritePollOneWrite hlen haw h hwrite⟩

/-- An empty buffer padded to 17 bytes under a 16-byte cipher and a 20-byte MAC. -/
theorem padding_step_seventeen :
    ∃ p1, padOutput (packetCodec (identityKeys 16 20 (Or.inr rfl))) 17 (bufferedState 0) = some p1 ∧
      17 ≤ p1.outputLen ∧ p1.outputLen ≤ 17 + 19 + 20 := by
  obtain ⟨p1, hp1⟩ := Option.isSome_iff_exists.mp (show (padOutput (packetCodec
    (identityKeys 16 20 (Or.inr rfl))) 17 (bufferedState 0)).isSome from by decide +kernel)
  obtain ⟨hlo, hhi, -⟩ := (padding_step (identityKeys 16 20 (Or.inr rfl)) (by decide)).2.2 p1 hp1
  exact ⟨p1, hp1, hlo, hhi⟩

/-! ## What one write hands over -/

/-- A write that aims at `aw` bytes makes one call of `roaming_write`. -/
theorem calls_packetWritePollOneWrite {c : Codec σ β} {g g' : Globals} {ori ori' : ℤ}
    {k : Kernel} {p p' : PacketState σ β} {aw : ℕ}
    (h : packetWritePollOneWrite c g ori k p = some (ori', g', p'))
    (haw : actualWrite g ori k.outq p.outputLen = aw) (hpos : 0 < aw) :
    p'.calls = p.calls ++
      [⟨handedLength g aw p.outputLen (paddedLength c.blockSize c.macLen aw p.outputLen),
        paddedLength c.blockSize c.macLen aw p.outputLen⟩] := by
  obtain ⟨hle, -⟩ | ⟨aw', p1, acc, haw', -, hp1, -, -, -, rfl⟩ := packetWritePollOneWrite_cases h
  · omega
  · obtain rfl : aw' = aw := by omega
    have hlen := outputLen_padOutput hp1
    have hcalls : p1.calls = p.calls := by rw [padOutput_frame hp1]
    rw [← hlen, ← hcalls]
    rfl

/-! ## The csbuflo size -/

/-- The size of a csbuflo write with `len` bytes buffered. -/
def csbufloWriteSize (blockSize macLen len : ℕ) : ℕ :=
  if targetQueueLen ≤ len then targetQueueLen
  else len + ignoreLength blockSize macLen (targetQueueLen - len)

variable {len : ℕ}

/-- With at least the target buffered, the target is sent. -/
theorem csbufloWriteSize_of_le (b m : ℕ) (h : targetQueueLen ≤ len) :
    csbufloWriteSize b m len = targetQueueLen := if_pos h

/-- Between 1 and 16 missing bytes are made up by an empty padding packet. -/
theorem csbufloWriteSize_near {b : ℕ} (hb : b = 8 ∨ b = 16) (m : ℕ) (h : len < targetQueueLen)
    (h16 : targetQueueLen ≤ len + 16) : csbufloWriteSize b m len = len + 16 + m := by
  unfold csbufloWriteSize
  rw [if_neg (by omega), ignoreLength_of_le hb m (by omega), Nat.add_assoc]

/-- More missing bytes are made up by a packet of that length, whose own padding and MAC
come on top of the target. -/
theorem csbufloWriteSize_far (b m : ℕ) (h : len + 16 < targetQueueLen) :
    csbufloWriteSize b m len = targetQueueLen + padLength b 0 (targetQueueLen - len) + m := by
  unfold csbufloWriteSize
  rw [if_neg (by omega), ignoreLength_of_gt b m (by omega)]
  omega

/-- A write with less than the target buffered exceeds the target by the MAC and at most
`max (b + 3) 15` further bytes. -/
theorem csbufloWriteSize_bounds {b : ℕ} (hb : b = 8 ∨ b = 16) (m : ℕ) (h : len < targetQueueLen) :
    targetQueueLen + m ≤ csbufloWriteSize b m len ∧
      csbufloWriteSize b m len ≤ targetQueueLen + max (b + 3) 15 + m := by
  rcases Nat.lt_or_ge (len + 16) targetQueueLen with hfar | hnear
  · have hpad := padLength_bounds hb (targetQueueLen - len)
    rw [csbufloWriteSize_far b m hfar]
    omega
  · rw [csbufloWriteSize_near hb m h hnear]
    omega

/-- Padding depends on the length modulo the block size only. -/
theorem padLength_congr {b len' : ℕ} (h : len % b = len' % b) :
    padLength b 0 len = padLength b 0 len' := by
  simp only [padLength, if_true, h]

/-- Two buffers well below the target that agree modulo the block size are written with
the same size. -/
theorem csbufloWriteSize_congr {b : ℕ} (m : ℕ) {len' : ℕ} (h : len + 16 < targetQueueLen)
    (h' : len' + 16 < targetQueueLen) (hmod : len % b = len' % b) :
    csbufloWriteSize b m len = csbufloWriteSize b m len' := by
  have hsub : (targetQueueLen - len) % b = (targetQueueLen - len') % b :=
    (Nat.ModEq.add_right_cancel (n := b) (show len ≡ len' [MOD b] from hmod)
      (show targetQueueLen - len + len ≡ targetQueueLen - len' + len' [MOD b] by
        rw [Nat.sub_add_cancel (by omega), Nat.sub_add_cancel (by omega)]))
  rw [csbufloWriteSize_far b m h, csbufloWriteSize_far b m h', padLength_congr hsub]

/-- With a full budget and room in the send queue, csbuflo mode aims at the target. -/
theorem actualWrite_csbuflo {g : Globals} {outq : ℕ} (hmode : g.stmode = .csbuflo)
    (hroom : outq + targetQueueLen ≤ 16384) (len : ℕ) :
    actualWrite g targetQueueLen outq len = (targetQueueLen : ℕ) := by
  have hflush : flushing g = false := by simp [flushing, hmode]
  have hint : toInt ((targetQueueLen : ℕ) : ℤ) = 548 := toInt_of_lt (by decide) (by decide)
  unfold targetQueueLen at hroom
  have ha2w : ¬ (16384 - (outq : ℤ) < 548) := by omega
  unfold actualWrite
  simp only [hflush, hint, Bool.false_eq_true, if_false, if_pos (show outq < 16384 by omega),
    if_neg ha2w]
  rfl

/-- The length a csbuflo write hands over is `csbufloWriteSize`. -/
theorem handed_csbuflo {c : Codec σ β} {g g' : Globals} {ori' : ℤ} {k : Kernel}
    {p p' : PacketState σ β} (hmode : g.stmode = .csbuflo) (hw2w : g.w2w = targetQueueLen)
    (hroom : k.outq + targetQueueLen ≤ 16384)
    (h : packetWritePollOneWrite c g g.w2w k p = some (ori', g', p')) :
    ∃ buffered, p'.calls =
      p.calls ++ [⟨csbufloWriteSize c.blockSize c.macLen p.outputLen, buffered⟩] := by
  rw [hw2w] at h
  have hcalls := calls_packetWritePollOneWrite h (actualWrite_csbuflo hmode hroom p.outputLen)
    (by decide)
  have hsize : handedLength g targetQueueLen p.outputLen
      (paddedLength c.blockSize c.macLen targetQueueLen p.outputLen) =
      csbufloWriteSize c.blockSize c.macLen p.outputLen := by
    unfold handedLength paddedLength csbufloWriteSize
    split <;> simp [hmode]
  rw [hsize] at hcalls
  exact ⟨_, hcalls⟩

/-- **The size of a csbuflo write (two runs).**  Take two writes in csbuflo mode with the
same codec, a full budget and room in the send queue, whatever came before them, with
`p.outputLen` and `q.outputLen` bytes buffered.  Both sizes are `TARGET_QUEUE_LEN` when
that much was buffered, and otherwise exceed it by at least the MAC length and at most
`max (b + 3) 15` bytes more; so an observer learns from a size whether the target was
buffered, and two buffers more than 16 bytes short of the target are told apart only if
they differ modulo the block size. -/
theorem csbuflo_write_size (c : Codec σ β) {g g' h h' : Globals} {i j : ℤ} {k l : Kernel}
    {p p' q q' : PacketState σ β}
    (hgmode : g.stmode = .csbuflo) (hhmode : h.stmode = .csbuflo)
    (hgw : g.w2w = targetQueueLen) (hhw : h.w2w = targetQueueLen)
    (hk : k.outq + targetQueueLen ≤ 16384) (hl : l.outq + targetQueueLen ≤ 16384)
    (hp : packetWritePollOneWrite c g g.w2w k p = some (i, g', p'))
    (hq : packetWritePollOneWrite c h h.w2w l q = some (j, h', q')) :
    ∃ v w, p'.calls = p.calls ++ [v] ∧ q'.calls = q.calls ++ [w] ∧
      v.handed = csbufloWriteSize c.blockSize c.macLen p.outputLen ∧
      (targetQueueLen ≤ p.outputLen → v.handed = targetQueueLen) ∧
      (p.outputLen < targetQueueLen → targetQueueLen + c.macLen ≤ v.handed ∧
        v.handed ≤ targetQueueLen + max (c.blockSize + 3) 15 + c.macLen) ∧
      (targetQueueLen ≤ p.outputLen → targetQueueLen ≤ q.outputLen → v.handed = w.handed) ∧
      (p.outputLen + 16 < targetQueueLen → q.outputLen + 16 < targetQueueLen →
        p.outputLen % c.blockSize = q.outputLen % c.blockSize → v.handed = w.handed) := by
  obtain ⟨bp, hcp⟩ := handed_csbuflo hgmode hgw hk hp
  obtain ⟨bq, hcq⟩ := handed_csbuflo hhmode hhw hl hq
  refine ⟨_, _, hcp, hcq, rfl, ?_, ?_, ?_, ?_⟩
  · exact csbufloWriteSize_of_le _ _
  · exact csbufloWriteSize_bounds c.blockSize_eq c.macLen
  · intro h1 h2
    exact (csbufloWriteSize_of_le _ _ h1).trans (csbufloWriteSize_of_le _ _ h2).symm
  · exact csbufloWriteSize_congr c.macLen

/-- One csbuflo write with `n` bytes buffered, under a 16-byte cipher and a 20-byte MAC. -/
def csbufloWrite (n : ℕ) : Option (ℤ × Globals × PacketState (SendState Unit) UInt8) :=
  packetWritePollOneWrite (packetCodec (identityKeys 16 20 blockSize_sixteen))
    { stmode := .csbuflo, w2w := 548 } 548 ⟨0, .accepted 1000⟩ (bufferedState n)

/-- Empty and half-full buffers of the same residue are written alike. -/
theorem csbuflo_write_size_aligned :
    ∃ r t, csbufloWrite 0 = some r ∧ csbufloWrite 512 = some t ∧
      ∃ v w, r.2.2.calls = [v] ∧ t.2.2.calls = [w] ∧ v.handed = w.handed := by
  obtain ⟨r, hr⟩ := Option.isSome_iff_exists.mp
    (show (csbufloWrite 0).isSome from by decide +kernel)
  obtain ⟨t, ht⟩ := Option.isSome_iff_exists.mp
    (show (csbufloWrite 512).isSome from by decide +kernel)
  obtain ⟨v, w, hv, hw, -, -, -, -, heq⟩ :=
    csbuflo_write_size (packetCodec (identityKeys 16 20 (Or.inr rfl)))
      (g := { stmode := .csbuflo, w2w := 548 }) (h := { stmode := .csbuflo, w2w := 548 })
      rfl rfl rfl rfl (by decide) (by decide) hr ht
  exact ⟨r, t, hr, ht, v, w, hv, hw, heq (by decide) (by decide +kernel) (by decide +kernel)⟩

/-- With an empty buffer 580 bytes are handed over, with a full one 548. -/
theorem csbuflo_write_size_not_constant :
    (csbufloWrite 0).map (fun r => r.2.2.calls.map WriteCall.handed) = some [580] ∧
      (csbufloWrite 548).map (fun r => r.2.2.calls.map WriteCall.handed) = some [548] := by
  decide +kernel

end CSBuFLO
