/-
# Lost and resumed connections (`roaming_common.c`, `roaming_client.c`)

The end that wrote to a connection keeps the last bytes in the ring of `Roaming.lean`.  When the
connection is lost, so is everything that the peer has not read; `roaming_resume` makes another
one, over which the peer says how much it has read (`recv_bytes`), and `resend_bytes` writes the
rest of the stream before anything new is written.

The connection can be lost at any time, also while the bytes of a previous resume are still on
their way.  `resumed_stream` says what the peer reads over all of the connections together: the
stream as it was written, with no byte lost, none read twice and none that was not written.
-/
import CSBuFLO.Roaming

namespace CSBuFLO

/-! ## The connections -/

/-- One end with its ring, what is on its way to the peer, and what the peer has read so far, on
this connection and on those before it.  `up` says that a connection is there to write to. -/
structure RoamLink where
  roam : Roaming := {}
  log : RoamLog := {}
  up : Bool := true
  flight : List (Option UInt8) := []
  got : List (Option UInt8) := []

inductive LinkEvent where
  | write (accepted : List UInt8)
  | setOutBufferSize (size : ℕ)
  | peerRead (n : ℕ)
  | lost
  | resume
  deriving DecidableEq, Repr

/-- One event; `none` is `fatal`, or an event that cannot happen.  The packets of the resume
itself are not part of the stream: `resume_in_progress` keeps them from being counted. -/
def linkStep (s : RoamLink) : LinkEvent → Option RoamLink
  | .write accepted =>
    if s.up then
      some { s with
        roam := roamingWrite false accepted s.roam
        log := roamLog s.roam (.write false accepted) (roamingWrite false accepted s.roam) s.log
        flight := s.flight ++ accepted.map some }
    else none
  | .setOutBufferSize size => (setOutBufferSize size s.roam).map fun roam => { s with roam := roam }
  | .peerRead n => some { s with got := s.got ++ s.flight.take n, flight := s.flight.drop n }
  | .lost => some { s with up := false, flight := [] }
  | .resume =>
    if s.up then none
    else
      match resendBytes s.roam (UInt64.ofNat s.got.length) with
      | .fatal => none
      | .wrote cells => some { s with up := true, flight := cells }

/-- How much of the stream the peer has not read. -/
def RoamLink.unread (s : RoamLink) : ℕ := s.log.stream.length - s.got.length

/-! ## What the peer reads -/

/-- The peer has read the beginning of the stream; what is on its way is the rest, or the
connection is lost and nothing is. -/
structure LinkInv (s : RoamLink) : Prop where
  ring : RoamInv s.roam s.log
  read : s.got <+: s.log.stream.map some
  connected : s.up = true → s.got ++ s.flight = s.log.stream.map some
  lost : s.up = false → s.flight = []

theorem linkInv_init : LinkInv {} where
  ring := roamInv_init
  read := List.prefix_refl _
  connected := fun _ => rfl
  lost := fun h => nomatch h

variable {s : RoamLink}

/-- The difference of the two counters is what the peer has not read. -/
theorem needed_eq_unread (hring : RoamInv s.roam s.log) (hle : s.got.length ≤ s.log.stream.length)
    (hlt : s.unread < 2 ^ 64) : needed s.roam (UInt64.ofNat s.got.length) = s.unread := by
  unfold RoamLink.unread at hlt ⊢
  unfold needed
  rw [hring.bytes, UInt64.toNat_ofNat']
  omega

/-- What is resent is part of the stream, if the ring has something to resend. -/
theorem RoamInv.resends_of_resendable {s : Roaming} {l : RoamLog} (h : RoamInv s l)
    {offset : UInt64} (hok : Resendable s l (needed s offset)) :
    ResendsSent l (needed s offset) (resendBytes s offset) := by
  cases halloc : s.allocated with
  | false => exact h.resend_unallocated halloc
  | true =>
    obtain ⟨hpos, hmax⟩ := h.size halloc
    obtain ⟨hempty, hfull⟩ := hok halloc
    by_cases hnil : l.stored = []
    · exact (h.resend_empty hpos hnil).mpr (hempty hnil)
    · rcases Nat.lt_or_ge l.stored.length s.outBufSize with hlt | hge
      · exact h.resend_plain hnil hlt
      · exact (h.resend_full hpos hmax hge).mpr (hfull hge)

/-- The ring takes at least what it holds to be there. -/
theorem RoamInv.le_available {s : Roaming} {l : RoamLog} (h : RoamInv s l) :
    min l.stored.length s.outBufSize ≤ s.available := by
  unfold Roaming.available
  rcases Nat.lt_or_ge l.stored.length s.outBufSize with hlt | hge
  · obtain ⟨hstart, hlast⟩ := h.plain hlt
    rw [hstart, hlast]
    split <;> omega
  · rcases Nat.eq_zero_or_pos s.outBufSize with hzero | hpos
    · omega
    · rw [h.wrapped hpos hge, if_neg (by omega)]
      omega

/-- Something is sent if the ring takes it to be there. -/
theorem resendBytes_wrote {s : Roaming} {offset : UInt64} (h : needed s offset ≤ s.available) :
    ∃ cells, resendBytes s offset = .wrote cells := by
  unfold resendBytes
  dsimp only
  rw [if_neg (not_lt.mpr h)]
  split
  · exact ⟨_, rfl⟩
  · exact ⟨_, rfl⟩

/-- What a resume needs: the ring has something to resend, and the counters have not gone round
since. -/
def LinkGuard (s : RoamLink) (ev : LinkEvent) : Prop :=
  ev = .resume → Resendable s.roam s.log s.unread ∧ s.unread < 2 ^ 64

theorem LinkInv.length_le (h : LinkInv s) : s.got.length ≤ s.log.stream.length := by
  have hle := h.read.length_le
  rwa [List.length_map] at hle

/-- **Resuming** puts the rest of the stream on its way. -/
theorem LinkInv.resume {s' : RoamLink} (h : LinkInv s) (hguard : LinkGuard s .resume)
    (hs : linkStep s .resume = some s') : LinkInv s' := by
  obtain ⟨hok, hlt⟩ := hguard rfl
  have hneeded := needed_eq_unread h.ring h.length_le hlt
  rw [← hneeded] at hok
  have hsent := h.ring.resends_of_resendable hok
  unfold linkStep at hs
  split_ifs at hs with hup
  rcases hsent with hfatal | ⟨-, hwrote⟩
  · rw [hfatal] at hs
    cases hs
  · rw [hwrote] at hs
    obtain rfl := Option.some.inj hs
    refine ⟨h.ring, h.read, fun _ => ?_, fun hno => nomatch hno⟩
    -- the peer has read all but the last `unread` bytes
    have hread : s.got = (s.log.stream.map some).take s.got.length :=
      List.prefix_iff_eq_take.mp h.read
    have hrest : s.log.stream.length - s.unread = s.got.length := by
      have hle := h.length_le
      unfold RoamLink.unread
      omega
    dsimp only
    rw [hneeded, hrest, List.map_drop]
    nth_rewrite 1 [hread]
    exact List.take_append_drop _ _

/-- **Every event keeps the invariant.** -/
theorem LinkInv.step {s' : RoamLink} {ev : LinkEvent} (h : LinkInv s) (hguard : LinkGuard s ev)
    (hs : linkStep s ev = some s') : LinkInv s' := by
  cases ev with
  | write accepted =>
    unfold linkStep at hs
    split_ifs at hs with hup
    obtain rfl := Option.some.inj hs
    have hconnected : s.got ++ (s.flight ++ accepted.map some) =
        (s.log.stream ++ accepted).map some := by
      rw [← List.append_assoc, h.connected hup, List.map_append]
    constructor
    case ring => exact h.ring.write false accepted
    case read => exact ⟨_, hconnected⟩
    case connected => exact fun _ => hconnected
    case lost => exact fun hno => absurd hup (by rw [hno]; exact Bool.false_ne_true)
  | setOutBufferSize size =>
    obtain ⟨roam, hroam, rfl⟩ := Option.map_eq_some_iff.mp hs
    exact ⟨h.ring.setOutBufferSize hroam, h.read, h.connected, h.lost⟩
  | peerRead n =>
    obtain rfl := Option.some.inj hs
    have hall : (s.got ++ s.flight.take n) ++ s.flight.drop n = s.got ++ s.flight := by
      rw [List.append_assoc, List.take_append_drop]
    constructor
    case ring => exact h.ring
    case read =>
      cases hup : s.up with
      | true => exact ⟨_, hall.trans (h.connected hup)⟩
      | false =>
        dsimp only
        rw [h.lost hup, List.take_nil, List.append_nil]
        exact h.read
    case connected => exact fun hup => hall.trans (h.connected hup)
    case lost =>
      intro hup
      dsimp only
      rw [h.lost hup, List.drop_nil]
  | lost =>
    obtain rfl := Option.some.inj hs
    exact ⟨h.ring, h.read, fun hno => absurd hno Bool.false_ne_true, fun _ => rfl⟩
  | resume => exact h.resume hguard hs

/-- A resume succeeds if all that the peer has not read is in the ring. -/
theorem LinkInv.resume_isSome (h : LinkInv s) (hup : s.up = false) (hlt : s.unread < 2 ^ 64)
    (hstored : s.unread ≤ s.log.stored.length) (hsize : s.unread ≤ s.roam.outBufSize) :
    (linkStep s .resume).isSome := by
  have hneeded := needed_eq_unread h.ring h.length_le hlt
  have havail := h.ring.le_available
  obtain ⟨cells, hwrote⟩ := resendBytes_wrote (s := s.roam)
    (hneeded.trans_le (show s.unread ≤ s.roam.available by omega))
  unfold linkStep
  rw [hup, if_neg Bool.false_ne_true, hwrote]
  rfl

/-- **The stream survives its connections.**  However often the connection is lost and resumed,
and whatever was on its way then, if every resume finds in the ring something to resend
(`LinkGuard`): the peer has read the beginning of the stream that was written, and while there is
a connection the rest is on its way, in order.  A lost connection can be resumed as long as the
ring holds what the peer has not read. -/
theorem resumed_stream {es : List LinkEvent} {s : RoamLink}
    (hguard : Transition.Along linkStep (fun s ev _ => LinkGuard s ev) {} es)
    (hrun : Transition.run linkStep {} es = some s) :
    s.got <+: s.log.stream.map some ∧
      (s.up = true → s.got ++ s.flight = s.log.stream.map some) ∧
      (s.up = false → s.unread < 2 ^ 64 → s.unread ≤ s.log.stored.length →
        s.unread ≤ s.roam.outBufSize → (linkStep s .resume).isSome) := by
  have hinv : LinkInv s :=
    Transition.inv_run_of_along (fun _ _ _ h hg hs => h.step hg hs) hguard hrun linkInv_init
  exact ⟨hinv.read, hinv.connected, hinv.resume_isSome⟩

instance (s : Roaming) (l : RoamLog) (n : ℕ) : Decidable (Resendable s l n) :=
  inferInstanceAs (Decidable (s.allocated = true → _))

instance (s : RoamLink) (ev : LinkEvent) : Decidable (LinkGuard s ev) :=
  inferInstanceAs (Decidable (ev = .resume → _))

/-- A ring of four cells that has wrapped, and two connections that are lost: the second while
what was resent is still on its way. -/
def twoReconnects : List LinkEvent :=
  [.write [9], .peerRead 1, .setOutBufferSize 4, .write [1, 2, 3], .write [4, 5], .peerRead 2,
    .lost, .resume, .peerRead 1, .lost, .resume, .write [6]]

theorem resumed_stream_twoReconnects :
    ∃ s, Transition.run linkStep {} twoReconnects = some s ∧
      s.flight = [some 4, some 5, some 6] ∧
      s.got ++ s.flight = s.log.stream.map some := by
  obtain ⟨s, hs, hup, hflight⟩ : ∃ s, Transition.run linkStep {} twoReconnects = some s ∧
      s.up = true ∧ s.flight = [some 4, some 5, some 6] := by
    decide +kernel
  exact ⟨s, hs, hflight, (resumed_stream (by decide +kernel) hs).2.1 hup⟩

end CSBuFLO
