/-
# The deadlock breaker

An entry that waits for data of the peer is let go after five seconds.  The start of the wait
is kept in `deadlock_start`, which carries no entry: it is set when an entry is found blocked
and cleared when an entry is let go, but it survives a transcript that ends while its entry
waits (a load event, or the early stop).  The first blocked entry of a later page is then
measured from the wait of the old one.

The log of a run keeps the entry the end is blocked at, with the time of the slot that found
it blocked first.  `EndsAtRest` is the condition under which every entry waits its own five
seconds.
-/
import CSBuFLO.Cursor

namespace CSBuFLO

variable {σ β : Type}

/-! ## The log of a blocked entry -/

/-- A blocked entry, with the time of the slot that found it blocked first. -/
abbrev Blocked : Type := Option (StPair × ℕ)

/-- The log after a slot at time `now`: a blocked entry keeps its first time, until it is let
go or the transcript ends. -/
def Plan.blocked (now : ℕ) : Plan → Blocked → Blocked
  | .nothing, l => l
  | .ends, _ => none
  | .entry x, l =>
    if x.verdict = .wait then
      match l with
      | some (y, t) => if y = x.item then some (y, t) else some (x.item, now)
      | none => some (x.item, now)
    else none

/-- The log after an event. -/
def blockLog (T : Tables) (r : Role) (e : Endpoint σ β) (ev : EndpointEvent) (_ : Endpoint σ β)
    (l : Blocked) : Blocked :=
  match ev with
  | .slot inp => (slotPlan T r inp e).blocked inp.deadlockNow l
  | _ => l

/-- What the plan of a slot has to satisfy: an entry that is scheduled with a size although it
expects more than has arrived was found blocked five seconds ago. -/
def Plan.OwnWait (r : Role) (g : Globals) (now : ℕ) (l : Blocked) : Plan → Prop
  | .entry x =>
    x.size ≠ 0 → g.receivedSofar < (admitItem r 0 x.item g).2.1 →
      ∃ t, l = some (x.item, t) ∧ t + 5000000 ≤ now
  | _ => True

/-- Every entry waits for itself: the property of one event. -/
def OwnWait (T : Tables) (r : Role) (x : Endpoint σ β × Blocked) (ev : EndpointEvent)
    (_ : Endpoint σ β × Blocked) : Prop :=
  ∀ inp, ev = .slot inp → (slotPlan T r inp x.1).OwnWait r x.1.g inp.deadlockNow x.2

/-- The transcript does not end while an entry waits. -/
def EndsAtRest (T : Tables) (r : Role) (x : Endpoint σ β × Blocked) (ev : EndpointEvent)
    (_ : Endpoint σ β × Blocked) : Prop :=
  ∀ inp, ev = .slot inp → slotPlan T r inp x.1 = .ends → x.1.loop.waitingForAPacket = false

/-- `EndsAtRest`, computed. -/
def endsAtRest (T : Tables) (r : Role) (x : Endpoint σ β × Blocked) (ev : EndpointEvent)
    (_ : Endpoint σ β × Blocked) : Bool :=
  match ev with
  | .slot inp => slotPlan T r inp x.1 != .ends || !x.1.loop.waitingForAPacket
  | _ => true

theorem endsAtRest_sound {T : Tables} {r : Role} {x x' : Endpoint σ β × Blocked}
    {ev : EndpointEvent} (h : endsAtRest T r x ev x' = true) : EndsAtRest T r x ev x' := by
  rintro inp rfl hends
  simpa [endsAtRest, hends] using h

/-! ## The invariant -/

/-- The start of the wait belongs to the entry the end is blocked at, and there is none while
the end does not wait. -/
structure WaitInv (r : Role) (e : Endpoint σ β) (l : Blocked) : Prop where
  reached : Reached r e
  rest : e.loop.waitingForAPacket = false → l = none ∧ e.loop.deadlockStart = 0
  wait : e.loop.waitingForAPacket = true →
    ∃ y t, l = some (y, t) ∧ e.g.curItem = some y ∧ t ≤ e.loop.deadlockStart

theorem waitInv_init (r : Role) (snd : σ) :
    WaitInv r ({ pkt := { snd := snd } } : Endpoint σ β) none :=
  ⟨reached_init r snd, fun _ => ⟨rfl, rfl⟩, fun h => (nomatch h)⟩

variable {e e' : Endpoint σ β}

/-- What leaves the wait and its entry alone keeps the invariant. -/
theorem WaitInv.of_same {r : Role} {l : Blocked} (h : WaitInv r e l) (he' : Reached r e')
    (hcur : e'.g.curItem = e.g.curItem)
    (hwait : e'.loop.waitingForAPacket = e.loop.waitingForAPacket)
    (hstart : e'.loop.deadlockStart = e.loop.deadlockStart) : WaitInv r e' l where
  reached := he'
  rest := by rw [hwait, hstart]; exact h.rest
  wait := by rw [hwait, hstart, hcur]; exact h.wait

/-- A slot that treats an entry keeps the invariant. -/
theorem WaitInv.afterItem {T : Tables} {r : Role} {inp : SlotInput} {x : Planned} {l : Blocked}
    (h : WaitInv r e l) (he' : Reached r e') (hx : ItemSlot T r inp e e' x) :
    WaitInv r e' ((Plan.entry x).blocked inp.deadlockNow l) := by
  have hwait := hx.waiting
  have hstart := hx.deadlock
  unfold Plan.blocked
  dsimp only
  by_cases hv : x.verdict = .wait
  · rw [if_pos hv] at hstart ⊢
    rw [hv] at hwait
    refine ⟨he', fun hrest => absurd (hwait.symm.trans hrest) (by decide), fun _ => ?_⟩
    cases hw : e.loop.waitingForAPacket with
    | false =>
      -- a new entry: the wait starts now
      obtain ⟨rfl, hzero⟩ := h.rest hw
      rw [if_pos hzero] at hstart
      exact ⟨x.item, inp.deadlockNow, rfl, hx.cursor, hstart.ge⟩
    | true =>
      obtain ⟨y, t, rfl, hcur, hle⟩ := h.wait hw
      obtain rfl : y = x.item := Option.some.inj (hcur.symm.trans (hx.same hw))
      refine ⟨x.item, t, if_pos rfl, hx.cursor, ?_⟩
      rw [hstart]
      split <;> omega
  · rw [if_neg hv] at hstart ⊢
    rw [decide_eq_false hv] at hwait
    exact ⟨he', fun _ => ⟨rfl, hstart⟩, fun hw => absurd (hwait.symm.trans hw) (by decide)⟩

/-- A slot keeps the invariant, unless it ends the transcript of a waiting end. -/
theorem WaitInv.afterSlot {c : Codec σ β} {T : Tables} {r : Role} {inp : SlotInput} {l : Blocked}
    (h : WaitInv r e l) (hG : slotPlan T r inp e = .ends → e.loop.waitingForAPacket = false)
    (hs : slot c T r inp e = .returned e') :
    WaitInv r e' ((slotPlan T r inp e).blocked inp.deadlockNow l) := by
  have he' := reached_slot hs h.reached
  have hplan := slot_cursor hs h.reached
  cases hp : slotPlan T r inp e with
  | nothing =>
    rw [hp] at hplan
    exact h.of_same he' (congrArg Script.curItem hplan.same.script) hplan.same.waiting
      hplan.same.deadlock
  | ends =>
    rw [hp] at hplan
    have hzero := (h.rest (hG hp)).2
    exact ⟨he', fun _ => ⟨rfl, hplan.deadlock.trans hzero⟩,
      fun hw => absurd (hplan.waiting.symm.trans hw) (by decide)⟩
  | entry x =>
    rw [hp] at hplan
    exact h.afterItem he' hplan

/-- An entry that is let go without its data has waited for itself. -/
theorem WaitInv.ownWait {T : Tables} {r : Role} {inp : SlotInput} {x : Planned} {l : Blocked}
    (h : WaitInv r e l) (hx : ItemSlot T r inp e e' x) (hsize : x.size ≠ 0)
    (hblocked : e.g.receivedSofar < (admitItem r 0 x.item e.g).2.1) :
    ∃ t, l = some (x.item, t) ∧ t + 5000000 ≤ inp.deadlockNow := by
  have hverdict := hx.verdict
  cases hv : x.verdict with
  | wait =>
    have hzero := hx.size
    rw [if_pos hv] at hzero
    exact absurd hzero hsize
  | go =>
    rw [hv] at hverdict
    have := waitVerdict_eq_go.mp hverdict.symm
    omega
  | breaker =>
    rw [hv] at hverdict
    obtain ⟨-, hne, hlong⟩ := waitVerdict_eq_breaker.mp hverdict.symm
    cases hw : e.loop.waitingForAPacket with
    | false => exact absurd (h.rest hw).2 hne
    | true =>
      obtain ⟨y, t, rfl, hcur, hle⟩ := h.wait hw
      obtain rfl : y = x.item := Option.some.inj (hcur.symm.trans (hx.same hw))
      exact ⟨t, rfl, by omega⟩

/-- **Every event keeps the invariant and lets no entry go before its time.** -/
theorem WaitInv.endpointStep {c : Codec σ β} {T : Tables} {r : Role} {ev : EndpointEvent}
    {l : Blocked} (h : WaitInv r e l) (hG : EndsAtRest T r (e, l) ev (e', blockLog T r e ev e' l))
    (hs : endpointStep c T r e ev = some e') :
    WaitInv r e' (blockLog T r e ev e' l) ∧
      OwnWait T r (e, l) ev (e', blockLog T r e ev e' l) := by
  have he' := reached_endpointStep hs h.reached
  rcases endpointStep_cases hs with ⟨inp, rfl, hslot⟩ | ⟨hno, hflag⟩ | ⟨hpage, hev⟩
  · refine ⟨h.afterSlot (hG inp rfl) hslot, ?_⟩
    rintro _ ⟨⟩
    have hplan := slot_cursor hslot h.reached
    cases hp : slotPlan T r inp e with
    | nothing => trivial
    | ends => trivial
    | entry x =>
      rw [hp] at hplan
      exact fun hsize hblocked => h.ownWait hplan hsize hblocked
  · have hlog : blockLog T r e ev e' l = l := by
      cases ev with
      | slot inp => exact absurd rfl (hno inp)
      | _ => rfl
    rw [hlog]
    exact ⟨h.of_same he' hflag.curItem hflag.waiting hflag.deadlock,
      fun inp hinp => absurd hinp (hno inp)⟩
  · obtain ⟨p, -, rfl⟩ | ⟨ts, payload, beyond, u, rfl, -⟩ := hev
    · exact ⟨h.of_same he' hpage.curItem hpage.waiting hpage.deadlock, fun _ hinp => (nomatch hinp)⟩
    · exact ⟨h.of_same he' hpage.curItem hpage.waiting hpage.deadlock, fun _ hinp => (nomatch hinp)⟩

/-! ## Runs -/

/-- **A blocked entry is only released by its own wait.**  In every run of an end, with any
peer and any clock, in which no transcript ends while an entry waits, an entry that expects
more than has arrived is scheduled only five seconds after the slot that found this entry
blocked first. -/
theorem released_by_own_wait (c : Codec σ β) (T : Tables) (r : Role) (snd : σ)
    (evs : List EndpointEvent)
    (hG : Transition.Along (Transition.logStep (endpointStep c T r) (blockLog T r))
      (EndsAtRest T r) (({ pkt := { snd := snd } } : Endpoint σ β), none) evs) :
    Transition.Along (Transition.logStep (endpointStep c T r) (blockLog T r)) (OwnWait T r)
      (({ pkt := { snd := snd } } : Endpoint σ β), none) evs := by
  refine Transition.along_of_inv (G := EndsAtRest T r) (I := fun x => WaitInv r x.1 x.2) ?_ hG
    (waitInv_init r snd)
  rintro ⟨e, l⟩ ev ⟨e', l'⟩ hi hg hlog
  obtain ⟨hs, rfl⟩ := Transition.logStep_eq_some.mp hlog
  exact hi.endpointStep hg hs

/-- The page `a`, which may stop at its second client entry after a load event, and the page
`b`, which starts with a burst of the server. -/
def serverFirst : Tables where
  clusters := ⟨fun _ => [([97], 1), ([98], 2)], Hashmap.pos_pagesAB⟩
  straces id :=
    if id = 1 then [⟨-400, 50, 0, 0⟩, ⟨100, 50, 0, 400⟩, ⟨-300, 50, 50, 100⟩]
    else [⟨100, 50, 0, 0⟩, ⟨-200, 50, 0, 100⟩]

/-- The steps of a client on such pages, with the log. -/
abbrev serverFirstStep :
    Endpoint (SendState Unit) UInt8 × Blocked → EndpointEvent →
      Option (Endpoint (SendState Unit) UInt8 × Blocked) :=
  Transition.logStep (endpointStep plainCodec serverFirst .client) (blockLog serverFirst .client)

/-- The client is found blocked at time 100000, and its entry is let go at 5100000. -/
theorem released_by_own_wait_serverFirst :
    ∃ x x', Transition.run serverFirstStep (plainEndpoint, none)
        [.socks (urlRequest 98), .slot (openSlot 100000)] = some x ∧
      serverFirstStep x (.slot (openSlot 5100000)) = some x' ∧
      slotPlan serverFirst .client (openSlot 5100000) x.1 =
        .entry ⟨⟨-200, 50, 0, 100⟩, 1, 200, .breaker⟩ ∧
      ∃ t, x.2 = some (⟨-200, 50, 0, 100⟩, t) ∧ t + 5000000 ≤ 5100000 := by
  obtain ⟨x, x', hx, hx', hplan, hblocked⟩ : ∃ x x', Transition.run serverFirstStep
      (plainEndpoint, none) [.socks (urlRequest 98), .slot (openSlot 100000)] = some x ∧
      serverFirstStep x (.slot (openSlot 5100000)) = some x' ∧
      slotPlan serverFirst .client (openSlot 5100000) x.1 =
        .entry ⟨⟨-200, 50, 0, 100⟩, 1, 200, .breaker⟩ ∧
      x.1.g.receivedSofar < (admitItem .client 0 ⟨-200, 50, 0, 100⟩ x.1.g).2.1 :=
    Transition.exists_run_step (by decide +kernel)
  have hguard : Transition.Along serverFirstStep (EndsAtRest serverFirst .client)
      (plainEndpoint, none)
      ([.socks (urlRequest 98), .slot (openSlot 100000)] ++ [.slot (openSlot 5100000)]) :=
    Transition.Along.imp (P := fun x ev x' => endsAtRest serverFirst .client x ev x' = true)
      (fun _ _ _ => endsAtRest_sound) (by decide +kernel)
  have hown := (released_by_own_wait _ _ _ _ _ hguard).last hx hx' _ rfl
  rw [hplan] at hown
  exact ⟨x, x', hx, hx', hplan, hown (by decide) hblocked⟩

/-- The page `a` stops early while its second entry waits, since time 200000; the server ends
it as well, and the page `b` is requested. -/
def staleStart : List EndpointEvent :=
  [.socks (urlRequest 97), .slot (openSlot 100000), .slot (openSlot 200000),
    .socks fun i => [5, 4].getD i 0, .slot (openSlot 300000), .received 128, notified .urlack,
    notified .tend, .slot (openSlot 500000), .socks (urlRequest 98)]

/-- **The start of an old wait releases a new entry.**  The first slot of the second page lets
the blocked entry go: no slot has found it blocked before.  Every slot writes only if the loop had
asked for the connection. -/
theorem released_by_stale_wait :
    ∃ x x', Transition.run serverFirstStep (plainEndpoint, none) staleStart = some x ∧
      serverFirstStep x (.slot (openSlot 5200000)) = some x' ∧
      Transition.Along serverFirstStep (fun x ev _ => ev.asked x.1 = true) (plainEndpoint, none)
        (staleStart ++ [.slot (openSlot 5200000)]) ∧
      slotPlan serverFirst .client (openSlot 5200000) x.1 =
        .entry ⟨⟨-200, 50, 0, 100⟩, 1, 320, .breaker⟩ ∧
      x.1.g.receivedSofar < (admitItem .client 0 ⟨-200, 50, 0, 100⟩ x.1.g).2.1 ∧
      x.1.page = 2 ∧ x.2 = none ∧ x.1.loop.deadlockStart = 200000 :=
  Transition.exists_run_step (by decide +kernel)

end CSBuFLO
