/-
# Measured intervals are never negative

Send times are recorded by the send loop.  An interval is closed by the time a packet was received
(`ts_end`), which the packet reader writes.  The two meet in `update_tau_interval`, which takes
differences of the recorded times and of `ts_end` in the order in which they were inserted.

* `slotCalls` : the calls a slot makes into the adaptation code, so that the rings of an endpoint
  are compared with plain lists of everything recorded (`History`);
* `Timed` : the recorded times are in order, and no recorded time is later than the end of an
  interval that can be closed;
* `measured_intervals_nonneg` : what follows at every call of `update_tau_interval`.

The clock is the one of the two readings of `cur_ts`; it does not go back.
-/
import CSBuFLO.RateChanges

namespace CSBuFLO

variable {σ β : Type}

/-! ## The calls of a slot -/

/-- The calls of the interval bookkeeping: close an interval, record a send time. -/
def intervalCalls (r : Role) (curTs : ℕ) (sent junk : ℤ) (e : Endpoint σ β) : List AdaptCall :=
  (if e.g.tstartSet ∧ e.g.tendSet ∧ e.g.tsStart < e.g.tsEnd then
    [.updateTauInterval e.g.tsStart e.g.tsEnd e.loop.curTotalRealsentBytes (r = .client)]
  else []) ++
  if (closeInterval r e).loop.curTotalRealsentBytes + (if sent > junk then sent - junk else 0) ≥
      targetQueueLen then
    [.insertTime curTs]
  else []

/-- The calls of a slot, in their order. -/
def slotCalls (c : Codec σ β) (T : Tables) (r : Role) (inp : SlotInput) (e : Endpoint σ β) :
    List AdaptCall :=
  match counted c T r inp e with
  | none => []
  | some (sent, e1) =>
    if e1.g.stmode = .csbuflo then
      (if (unloadStep inp.now e).pkt.outputLen ≠ 0 then
        intervalCalls r inp.curTs sent e1.g.paddedJunk e1 else []) ++
      [.updateTauMedian e1.loop.tau e1.loop.boundary e1.loop.totalSentBytes]
    else []

/-- The calls of an event: only slots make any. -/
def eventCalls (c : Codec σ β) (T : Tables) (r : Role) (e : Endpoint σ β) :
    EndpointEvent → List AdaptCall
  | .slot inp => slotCalls c T r inp e
  | _ => []

/-- The time an event reads into `cur_ts`. -/
def clockReading : EndpointEvent → Option ℕ
  | .slot inp => some inp.curTs
  | .packet curTs _ _ => some curTs
  | _ => none

/-- Closing an interval is the first call of the bookkeeping. -/
theorem adapt_closeInterval (r : Role) (e : Endpoint σ β) :
    (closeInterval r e).adapt =
      (if e.g.tstartSet ∧ e.g.tendSet ∧ e.g.tsStart < e.g.tsEnd then
        [AdaptCall.updateTauInterval e.g.tsStart e.g.tsEnd e.loop.curTotalRealsentBytes
          (r = .client)]
      else []).foldl Adaptation.call e.adapt := by
  unfold closeInterval
  split <;> rfl

theorem openInterval_frame (curTs : ℕ) (e : Endpoint σ β) :
    (openInterval curTs e).adapt = e.adapt ∧ (openInterval curTs e).loop = e.loop := by
  unfold openInterval
  split <;> exact ⟨rfl, rfl⟩

/-- **The bookkeeping changes the rings by its calls.** -/
theorem adapt_noteInterval (r : Role) (curTs : ℕ) (sent junk : ℤ) (e : Endpoint σ β) :
    (noteInterval r curTs sent junk e).adapt =
      (intervalCalls r curTs sent junk e).foldl Adaptation.call e.adapt := by
  obtain ⟨hadapt, hloop⟩ := openInterval_frame curTs (closeInterval r e)
  unfold noteInterval intervalCalls countReal
  rw [List.foldl_append, ← adapt_closeInterval, hloop]
  generalize (if sent > junk then sent - junk else 0) = real
  dsimp only
  split
  · exact congrArg (Adaptation.insertTime · curTs) hadapt
  · exact hadapt

/-- A slot that does not send leaves the rings alone. -/
theorem adapt_skipSlot (now : ℕ) (e : Endpoint σ β) :
    (skipSlot (unloadStep now e)).adapt = e.adapt := by
  rw [← (rate_unloadStep now e).1]
  unfold skipSlot
  split <;> rfl

variable {T : Tables} {c : Codec σ β} {inp : SlotInput} {r : Role}

/-- **A slot changes the rings by its calls.** -/
theorem adapt_slot {e e' : Endpoint σ β} (h : slot c T r inp e = .returned e') :
    e'.adapt = (slotCalls c T r inp e).foldl Adaptation.call e.adapt := by
  unfold slotCalls
  rcases slot_cases h with ⟨-, hcount, rfl⟩ | ⟨sent, hcount, hmode⟩ | ⟨d, hd, rfl⟩
  · rw [hcount]
    exact adapt_skipSlot inp.now e
  · rw [hcount]
    dsimp only
    rw [if_neg hmode]
    exact (rate_counted hcount).1
  · obtain ⟨⟨sent, e1⟩, hcount, h1⟩ := Option.bind_eq_some_iff.mp hd
    have hadapt := (rate_counted hcount).1
    rw [hcount]
    dsimp only at h1 ⊢
    split at h1
    · rename_i hmode
      rw [if_pos hmode, ← Option.some.inj h1, List.foldl_append, ← hadapt]
      split
      · obtain ⟨htau, hboundary, htotal, -⟩ :=
          noteInterval_frame r inp.curTs sent e1.g.paddedJunk e1
        rw [← adapt_noteInterval]
        unfold adaptTau
        rw [htau, hboundary, htotal]
        rfl
      · rfl
    · cases h1

/-- **An event changes the rings by its calls.** -/
theorem adapt_endpointStep {ev : EndpointEvent} {e e' : Endpoint σ β}
    (h : endpointStep c T r e ev = some e') :
    e'.adapt = (eventCalls c T r e ev).foldl Adaptation.call e.adapt := by
  cases ev with
  | slot inp => exact adapt_slot (endpointStep_slot.mp h)
  | data x payload => exact (offSlot_endpointStep h (fun _ => nofun)).adapt
  | received n => exact (offSlot_endpointStep h (fun _ => nofun)).adapt
  | packet curTs payload beyond => exact (offSlot_endpointStep h (fun _ => nofun)).adapt
  | socks p => exact (offSlot_endpointStep h (fun _ => nofun)).adapt

/-! ## The marks of an interval -/

/-- The marks of the interval that is being measured. -/
structure Marks where
  tstartSet : Bool := false
  tendSet : Bool := false
  tsStart : ℕ := 0
  tsEnd : ℕ := 0

/-- The marks in the globals. -/
def Globals.marks (g : Globals) : Marks := ⟨g.tstartSet, g.tendSet, g.tsStart, g.tsEnd⟩

/-- The interval can be closed. -/
def Marks.Closable (m : Marks) : Prop := m.tstartSet ∧ m.tendSet ∧ m.tsStart < m.tsEnd

theorem marks_unloadStep (now : ℕ) (e : Endpoint σ β) :
    (unloadStep now e).g.marks = e.g.marks := by
  unfold unloadStep
  split_ifs <;> rfl

theorem marks_switchToNormal {e e' : Endpoint σ β} (h : switchToNormal c r e = some e') :
    e'.g.marks = e.g.marks := by
  obtain ⟨_, _, _, _, rfl⟩ := switchToNormal_eq_some h
  rfl

theorem marks_endTranscript {n : ℕ} {e e' : Endpoint σ β}
    (h : endTranscript c r inp n e = some e') : e'.g.marks = e.g.marks := by
  obtain ⟨e1, h1, h2⟩ := Option.bind_eq_some_iff.mp h
  obtain ⟨_, _, _, rfl⟩ := queueTend_eq_some h1
  rcases leaveTranscript_cases h2 with hnormal | rfl | ⟨idle, rfl⟩
  · have hmarks := marks_switchToNormal hnormal
    exact hmarks
  · rfl
  · rfl

theorem marks_transcriptSlot {n : ℕ} {e e' : Endpoint σ β}
    (h : transcriptSlot c T r inp n e = some e') : e'.g.marks = e.g.marks := by
  have hplan : (planItem T r inp e).2.g.marks = e.g.marks := by
    rw [planItem_eq]
    rfl
  rw [transcriptSlot_eq] at h
  split at h
  · exact (marks_endTranscript h).trans hplan
  · rename_i item _
    rw [← Option.some.inj h, scheduleItem_eq, ← hplan]
    generalize (planItem T r inp e).2 = e1
    show (treatItem r inp item e1).marks = e1.g.marks
    have hadmit : (admitItem r 0 item e1.g).2.2.marks = e1.g.marks := by
      rw [admitItem_eq]
      rfl
    unfold treatItem
    dsimp only
    split
    · exact hadmit
    · cases r <;> exact hadmit
    · exact hadmit

/-- The end of a csbuflo page clears the marks. -/
theorem marks_leaveCsbuflo {e e' : Endpoint σ β} (h : leaveCsbuflo c r e = some e') :
    e'.g.marks = {} := by
  unfold leaveCsbuflo at h
  cases r with
  | client =>
    obtain ⟨e1, h1, h2⟩ := Option.bind_eq_some_iff.mp h
    obtain ⟨pkt, -, rfl⟩ := Option.map_eq_some_iff.mp h1
    exact marks_switchToNormal h2
  | server =>
    dsimp only at h
    exact marks_switchToNormal h

/-- **The decision of a slot leaves the marks alone, or clears them.** -/
theorem marks_decideSlot {e e' : Endpoint σ β} (h : decideSlot c T r inp e = some e') :
    e'.g.marks = e.g.marks ∨ e'.g.marks = {} := by
  obtain ⟨e1, h1, h2⟩ := Option.bind_eq_some_iff.mp h
  have hfirst : e1.g.marks = e.g.marks := by
    split at h1
    · exact marks_transcriptSlot h1
    · rw [Option.some.inj h1]
  have hbudget : ∀ (n : ℕ) (x : Endpoint σ β), (idleBudget n x).g.marks = x.g.marks := by
    intro n x
    unfold idleBudget
    dsimp only
    split
    · rfl
    · dsimp only
      split <;> rfl
  cases csbufloStep_csbufloSlot h2 with
  | other _ _ he =>
    left
    rw [he]
    exact hfirst
  | busy _ _ he =>
    left
    rw [he]
    exact hfirst
  | ends _ _ _ e2 hleave he =>
    right
    rw [he, hbudget]
    exact marks_leaveCsbuflo hleave
  | idle _ _ _ he =>
    left
    rw [he, hbudget]
    exact hfirst

theorem marks_counted {e e2 : Endpoint σ β} {sent : ℤ} (h : counted c T r inp e = some (sent, e2)) :
    e2.g.marks = e.g.marks ∨ e2.g.marks = {} := by
  obtain ⟨-, e1, g, p, incoming, hdec, hpoll, rfl⟩ := counted_eq_some h
  have hframe := writeFrame_packetWritePoll c inp.poll e1.g e1.pkt
  rw [hpoll] at hframe
  have hg : g.marks = e1.g.marks := by
    have heq : g = { e1.g with
        paddedJunk := g.paddedJunk, w2w := g.w2w,
        transPaddedRemaining := g.transPaddedRemaining } := hframe.eq
    rw [heq]
    rfl
  have hstart := marks_unloadStep inp.now e
  rcases marks_decideSlot hdec with hsame | hclear
  · exact Or.inl ((hg.trans hsame).trans hstart)
  · exact Or.inr (hg.trans hclear)

/-! ## The invariant -/

/-- The recorded times are in order and in the past.  When the interval can be closed, they are not
later than the packet that ended it: such a packet comes after the times recorded so far, and the
next slot that could record another one closes the interval first. -/
structure Timed (now : ℕ) (e : Endpoint σ β) (h : History) : Prop where
  refines : Refines e.adapt h
  sorted : h.times.Pairwise (· ≥ ·)
  recorded : ∀ t ∈ h.times, t ≤ now
  received : e.g.marks.tsEnd ≤ now
  closable : e.g.marks.Closable → ∀ t ∈ h.times, t ≤ e.g.marks.tsEnd

theorem timed_init (snd : σ) : Timed 0 ({ pkt := { snd := snd } } : Endpoint σ β) {} :=
  ⟨refines_init, .nil, fun _ ht => (nomatch ht), le_rfl, fun _ _ ht => (nomatch ht)⟩

variable {now ts : ℕ} {e e' : Endpoint σ β} {h : History}

/-- Time passes, and the marks may be cleared. -/
theorem Timed.frame (ht : Timed now e h) (hle : now ≤ ts) (hadapt : e'.adapt = e.adapt)
    (hmarks : e'.g.marks = e.g.marks ∨ e'.g.marks = {}) : Timed ts e' h := by
  have hrecorded : ∀ t ∈ h.times, t ≤ ts := fun t hmem => (ht.recorded t hmem).trans hle
  refine ⟨hadapt ▸ ht.refines, ht.sorted, hrecorded, ?_, ?_⟩
  · rcases hmarks with hsame | hclear
    · rw [hsame]
      exact ht.received.trans hle
    · rw [hclear]
      exact Nat.zero_le ts
  · intro hclosable
    rcases hmarks with hsame | hclear
    · rw [hsame] at hclosable ⊢
      exact ht.closable hclosable
    · rw [hclear] at hclosable
      exact absurd hclosable.1 Bool.false_ne_true

/-- A packet marks the end of the interval, or it does not. -/
theorem Timed.noteReceived (ht : Timed now e h) (hle : now ≤ ts) (hadapt : e'.adapt = e.adapt)
    (hg : e'.g = noteReceived ts e.g) : Timed ts e' h := by
  unfold CSBuFLO.noteReceived at hg
  split at hg
  · have hend : e'.g.marks.tsEnd = ts := by rw [hg]; rfl
    have hrecorded : ∀ t ∈ h.times, t ≤ ts := fun t hmem => (ht.recorded t hmem).trans hle
    refine ⟨hadapt ▸ ht.refines, ht.sorted, hrecorded, hend.le, fun _ => ?_⟩
    rw [hend]
    exact hrecorded
  · exact ht.frame hle hadapt (Or.inl (by rw [hg]))

/-- Closing the interval forgets the times; afterwards there is nothing to close. -/
theorem Timed.closeInterval (ht : Timed now e h) (r : Role) :
    Timed now (closeInterval r e)
        ((if e.g.tstartSet ∧ e.g.tendSet ∧ e.g.tsStart < e.g.tsEnd then
          [AdaptCall.updateTauInterval e.g.tsStart e.g.tsEnd e.loop.curTotalRealsentBytes
            (r = .client)]
        else []).foldl History.call h) ∧
      ¬ (CSBuFLO.closeInterval r e).g.marks.Closable := by
  unfold CSBuFLO.closeInterval
  split
  · rename_i hclosable
    have hrefines := ht.refines.call (.updateTauInterval e.g.tsStart e.g.tsEnd
      e.loop.curTotalRealsentBytes (r = .client))
    have htimes : (h.call (.updateTauInterval e.g.tsStart e.g.tsEnd e.loop.curTotalRealsentBytes
        (r = .client))).times = [] := by
      unfold History.call
      dsimp only
      rw [if_pos hclosable.2.2]
    rw [List.foldl_cons, List.foldl_nil]
    constructor
    · refine ⟨hrefines, ?_, ?_, ht.received, fun hno => absurd hno.1 Bool.false_ne_true⟩
      · rw [htimes]
        exact .nil
      · rw [htimes]
        exact fun _ hmem => (nomatch hmem)
    · exact fun hno => Bool.false_ne_true hno.1
  · rename_i hno
    exact ⟨ht, hno⟩

/-- An interval that is opened begins now, not before the last packet. -/
theorem Timed.openInterval (ht : Timed now e h) (hno : ¬ e.g.marks.Closable) (hle : now ≤ ts) :
    Timed ts (openInterval ts e) h ∧ ¬ (CSBuFLO.openInterval ts e).g.marks.Closable := by
  unfold CSBuFLO.openInterval
  split
  · exact ⟨ht.frame hle rfl (Or.inl rfl), hno⟩
  · have hlater : ¬ ts < e.g.marks.tsEnd := not_lt.mpr (ht.received.trans hle)
    refine ⟨⟨ht.refines, ht.sorted, fun t hmem => (ht.recorded t hmem).trans hle,
      ht.received.trans hle, ?_⟩, ?_⟩
    · exact fun hclosable => absurd hclosable.2.2 hlater
    · exact fun hclosable => hlater hclosable.2.2

/-- The send time that is recorded is the latest. -/
theorem Timed.insertTime (ht : Timed ts e h) (hno : ¬ e.g.marks.Closable)
    (hadapt : e'.adapt = e.adapt.insertTime ts) (hmarks : e'.g.marks = e.g.marks) :
    Timed ts e' (h.call (.insertTime ts)) := by
  refine ⟨hadapt ▸ ht.refines.call (.insertTime ts), ?_, ?_, hmarks ▸ ht.received, ?_⟩
  · exact .cons ht.recorded ht.sorted
  · intro t hmem
    rcases List.mem_cons.mp hmem with rfl | hold
    · exact le_rfl
    · exact ht.recorded t hold
  · intro hclosable
    rw [hmarks] at hclosable
    exact absurd hclosable hno

/-- **The interval bookkeeping keeps the invariant.** -/
theorem Timed.noteInterval (ht : Timed now e h) (hle : now ≤ ts) (r : Role) (sent junk : ℤ) :
    Timed ts (noteInterval r ts sent junk e)
      ((intervalCalls r ts sent junk e).foldl History.call h) := by
  obtain ⟨hclose, hno⟩ := ht.closeInterval r
  obtain ⟨hopen, hno'⟩ := hclose.openInterval hno hle
  obtain ⟨-, hloop⟩ := openInterval_frame ts (CSBuFLO.closeInterval r e)
  unfold CSBuFLO.noteInterval intervalCalls countReal
  rw [List.foldl_append, hloop]
  generalize (if sent > junk then sent - junk else 0) = real
  dsimp only
  split
  · exact hopen.insertTime hno' rfl rfl
  · exact hopen.frame le_rfl rfl (Or.inl rfl)

theorem Timed.adaptTau (ht : Timed now e h) :
    Timed now (adaptTau e)
      (h.call (.updateTauMedian e.loop.tau e.loop.boundary e.loop.totalSentBytes)) := by
  have htimes : (h.call (.updateTauMedian e.loop.tau e.loop.boundary
      e.loop.totalSentBytes)).times = h.times := by
    unfold History.call
    dsimp only
    split <;> rfl
  have hrefines := ht.refines.call
    (.updateTauMedian e.loop.tau e.loop.boundary e.loop.totalSentBytes)
  refine ⟨hrefines, ?_, ?_, ht.received, ?_⟩
  · rw [htimes]
    exact ht.sorted
  · rw [htimes]
    exact ht.recorded
  · rw [htimes]
    exact ht.closable

/-- **A slot keeps the invariant.** -/
theorem Timed.slot (ht : Timed now e h) (hle : now ≤ inp.curTs)
    (hs : slot c T r inp e = .returned e') :
    Timed inp.curTs e' ((slotCalls c T r inp e).foldl History.call h) := by
  unfold slotCalls
  rcases slot_cases hs with ⟨-, hcount, rfl⟩ | ⟨sent, hcount, hmode⟩ | ⟨d, hd, rfl⟩
  · rw [hcount]
    have hmarks : (skipSlot (unloadStep inp.now e)).g.marks = e.g.marks :=
      (congrArg Globals.marks (skipSlot_sameScript _).2).trans (marks_unloadStep inp.now e)
    exact ht.frame hle (adapt_skipSlot inp.now e) (Or.inl hmarks)
  · rw [hcount]
    dsimp only
    rw [if_neg hmode]
    exact ht.frame hle (rate_counted hcount).1 (marks_counted hcount)
  · obtain ⟨⟨sent, e1⟩, hcount, h1⟩ := Option.bind_eq_some_iff.mp hd
    have ht1 : Timed now e1 h := ht.frame le_rfl (rate_counted hcount).1 (marks_counted hcount)
    rw [hcount]
    dsimp only at h1 ⊢
    split at h1
    · rename_i hmode
      rw [if_pos hmode, ← Option.some.inj h1, List.foldl_append]
      split
      · obtain ⟨htau, hboundary, htotal, -⟩ :=
          noteInterval_frame r inp.curTs sent e1.g.paddedJunk e1
        have hmedian := (ht1.noteInterval hle r sent e1.g.paddedJunk).adaptTau
        rw [htau, hboundary, htotal] at hmedian
        exact hmedian
      · exact (ht1.frame hle rfl (Or.inl rfl)).adaptTau
    · cases h1

/-- **Every event keeps the invariant**, at the time it reads. -/
theorem Timed.endpointStep {ev : EndpointEvent} (ht : Timed now e h)
    (hle : ∀ t ∈ clockReading ev, now ≤ t) (hs : endpointStep c T r e ev = some e') :
    Timed ((clockReading ev).getD now) e' ((eventCalls c T r e ev).foldl History.call h) := by
  have hother : (∀ inp, ev ≠ .slot inp) → Timed ((clockReading ev).getD now) e' h := by
    intro hev
    have hnow : now ≤ (clockReading ev).getD now := by
      cases hread : clockReading ev with
      | none => exact le_rfl
      | some t => exact hle t hread
    have hoff := offSlot_endpointStep hs hev
    rcases hoff.marks with ⟨hstart, hend, hts, hte⟩ | ⟨curTs, payload, beyond, rfl, hg⟩
    · refine ht.frame hnow hoff.adapt (Or.inl ?_)
      unfold Globals.marks
      rw [hstart, hend, hts, hte]
    · exact ht.noteReceived hnow hoff.adapt hg
  cases ev with
  | slot inp => exact ht.slot (hle inp.curTs rfl) (endpointStep_slot.mp hs)
  | data x payload => exact hother (fun _ => nofun)
  | received n => exact hother (fun _ => nofun)
  | packet curTs payload beyond => exact hother (fun _ => nofun)
  | socks p => exact hother (fun _ => nofun)

/-! ## Calls of `update_tau_interval` -/

/-- Differences of times in order. -/
theorem intervals_nonneg {times : List ℕ} (hsorted : times.Pairwise (· ≥ ·))
    (hlong : ∀ t ∈ times, t < 2 ^ 63) : ∀ iv ∈ Samples.intervals times, 0 ≤ iv := by
  induction times with
  | nil => exact fun _ hmem => (nomatch hmem)
  | cons later times ih =>
    cases times with
    | nil => exact fun _ hmem => (nomatch hmem)
    | cons earlier rest =>
      intro iv hmem
      rcases List.mem_cons.mp hmem with rfl | hrest
      · have hle : later ≥ earlier := List.rel_of_pairwise_cons hsorted List.mem_cons_self
        have hlt := hlong later List.mem_cons_self
        unfold Adaptation.interval
        rw [Int.bmod_eq_of_le (by omega) (by omega)]
        omega
      · exact ih hsorted.of_cons (fun t ht => hlong t (List.mem_cons_of_mem _ ht)) iv hrest

/-- What a slot passes to `update_tau_interval` are the marks of the state before it. -/
theorem updateTauInterval_mem_slotCalls {tsStart tsEnd : ℕ} {real : ℤ} {isClient : Bool}
    (hmem : .updateTauInterval tsStart tsEnd real isClient ∈ slotCalls c T r inp e) :
    e.g.marks.Closable ∧ tsStart = e.g.marks.tsStart ∧ tsEnd = e.g.marks.tsEnd := by
  unfold slotCalls at hmem
  cases hcount : counted c T r inp e with
  | none =>
    rw [hcount] at hmem
    cases hmem
  | some x =>
    obtain ⟨sent, e1⟩ := x
    rw [hcount] at hmem
    dsimp only at hmem
    have hinterval : .updateTauInterval tsStart tsEnd real isClient ∈
        intervalCalls r inp.curTs sent e1.g.paddedJunk e1 := by
      split_ifs at hmem
      · exact (List.mem_append.mp hmem).resolve_right (by simp)
      · exact absurd hmem (by simp)
      · cases hmem
    unfold intervalCalls at hinterval
    generalize (if sent > e1.g.paddedJunk then sent - e1.g.paddedJunk else 0) = new at hinterval
    rcases List.mem_append.mp hinterval with hclose | hinsert
    · split at hclose
      · rename_i hclosable
        have hcall := List.mem_singleton.mp hclose
        rcases marks_counted hcount with hsame | hclear
        · rw [← hsame]
          injection hcall with hstart hend
          exact ⟨hclosable, hstart, hend⟩
        · have hset : e1.g.marks.tstartSet = true := hclosable.1
          rw [hclear] at hset
          cases hset
      · cases hclose
    · split at hinsert
      · cases List.mem_singleton.mp hinsert
      · cases hinsert

/-- An event changes the rings by its calls.  At each call of `update_tau_interval` among them: the
recorded times in the order of their insertion, followed by `ts_end`, do not decrease; the ring
holds the last `ARRSIZE` of them; no interval that is computed is negative (of times that fit a
`long`), nor is the value that stands in for one. -/
def IntervalsInOrder (c : Codec σ β) (T : Tables) (r : Role) (x : Endpoint σ β × History)
    (ev : EndpointEvent) (x' : Endpoint σ β × History) : Prop :=
  x'.1.adapt = (eventCalls c T r x.1 ev).foldl Adaptation.call x.1.adapt ∧
  ∀ tsStart tsEnd real isClient,
    .updateTauInterval tsStart tsEnd real isClient ∈ eventCalls c T r x.1 ev →
      (x.2.times.reverse ++ [tsEnd]).Pairwise (· ≤ ·) ∧
      x.1.adapt.samples.times = x.2.times.take arrSize ∧
      (tsEnd < 2 ^ 63 →
        (∀ iv ∈ (if real > 0 then x.1.adapt.insertTime tsEnd else x.1.adapt).intervals, 0 ≤ iv) ∧
        0 ≤ Adaptation.fallbackTau isClient tsStart tsEnd)

/-- The invariant gives the order at the next call. -/
theorem Timed.intervalsInOrder {ev : EndpointEvent} (ht : Timed now e h)
    (hs : CSBuFLO.endpointStep c T r e ev = some e') (h' : History) :
    IntervalsInOrder c T r (e, h) ev (e', h') := by
  refine ⟨adapt_endpointStep hs, ?_⟩
  intro tsStart tsEnd real isClient hmem
  cases ev with
  | slot inp =>
    obtain ⟨hclosable, rfl, rfl⟩ := updateTauInterval_mem_slotCalls hmem
    have hle := ht.closable hclosable
    have hsamples : e.adapt.samples.times = h.times.take arrSize :=
      congrArg Samples.times ht.refines.samples
    refine ⟨?_, hsamples, fun hlong => ⟨?_, ?_⟩⟩
    · rw [List.pairwise_append]
      refine ⟨List.pairwise_reverse.mpr ht.sorted, List.pairwise_singleton _ _, ?_⟩
      intro t htimes t' hlast
      rw [List.mem_singleton.mp hlast]
      exact hle t (List.mem_reverse.mp htimes)
    · have hwindow : ∀ t ∈ h.times.take arrSize, t ≤ e.g.marks.tsEnd :=
        fun t htake => hle t (List.mem_of_mem_take htake)
      have hsorted : (h.times.take arrSize).Pairwise (· ≥ ·) :=
        ht.sorted.sublist (List.take_sublist _ _)
      split
      · rw [Adaptation.intervals_eq (ht.refines.inv.insertTime _),
          Adaptation.samples_insertTime ht.refines.inv]
        unfold Samples.insertTime
        rw [hsamples]
        have hall : (e.g.marks.tsEnd :: h.times.take arrSize).Pairwise (· ≥ ·) :=
          .cons hwindow hsorted
        refine intervals_nonneg (hall.sublist (List.take_sublist _ _)) ?_
        intro t htake
        rcases List.mem_cons.mp (List.mem_of_mem_take htake) with rfl | hold
        · exact hlong
        · exact (hwindow t hold).trans_lt hlong
      · rw [Adaptation.intervals_eq ht.refines.inv, hsamples]
        exact intervals_nonneg hsorted fun t htake => (hwindow t htake).trans_lt hlong
    · have hlt := hclosable.2.2
      unfold Adaptation.fallbackTau Adaptation.interval upperTau
      rw [Int.bmod_eq_of_le (by omega) (by omega)]
      split
      · exact Int.tdiv_nonneg (by omega) (by omega)
      · omega
  | _ => cases hmem

/-! ## Runs -/

/-- The history after an event. -/
def historyLog (c : Codec σ β) (T : Tables) (r : Role) (e : Endpoint σ β) (ev : EndpointEvent)
    (_ : Endpoint σ β) (h : History) : History :=
  (eventCalls c T r e ev).foldl History.call h

/-- From a state whose times are in order, under a clock that does not go back. -/
theorem along_intervalsInOrder (es : List EndpointEvent) (ht : Timed now e h)
    (hclock : (now :: es.filterMap clockReading).Pairwise (· ≤ ·)) :
    Transition.Along (Transition.logStep (endpointStep c T r) (historyLog c T r))
      (IntervalsInOrder c T r) (e, h) es := by
  induction es generalizing now e h with
  | nil => trivial
  | cons ev es ih =>
    rintro ⟨e1, h1⟩ hstep
    obtain ⟨hs, rfl⟩ := Transition.logStep_eq_some.mp hstep
    refine ⟨ht.intervalsInOrder hs _, ?_⟩
    cases hread : clockReading ev with
    | none =>
      rw [List.filterMap_cons_none hread] at hclock
      have hnext := ht.endpointStep (fun t htime => by rw [hread] at htime; cases htime) hs
      rw [hread] at hnext
      exact ih hnext hclock
    | some t =>
      rw [List.filterMap_cons_some hread] at hclock
      have hle : now ≤ t := List.rel_of_pairwise_cons hclock List.mem_cons_self
      have hnext := ht.endpointStep
        (fun t' htime => by rw [hread] at htime; exact Option.some.inj htime ▸ hle) hs
      rw [hread] at hnext
      exact ih hnext hclock.of_cons

/-- **Measured intervals are never negative.**  In every run of either end whose readings of the
clock do not decrease, the times are in order at every call of `update_tau_interval`. -/
theorem measured_intervals_nonneg (c : Codec σ β) (T : Tables) (r : Role) (snd : σ)
    (es : List EndpointEvent) (hclock : (es.filterMap clockReading).Pairwise (· ≤ ·)) :
    Transition.Along (Transition.logStep (endpointStep c T r) (historyLog c T r))
      (IntervalsInOrder c T r) ({ pkt := { snd := snd } }, {}) es :=
  along_intervalsInOrder es (timed_init snd) (.cons (fun _ _ => Nat.zero_le _) hclock)

deriving instance DecidableEq for AdaptCall

/-- A csbuflo page with two full writes and then a packet from the other end. -/
def measuredPage : List EndpointEvent :=
  let data := EndpointEvent.data 0 (94 :: List.replicate 700 0)
  [.socks (urlRequest 97), data, .slot (openSlot 10000), data, .slot (openSlot 20000),
    .packet 25000 [94] (fun _ => 0), data]

/-- The slot after it closes the interval, with two recorded times. -/
theorem measured_intervals_nonneg_measuredPage :
    ∃ x, Transition.run (Transition.logStep (endpointStep lengthCodec noTables .client)
        (historyLog lengthCodec noTables .client)) ({ pkt := { snd := () } }, {})
        measuredPage = some x ∧
      .updateTauInterval 10000 25000 0 true ∈
        eventCalls lengthCodec noTables .client x.1 (.slot (openSlot 30000)) ∧
      x.2.times = [20000, 10000] ∧ ∀ iv ∈ x.1.adapt.intervals, 0 ≤ iv := by
  obtain ⟨x, hx, e', hstep, hmem, htimes⟩ : ∃ x, Transition.run (Transition.logStep
      (endpointStep lengthCodec noTables .client) (historyLog lengthCodec noTables .client))
        ({ pkt := { snd := () } }, {}) measuredPage = some x ∧
      ∃ e', endpointStep lengthCodec noTables .client x.1 (.slot (openSlot 30000)) = some e' ∧
      .updateTauInterval 10000 25000 0 true ∈
        eventCalls lengthCodec noTables .client x.1 (.slot (openSlot 30000)) ∧
      x.2.times = [20000, 10000] := by
    decide +kernel
  have hall := measured_intervals_nonneg lengthCodec noTables .client ()
    (measuredPage ++ [.slot (openSlot 30000)]) (by decide)
  have hlast := hall.last hx (Transition.logStep_eq_some.mpr ⟨hstep, rfl⟩)
  obtain ⟨-, -, hintervals⟩ := hlast.2 _ _ _ _ hmem
  exact ⟨x, hx, hmem, htimes, (hintervals (by decide)).1⟩

end CSBuFLO
