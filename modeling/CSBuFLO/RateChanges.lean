/-
# How often the rate changes

The period of csbuflo mode is assigned in the send loops: from `update_tau_median`, when the total
of bytes sent passes the boundary, and back to `INITIAL_TAU` by an unload event, by the change from
transcript to csbuflo mode and at the end of a csbuflo page.  The last two reset the boundary as
well.

* `Adaptation.Live` : the samples that are waiting for a median lie between `LOWER_TAU` and
  `UPPER_TAU`, so that the median is one of four powers of two;
* `rate_decideSlot` : the period and the boundary change only where the total is set to zero;
* `rate_changes_rarely` : what follows for every run of either end.

A run carries a log of the updates since the boundary was reset and since the page started.
-/
import CSBuFLO.Median
import CSBuFLO.PageBudget
import CSBuFLO.SentBytes

namespace CSBuFLO

variable {σ β : Type}

/-! ## The samples -/

/-- `comp_long`: a difference of two `long`s, returned as an `int`. -/
def compLong (x y : ℤ) : ℤ := toInt (x - y)

namespace Adaptation

/-- The indices fit the sizes, and the samples waiting for a median are clamped. -/
structure Live (a : Adaptation) : Prop extends Inv a where
  clamped : ∀ i < a.tauSize, lowerTau ≤ a.tauArr i ∧ a.tauArr i ≤ upperTau

theorem live_init : Live {} := ⟨inv_init, fun _ hi => absurd hi (Nat.not_lt_zero _)⟩

variable {a : Adaptation}

theorem clampTau_bounds (tau : ℤ) : lowerTau ≤ clampTau tau ∧ clampTau tau ≤ upperTau := by
  rw [clampTau_eq]
  exact ⟨le_max_left _ _, max_le (by decide) (min_le_left _ _)⟩

/-- `comp_long` compares the samples: their differences fit an `int`. -/
theorem Live.compLong_eq (h : a.Live) {i j : ℕ} (hi : i < a.tauSize) (hj : j < a.tauSize) :
    compLong (a.tauArr i) (a.tauArr j) = a.tauArr i - a.tauArr j := by
  obtain ⟨hlo, hhi⟩ := h.clamped i hi
  obtain ⟨hlo', hhi'⟩ := h.clamped j hj
  unfold lowerTau at hlo hlo'
  unfold upperTau at hhi hhi'
  unfold compLong toInt
  exact Int.bmod_eq_of_le (by omega) (by omega)

theorem Live.insertTime (h : a.Live) (time : ℕ) : (a.insertTime time).Live :=
  ⟨h.toInv.insertTime time, h.clamped⟩

theorem Live.clearTimes (h : a.Live) : Live { a with timeIndex := 0, timeSize := 0 } :=
  ⟨h.toInv.clearTimes, h.clamped⟩

/-- Storing a sample. -/
theorem Live.pushTau (h : a.Live) (tau : ℤ) : (a.pushTau tau).Live := by
  refine ⟨h.toInv.pushTau tau, ?_⟩
  intro i hi
  show lowerTau ≤ Function.update a.tauArr a.tauIndex (clampTau tau) i ∧
    Function.update a.tauArr a.tauIndex (clampTau tau) i ≤ upperTau
  by_cases hnew : i = a.tauIndex
  · rw [hnew, Function.update_self]
    exact clampTau_bounds tau
  · rw [Function.update_of_ne hnew]
    refine h.clamped i ?_
    -- below `ARRSIZE` the new sample is the last one
    change i < (if a.tauSize < arrSize then a.tauSize + 1 else a.tauSize) at hi
    split at hi
    · rename_i hlt
      have hindex := h.tau hlt
      omega
    · exact hi

/-- Storing the samples of an interval. -/
theorem Live.foldl_pushTau (f : ℤ → ℤ) (ivs : List ℤ) (h : a.Live) :
    (ivs.foldl (fun a iv => a.pushTau (f iv)) a).Live := by
  induction ivs generalizing a with
  | nil => exact h
  | cons iv ivs ih => exact ih (h.pushTau (f iv))

theorem Live.updateTauInterval (h : a.Live) (tsStart tsEnd : ℕ) (real : ℤ) (isClient : Bool) :
    (a.updateTauInterval tsStart tsEnd real isClient).Live := by
  unfold Adaptation.updateTauInterval
  split
  · exact h
  · dsimp only
    have hinsert : (if real > 0 then a.insertTime tsEnd else a).Live := by
      split
      · exact h.insertTime tsEnd
      · exact h
    generalize (if real > 0 then a.insertTime tsEnd else a) = a1 at hinsert
    split
    · exact hinsert.clearTimes.pushTau _
    · exact hinsert.clearTimes.foldl_pushTau _ _

/-- After a median there are no samples. -/
theorem Live.updateTauMedian (h : a.Live) (tau boundary total : ℤ) :
    (a.updateTauMedian tau boundary total).2.2.Live := by
  refine ⟨(samples_updateTauMedian h.toInv tau boundary total).1, ?_⟩
  unfold Adaptation.updateTauMedian
  split
  · exact h.clamped
  · exact fun i hi => absurd hi (Nat.not_lt_zero i)

/-- A power of two below a clamped sample. -/
theorem pow_log_mem {x : ℤ} (hlo : lowerTau ≤ x) (hhi : x ≤ upperTau) :
    (2 : ℤ) ^ Nat.log 2 x.toNat ∈ ([4096, 8192, 16384, 32768] : List ℤ) := by
  unfold lowerTau at hlo
  unfold upperTau at hhi
  have hlower : 12 ≤ Nat.log 2 x.toNat := by
    refine Nat.le_log_of_pow_le (by decide) ?_
    norm_num
    omega
  have hupper : Nat.log 2 x.toNat < 16 := by
    refine Nat.log_lt_of_lt_pow (by omega) ?_
    norm_num
    omega
  generalize Nat.log 2 x.toNat = n at hlower hupper
  interval_cases n <;> decide

/-- **The median is one of four periods.** -/
theorem Live.median_mem (h : a.Live) (tau : ℤ) {boundary total : ℤ} (hle : boundary ≤ total) :
    (a.updateTauMedian tau boundary total).1 ∈ ([4096, 8192, 16384, 32768] : List ℤ) := by
  unfold Adaptation.updateTauMedian
  rw [if_neg (not_lt.mpr hle)]
  dsimp only
  split
  · decide
  · rename_i hsize
    -- the element in the middle of the sorted samples is one of the samples
    have hlen : (((List.range a.tauSize).map a.tauArr).mergeSort
        (fun x y => decide (x ≤ y))).length = a.tauSize := by
      rw [List.length_mergeSort, List.length_map, List.length_range]
    have hlt : a.tauSize / 2 < (((List.range a.tauSize).map a.tauArr).mergeSort
        (fun x y => decide (x ≤ y))).length := by
      omega
    rw [List.getD_eq_getElem _ _ hlt]
    have hmem := (List.mergeSort_perm _ _).mem_iff.mp (List.getElem_mem hlt)
    obtain ⟨i, hi, heq⟩ := List.mem_map.mp hmem
    rw [← heq]
    obtain ⟨hlo, hhi⟩ := h.clamped i (List.mem_range.mp hi)
    exact pow_log_mem hlo hhi

end Adaptation

/-! ## The slot -/

/-- What a slot has counted once its poll has returned: the bytes sent, and the state with the new
totals.  None if the slot does not poll. -/
def counted (c : Codec σ β) (T : Tables) (r : Role) (inp : SlotInput) (e : Endpoint σ β) :
    Option (ℤ × Endpoint σ β) :=
  let e := unloadStep inp.now e
  let incoming : ℤ :=
    if (e.pkt.outputLen : ℤ) > e.loop.outbufRemain then e.pkt.outputLen - e.loop.outbufRemain
    else 0
  if shouldSend r inp e then
    match decideSlot c T r inp e with
    | none => none
    | some e1 =>
      match packetWritePoll c inp.poll e1.g e1.pkt with
      | .returned (g, p) =>
        let sent := sentBytes e1.pkt.outputLen { e1 with g := g, pkt := p }
        some (sent, noteSent sent incoming { e1 with g := g, pkt := p })
      | _ => none
  else none

/-- The state in which a slot calls `update_tau_median`, after the bookkeeping of intervals. -/
def medianCall (c : Codec σ β) (T : Tables) (r : Role) (inp : SlotInput) (e : Endpoint σ β) :
    Option (Endpoint σ β) :=
  (counted c T r inp e).bind fun x =>
    if x.2.g.stmode = .csbuflo then
      some (if (unloadStep inp.now e).pkt.outputLen ≠ 0 then
        noteInterval r inp.curTs x.1 x.2.g.paddedJunk x.2 else x.2)
    else none

variable {T : Tables} {c : Codec σ β} {e e' : Endpoint σ β} {inp : SlotInput} {r : Role}

/-- What a slot has counted, it has decided and polled before. -/
theorem counted_eq_some {e2 : Endpoint σ β} {sent : ℤ} (h : counted c T r inp e = some (sent, e2)) :
    shouldSend r inp (unloadStep inp.now e) = true ∧ ∃ e1 g p incoming,
      decideSlot c T r inp (unloadStep inp.now e) = some e1 ∧
      packetWritePoll c inp.poll e1.g e1.pkt = .returned (g, p) ∧
      e2 = noteSent sent incoming { e1 with g := g, pkt := p } := by
  unfold counted at h
  dsimp only at h
  split at h
  · rename_i hsend
    refine ⟨hsend, ?_⟩
    split at h
    · cases h
    · rename_i e1 hdecide
      split at h
      · rename_i g p hpoll
        obtain ⟨rfl, rfl⟩ := Prod.mk.inj (Option.some.inj h)
        exact ⟨e1, g, p, _, hdecide, hpoll, rfl⟩
      · cases h
  · cases h

/-- **How a slot ends**: it is skipped, it counts what was sent, or in csbuflo mode it adapts the
period after that. -/
theorem slot_cases (h : slot c T r inp e = .returned e') :
    (shouldSend r inp (unloadStep inp.now e) = false ∧ counted c T r inp e = none ∧
      e' = skipSlot (unloadStep inp.now e)) ∨
    (∃ sent, counted c T r inp e = some (sent, e') ∧ e'.g.stmode ≠ .csbuflo) ∨
    ∃ d, medianCall c T r inp e = some d ∧ e' = adaptTau d := by
  unfold medianCall counted
  unfold slot at h
  dsimp only at h ⊢
  generalize unloadStep inp.now e = e0 at h ⊢
  generalize (if (e0.pkt.outputLen : ℤ) > e0.loop.outbufRemain then
    (e0.pkt.outputLen : ℤ) - e0.loop.outbufRemain else 0) = incoming at h ⊢
  split at h
  · rename_i hsend
    rw [if_pos hsend]
    right
    generalize decideSlot c T r inp e0 = decided at h ⊢
    cases decided with
    | none => cases h
    | some e1 =>
      dsimp only at h ⊢
      generalize packetWritePoll c inp.poll e1.g e1.pkt = polled at h ⊢
      cases polled with
      | fatal => cases h
      | looping x => cases h
      | returned x =>
        dsimp only at h ⊢
        rw [← Outcome.returned.inj h]
        unfold accountSent
        dsimp only
        split
        · rename_i hmode
          refine Or.inr ⟨_, ?_, rfl⟩
          rw [Option.bind_some, if_pos hmode]
        · rename_i hmode
          exact Or.inl ⟨_, rfl, hmode⟩
  · rename_i hsend
    rw [if_neg hsend]
    exact Or.inl ⟨Bool.eq_false_of_not_eq_true hsend, rfl, (Outcome.returned.inj h).symm⟩

/-! ## Where the period and the boundary are reset -/

/-- The end of the transcript resets the period and the boundary if it changes to csbuflo
mode. -/
theorem rate_endTranscript {n : ℕ} (h : endTranscript c r inp n e = some e')
    (hmode : e.g.stmode = .supertrace) :
    e'.rate = if e'.g.stmode = .csbuflo then e.rate.call .idleReset else e.rate := by
  obtain ⟨e1, h1, h2⟩ := Option.bind_eq_some_iff.mp h
  obtain ⟨_, _, _, rfl⟩ := queueTend_eq_some h1
  rcases leaveTranscript_cases h2 with hnormal | rfl | ⟨idle, rfl⟩
  · have hleft := stmode_switchToNormal hnormal
    have hrate := rate_switchToNormal hnormal
    rw [hleft, if_neg (by decide)]
    exact hrate
  · rfl
  · -- still in transcript mode
    rw [if_neg (by rw [hmode]; decide)]
    rfl

theorem rate_transcriptSlot {n : ℕ} (h : transcriptSlot c T r inp n e = some e')
    (hmode : e.g.stmode = .supertrace) :
    e'.rate = if e'.g.stmode = .csbuflo then e.rate.call .idleReset else e.rate := by
  have hplan : (planItem T r inp e).2.rate = e.rate := by
    rw [planItem_eq]
    rfl
  rw [transcriptSlot_eq] at h
  split at h
  · have hend := rate_endTranscript h ((stmode_planItem T r inp e).trans hmode)
    rwa [hplan] at hend
  · rw [← Option.some.inj h, stmode_scheduleItem, stmode_planItem, hmode, if_neg (by decide),
      scheduleItem_eq]
    exact hplan

theorem rate_csbufloSlot {n : ℕ} (h : csbufloSlot c r inp n e = some e') :
    e'.rate = if csbufloIdle inp n e && pageOver r n e.loop then e.rate.call .idleReset
      else e.rate := by
  have hbudget : ∀ e1 : Endpoint σ β, (idleBudget n e1).rate = e1.rate := by
    intro e1
    unfold idleBudget
    split <;> rfl
  cases csbufloStep_csbufloSlot h with
  | other _ hidle he =>
    rw [he, hidle]
    rfl
  | busy _ hidle he =>
    rw [he, hidle]
    rfl
  | ends _ hidle hover e1 hleave he =>
    have hreset := rate_leaveCsbuflo hleave
    rw [he, hbudget, hidle, hover]
    exact hreset
  | idle _ hidle hover he =>
    rw [he, hbudget, hidle, hover]
    rfl

/-- **The decision of a slot resets the period and the boundary just where it sets the total to
zero.** -/
theorem rate_decideSlot (h : decideSlot c T r inp e = some e') :
    e'.rate = if resetsTotal c T r inp e then e.rate.call .idleReset else e.rate := by
  obtain ⟨e1, h1, h2⟩ := Option.bind_eq_some_iff.mp h
  have hreset : resetsTotal c T r inp e =
      ((decide (e.g.stmode = .supertrace) && decide (e1.g.stmode = .csbuflo)) ||
        (csbufloIdle inp e.pkt.outputLen e1 && pageOver r e.pkt.outputLen e1.loop)) := by
    unfold resetsTotal
    dsimp only
    rw [h1]
  have hfirst : e1.rate =
      if (decide (e.g.stmode = .supertrace) && decide (e1.g.stmode = .csbuflo)) then
        e.rate.call .idleReset else e.rate := by
    split at h1
    · rename_i hmode
      rw [rate_transcriptSlot h1 hmode, decide_eq_true hmode, Bool.true_and]
      simp only [decide_eq_true_eq]
    · rename_i hmode
      rw [decide_eq_false hmode, Bool.false_and, if_neg Bool.false_ne_true, Option.some.inj h1]
  rw [rate_csbufloSlot h2, hfirst, hreset]
  -- a second reset changes nothing
  cases decide (e.g.stmode = .supertrace) && decide (e1.g.stmode = .csbuflo) <;>
    cases csbufloIdle inp e.pkt.outputLen e1 && pageOver r e.pkt.outputLen e1.loop <;> rfl

/-- A slot that resets the boundary in csbuflo mode leaves that mode. -/
theorem stmode_of_resetsTotal (h : decideSlot c T r inp e = some e') (hmode : e.g.stmode = .csbuflo)
    (hreset : resetsTotal c T r inp e = true) : e'.g.stmode = .normal := by
  have hne : e.g.stmode ≠ .supertrace := by
    rw [hmode]
    decide
  obtain ⟨e1, h1, h2⟩ := Option.bind_eq_some_iff.mp h
  unfold resetsTotal at hreset
  dsimp only at hreset
  rw [h1] at hreset
  rw [if_neg hne] at h1
  obtain rfl := Option.some.inj h1
  dsimp only at hreset
  rw [decide_eq_false hne, Bool.false_and, Bool.false_or, Bool.and_eq_true_iff] at hreset
  cases csbufloStep_csbufloSlot h2 with
  | other hother => exact absurd hmode hother
  | busy _ hidle =>
    rw [hidle] at hreset
    exact absurd hreset.1 Bool.false_ne_true
  | ends _ _ _ e2 hleave he =>
    rw [he, stmode_idleBudget]
    cases r with
    | client =>
      obtain ⟨e3, -, h3⟩ := Option.bind_eq_some_iff.mp hleave
      exact stmode_switchToNormal h3
    | server =>
      have h3 : switchToNormal c .server _ = some e2 := hleave
      exact stmode_switchToNormal h3
  | idle _ _ hover =>
    rw [hover] at hreset
    exact absurd hreset.2 Bool.false_ne_true

/-! ## The interval bookkeeping -/

/-- Closing an interval and recording send times leaves the period, the boundary and the totals
alone. -/
theorem noteInterval_frame (r : Role) (curTs : ℕ) (sent junk : ℤ) (e : Endpoint σ β) :
    (noteInterval r curTs sent junk e).loop.tau = e.loop.tau ∧
      (noteInterval r curTs sent junk e).loop.boundary = e.loop.boundary ∧
      (noteInterval r curTs sent junk e).loop.totalSentBytes = e.loop.totalSentBytes ∧
      (noteInterval r curTs sent junk e).g.stmode = e.g.stmode := by
  obtain ⟨_, _, _, _, _, heq⟩ := noteInterval_eq r curTs sent junk e
  rw [heq]
  exact ⟨rfl, rfl, rfl, rfl⟩

/-- The rings stay in order. -/
theorem live_noteInterval (r : Role) (curTs : ℕ) (sent junk : ℤ) (h : e.adapt.Live) :
    (noteInterval r curTs sent junk e).adapt.Live := by
  have hclose : (closeInterval r e).adapt.Live := by
    unfold closeInterval
    split
    · exact h.updateTauInterval _ _ _ _
    · exact h
  have hopen : (openInterval curTs (closeInterval r e)).adapt = (closeInterval r e).adapt := by
    unfold openInterval
    split <;> rfl
  unfold noteInterval countReal
  generalize (if sent > junk then sent - junk else 0) = real
  dsimp only
  split
  · show ((openInterval curTs (closeInterval r e)).adapt.insertTime curTs).Live
    rw [hopen]
    exact hclose.insertTime curTs
  · show (openInterval curTs (closeInterval r e)).adapt.Live
    rw [hopen]
    exact hclose

/-! ## Events that are no slots -/

/-! ## One slot -/

/-- Whether a slot resets the boundary. -/
def resetsBoundary (c : Codec σ β) (T : Tables) (r : Role) (inp : SlotInput) (e : Endpoint σ β) :
    Bool :=
  shouldSend r inp (unloadStep inp.now e) && resetsTotal c T r inp (unloadStep inp.now e)

/-- Whether a slot takes a new period from `update_tau_median`. -/
def updatesTau (c : Codec σ β) (T : Tables) (r : Role) (inp : SlotInput) (e : Endpoint σ β) :
    Bool :=
  match medianCall c T r inp e with
  | none => false
  | some d => decide (d.loop.boundary ≤ d.loop.totalSentBytes)

/-- What an unload event does to the rate. -/
theorem rate_unloadStep (now : ℕ) (e : Endpoint σ β) :
    (unloadStep now e).adapt = e.adapt ∧
      ((unloadStep now e).loop.tau = e.loop.tau ∨ (unloadStep now e).loop.tau = initialTau) ∧
      (unloadStep now e).loop.boundary = e.loop.boundary := by
  unfold unloadStep
  split_ifs
  · exact ⟨rfl, Or.inr rfl, rfl⟩
  · exact ⟨rfl, Or.inl rfl, rfl⟩
  · exact ⟨rfl, Or.inl rfl, rfl⟩

/-- The rate once a slot has counted what it sent. -/
theorem rate_counted {e2 : Endpoint σ β} {sent : ℤ} (h : counted c T r inp e = some (sent, e2)) :
    e2.adapt = e.adapt ∧ (e2.loop.tau = e.loop.tau ∨ e2.loop.tau = initialTau) ∧
      e2.loop.boundary = if resetsBoundary c T r inp e then initialBoundary
        else e.loop.boundary := by
  obtain ⟨hsend, e1, g, p, incoming, hdec, -, rfl⟩ := counted_eq_some h
  obtain ⟨hadapt, htau, hboundary⟩ := rate_unloadStep inp.now e
  have hrate := rate_decideSlot hdec
  unfold resetsBoundary
  rw [hsend, Bool.true_and]
  cases hreset : resetsTotal c T r inp (unloadStep inp.now e) with
  | true =>
    rw [hreset, if_pos rfl] at hrate
    exact ⟨(congrArg Rate.adapt hrate).trans hadapt, Or.inr (congrArg Rate.tau hrate),
      congrArg Rate.boundary hrate⟩
  | false =>
    rw [hreset, if_neg Bool.false_ne_true] at hrate
    refine ⟨(congrArg Rate.adapt hrate).trans hadapt, ?_,
      (congrArg Rate.boundary hrate).trans hboundary⟩
    exact htau.imp (congrArg Rate.tau hrate).trans (congrArg Rate.tau hrate).trans

/-- The state in which `update_tau_median` is called. -/
structure MedianCall (c : Codec σ β) (T : Tables) (r : Role) (inp : SlotInput)
    (e d : Endpoint σ β) : Prop where
  live : e.adapt.Live → d.adapt.Live
  tau : d.loop.tau = e.loop.tau ∨ d.loop.tau = initialTau
  boundary : d.loop.boundary =
    if resetsBoundary c T r inp e then initialBoundary else e.loop.boundary
  mode : d.g.stmode = .csbuflo

theorem medianCall_spec {d : Endpoint σ β} (h : medianCall c T r inp e = some d) :
    MedianCall c T r inp e d := by
  obtain ⟨⟨sent, e2⟩, hcount, h⟩ := Option.bind_eq_some_iff.mp h
  obtain ⟨hadapt, htau, hboundary⟩ := rate_counted hcount
  dsimp only at h
  split at h
  · rename_i hmode
    rw [← Option.some.inj h]
    split
    · obtain ⟨htau', hboundary', -, hmode'⟩ :=
        noteInterval_frame r inp.curTs sent e2.g.paddedJunk e2
      refine ⟨fun hlive => live_noteInterval r inp.curTs sent e2.g.paddedJunk (hadapt ▸ hlive), ?_,
        hboundary'.trans hboundary, hmode'.trans hmode⟩
      rw [htau']
      exact htau
    · exact ⟨fun hlive => hadapt ▸ hlive, htau, hboundary, hmode⟩
  · cases h

/-- What a slot does to the rate: a new period from the median, and the boundary doubled, or the
old or the initial period. -/
structure RateStep (c : Codec σ β) (T : Tables) (r : Role) (inp : SlotInput)
    (e e' : Endpoint σ β) : Prop where
  live : e'.adapt.Live
  kept : updatesTau c T r inp e = false →
    (e'.loop.tau = e.loop.tau ∨ e'.loop.tau = initialTau) ∧
      e'.loop.boundary = if resetsBoundary c T r inp e then initialBoundary else e.loop.boundary
  updated : updatesTau c T r inp e = true →
    e'.loop.tau ∈ ([4096, 8192, 16384, 32768] : List ℤ) ∧ e'.g.stmode = .csbuflo ∧
      e'.loop.boundary =
        (if resetsBoundary c T r inp e then initialBoundary else e.loop.boundary) * 2 ∧
      (if resetsBoundary c T r inp e then initialBoundary else e.loop.boundary) ≤
        e'.loop.totalSentBytes

/-- **Every slot is such a step.** -/
theorem rateStep_slot (h : slot c T r inp e = .returned e') (hlive : e.adapt.Live) :
    RateStep c T r inp e e' := by
  have hnone : medianCall c T r inp e = none → updatesTau c T r inp e = false := by
    intro hm
    unfold updatesTau
    rw [hm]
  rcases slot_cases h with ⟨hsend, hcount, rfl⟩ | ⟨sent, hcount, hmode⟩ | ⟨d, hd, rfl⟩
  · have hm : medianCall c T r inp e = none := by
      unfold medianCall
      rw [hcount]
      rfl
    obtain ⟨hadapt, htau, hboundary⟩ := rate_unloadStep inp.now e
    have hskip : (skipSlot (unloadStep inp.now e)).rate = (unloadStep inp.now e).rate := by
      unfold skipSlot
      split <;> rfl
    have hno : resetsBoundary c T r inp e = false := by
      unfold resetsBoundary
      rw [hsend, Bool.false_and]
    constructor
    case live =>
      rw [show (skipSlot (unloadStep inp.now e)).adapt = e.adapt from
        (congrArg Rate.adapt hskip).trans hadapt]
      exact hlive
    case kept =>
      intro _
      rw [hno, if_neg Bool.false_ne_true]
      exact ⟨htau.imp (congrArg Rate.tau hskip).trans (congrArg Rate.tau hskip).trans,
        (congrArg Rate.boundary hskip).trans hboundary⟩
    case updated =>
      intro hup
      rw [hnone hm] at hup
      cases hup
  · have hm : medianCall c T r inp e = none := by
      unfold medianCall
      rw [hcount, Option.bind_some, if_neg hmode]
    obtain ⟨hadapt, htau, hboundary⟩ := rate_counted hcount
    refine ⟨hadapt ▸ hlive, fun _ => ⟨htau, hboundary⟩, fun hup => ?_⟩
    rw [hnone hm] at hup
    cases hup
  · have hcall := medianCall_spec hd
    have hup : updatesTau c T r inp e = decide (d.loop.boundary ≤ d.loop.totalSentBytes) := by
      unfold updatesTau
      rw [hd]
    constructor
    case live => exact (hcall.live hlive).updateTauMedian _ _ _
    case kept =>
      intro hno
      rw [← hcall.boundary]
      rw [hup, decide_eq_false_iff_not, not_le] at hno
      have hsame : d.adapt.updateTauMedian d.loop.tau d.loop.boundary d.loop.totalSentBytes =
          (d.loop.tau, d.loop.boundary, d.adapt) := if_pos hno
      unfold adaptTau
      rw [hsame]
      exact ⟨hcall.tau, rfl⟩
    case updated =>
      intro hyes
      rw [← hcall.boundary]
      rw [hup, decide_eq_true_eq] at hyes
      have hdouble : (d.adapt.updateTauMedian d.loop.tau d.loop.boundary
          d.loop.totalSentBytes).2.1 = d.loop.boundary * 2 := by
        unfold Adaptation.updateTauMedian
        rw [if_neg (not_lt.mpr hyes)]
      exact ⟨(hcall.live hlive).median_mem _ hyes, hcall.mode, hdouble, hyes⟩

/-! ## Runs -/

/-- The updates of the period since the boundary was reset and since the page started, the number
of slots of the page that changed the period, and the total at the last update. -/
structure RateLog where
  updates : ℕ := 0
  pageUpdates : ℕ := 0
  pageChanges : ℕ := 0
  lastTotal : ℤ := 0

/-- The log after an event. -/
def rateLog (c : Codec σ β) (T : Tables) (r : Role) (e : Endpoint σ β) (ev : EndpointEvent)
    (e' : Endpoint σ β) (l : RateLog) : RateLog :=
  match ev with
  | .slot inp =>
    let k := if resetsBoundary c T r inp e then 0 else l.updates
    let changes := if e'.loop.tau = e.loop.tau then l.pageChanges else l.pageChanges + 1
    if updatesTau c T r inp e then
      { updates := k + 1
        pageUpdates := l.pageUpdates + 1
        pageChanges := changes
        lastTotal := e'.loop.totalSentBytes }
    else { l with updates := k, pageChanges := changes }
  | _ => if e'.page = e.page then l else { l with pageUpdates := 0, pageChanges := 0 }

/-- The invariant.  Updates happen in csbuflo mode only, which a page enters once: so the updates
of a page are among those since the boundary was reset (`csbuflo`).  An unload event or a reset
that changes the period makes it the initial one, so that each of these needs an update before it
(`changes`). -/
structure RateInv (e : Endpoint σ β) (l : RateLog) : Prop where
  live : e.adapt.Live
  tau : e.loop.tau ∈ ([4096, 8192, 16384, 32768] : List ℤ)
  boundary : e.loop.boundary = initialBoundary * 2 ^ l.updates
  supertrace : e.g.stmode = .supertrace → l.pageUpdates = 0
  csbuflo : e.g.stmode = .csbuflo → l.pageUpdates ≤ l.updates
  page : 0 < l.pageUpdates → initialBoundary * 2 ^ (l.pageUpdates - 1) ≤ l.lastTotal
  changes : l.pageChanges + (if e.loop.tau = initialTau then 0 else 1) ≤ 2 * l.pageUpdates + 1

theorem rateInv_init (snd : σ) : RateInv ({ pkt := { snd := snd } } : Endpoint σ β) {} where
  live := Adaptation.live_init
  tau := by
    show initialTau ∈ ([4096, 8192, 16384, 32768] : List ℤ)
    decide
  boundary := rfl
  supertrace := fun _ => rfl
  csbuflo := fun _ => le_rfl
  page := fun h => absurd h (lt_irrefl 0)
  changes := Nat.zero_le _

/-- In normal mode a slot stays there. -/
theorem normal_of_reflTransGen {k k' : Ctl} (h : Relation.ReflTransGen (CtlStep r) k k')
    (hk : k.stmode = .normal) : k'.stmode = .normal := by
  refine Transition.inv_reflTransGen (I := fun k => k.stmode = .normal) ?_ h hk
  intro k1 k2 hmode hstep
  cases hstep with
  | tend hsuper =>
    rw [hmode] at hsuper
    cases hsuper
  | toCsbuflo hsuper =>
    rw [hmode] at hsuper
    cases hsuper
  | toNormal hfrom =>
    rcases hfrom with ⟨hsuper, -⟩ | hcsbuflo
    · rw [hmode] at hsuper
      cases hsuper
    · rw [hmode] at hcsbuflo
      cases hcsbuflo
  | paddingdone => exact hmode

/-- The boundary is not reset while csbuflo mode goes on. -/
theorem not_resetsBoundary (h : slot c T r inp e = .returned e') (hmode : e.g.stmode = .csbuflo)
    (hmode' : e'.g.stmode = .csbuflo) : resetsBoundary c T r inp e = false := by
  by_contra hreset
  rw [Bool.not_eq_false] at hreset
  obtain ⟨hsend, htotal⟩ := (Bool.and_eq_true_iff).mp hreset
  rcases slot_eq_returned h with ⟨hskip, -⟩ | ⟨-, e1, g, p, incoming, hdec, hpoll, rfl⟩
  · rw [hsend] at hskip
    cases hskip
  · have hmode0 : (unloadStep inp.now e).g.stmode = .csbuflo :=
      (sameScript_unloadStep inp.now e).2.2.1.trans hmode
    have hnormal := stmode_of_resetsTotal hdec hmode0 htotal
    have hctl := (ctl_accountSent r inp (unloadStep inp.now e).pkt.outputLen incoming
      e1.pkt.outputLen { e1 with g := g, pkt := p }).trans (ctl_packetWritePoll hpoll)
    have hsame := (congrArg Ctl.stmode hctl).symm.trans hmode'
    rw [show e1.ctl.stmode = .normal from hnormal] at hsame
    cases hsame

/-- The updates of the page are among those since the last reset of the boundary: there is no
reset while csbuflo mode goes on. -/
theorem RateInv.pageUpdates_le {l : RateLog} (h : RateInv e l)
    (hs : slot c T r inp e = .returned e') (hmode' : e'.g.stmode = .csbuflo) :
    l.pageUpdates ≤ if resetsBoundary c T r inp e then 0 else l.updates := by
  cases hmode : e.g.stmode with
  | normal =>
    have hnormal : e'.g.stmode = .normal := normal_of_reflTransGen (slot_ctl hs) hmode
    rw [hnormal] at hmode'
    cases hmode'
  | supertrace =>
    rw [h.supertrace hmode]
    exact Nat.zero_le _
  | csbuflo =>
    rw [not_resetsBoundary hs hmode hmode', if_neg Bool.false_ne_true]
    exact h.csbuflo hmode

/-- **A slot keeps the invariant.** -/
theorem RateInv.slot {l : RateLog} (h : RateInv e l) (hs : slot c T r inp e = .returned e') :
    RateInv e' (rateLog c T r e (.slot inp) e' l) := by
  have hrate := rateStep_slot hs h.live
  have hctl := slot_ctl hs
  have hboundary : (if resetsBoundary c T r inp e then initialBoundary else e.loop.boundary) =
      initialBoundary * 2 ^ (if resetsBoundary c T r inp e then 0 else l.updates) := by
    split
    · rw [pow_zero, mul_one]
    · exact h.boundary
  have hkeep := h.pageUpdates_le hs
  have hsuper : e'.g.stmode = .supertrace → l.pageUpdates = 0 := by
    intro hmode'
    refine h.supertrace ?_
    by_contra hmode
    exact (ne_supertrace_of_reflTransGen hctl hmode).1 hmode'
  have hchanges := h.changes
  unfold rateLog
  dsimp only
  cases hup : updatesTau c T r inp e with
  | false =>
    obtain ⟨htau, hbound⟩ := hrate.kept hup
    rw [hboundary] at hbound
    rw [if_neg Bool.false_ne_true]
    constructor
    case live => exact hrate.live
    case tau =>
      rcases htau with heq | heq
      · rw [heq]
        exact h.tau
      · rw [heq]
        decide
    case boundary => exact hbound
    case supertrace => exact hsuper
    case csbuflo => exact hkeep
    case page => exact h.page
    case changes =>
      dsimp only
      rcases htau with heq | heq
      · rw [heq, if_pos rfl]
        exact hchanges
      · rw [heq, if_pos rfl]
        split_ifs at hchanges ⊢ <;> omega
  | true =>
    obtain ⟨htau, hmode', hbound, htotal⟩ := hrate.updated hup
    rw [hboundary] at hbound htotal
    rw [if_pos rfl]
    constructor
    case live => exact hrate.live
    case tau => exact htau
    case boundary =>
      dsimp only
      rw [hbound, pow_succ, mul_assoc]
    case supertrace =>
      intro hmode
      rw [hmode'] at hmode
      cases hmode
    case csbuflo => exact fun _ => Nat.succ_le_succ (hkeep hmode')
    case page =>
      intro _
      refine le_trans ?_ htotal
      have hpow : (2 : ℤ) ^ l.pageUpdates ≤
          2 ^ (if resetsBoundary c T r inp e then 0 else l.updates) :=
        pow_le_pow_right₀ (by decide) (hkeep hmode')
      exact mul_le_mul_of_nonneg_left hpow (by decide)
    case changes =>
      dsimp only
      split_ifs at hchanges ⊢ <;> omega

/-- **Every event keeps the invariant.** -/
theorem RateInv.endpointStep {ev : EndpointEvent} {l : RateLog} (h : RateInv e l)
    (hs : endpointStep c T r e ev = some e') : RateInv e' (rateLog c T r e ev e' l) := by
  rcases endpointStep_cases hs with ⟨inp, rfl, hslot⟩ | ⟨hno, hflag⟩ | ⟨hpage, hev⟩
  · exact h.slot hslot
  · have hlog : rateLog c T r e ev e' l = l := by
      cases ev with
      | slot inp => exact absurd rfl (hno inp)
      | _ => exact if_pos hflag.page
    have hadapt := (offSlot_endpointStep hs hno).adapt
    rw [hlog]
    exact
      { live := hadapt ▸ h.live
        tau := hflag.loop ▸ h.tau
        boundary := hflag.loop ▸ h.boundary
        supertrace := fun hm => h.supertrace (hflag.stmode.symm.trans hm)
        csbuflo := fun hm => h.csbuflo (hflag.stmode.symm.trans hm)
        page := h.page
        changes := hflag.loop ▸ h.changes }
  · have hno : ∀ inp, ev ≠ .slot inp := by
      rintro inp rfl
      obtain ⟨p, -, hev⟩ | ⟨ts, payload, beyond, u, hev, -⟩ := hev <;> cases hev
    have hlog : rateLog c T r e ev e' l = { l with pageUpdates := 0, pageChanges := 0 } := by
      have hne : e'.page ≠ e.page := by
        rw [hpage.page]
        exact Nat.succ_ne_self _
      cases ev with
      | slot inp => exact absurd rfl (hno inp)
      | _ => exact if_neg hne
    have hadapt := (offSlot_endpointStep hs hno).adapt
    rw [hlog]
    exact
      { live := hadapt ▸ h.live
        tau := hpage.loop ▸ h.tau
        boundary := hpage.loop ▸ h.boundary
        supertrace := fun _ => rfl
        csbuflo := fun _ => Nat.zero_le _
        page := fun hpos => absurd hpos (lt_irrefl 0)
        changes := by
          dsimp only
          split <;> decide }

/-- What a call of `update_tau_median` finds and does: the samples it sorts with `comp_long` are
clamped and compared without overflow, and if it takes a new period, this is the update number
`k` since the boundary was reset and the total is at least `INITIAL_BOUNDARY * 2 ^ (k - 1)`. -/
def MedianInBounds (c : Codec σ β) (T : Tables) (r : Role) (x : Endpoint σ β × RateLog)
    (ev : EndpointEvent) (x' : Endpoint σ β × RateLog) : Prop :=
  ∀ inp d, ev = .slot inp → medianCall c T r inp x.1 = some d →
    (∀ i < d.adapt.tauSize, lowerTau ≤ d.adapt.tauArr i ∧ d.adapt.tauArr i ≤ upperTau) ∧
    (∀ i < d.adapt.tauSize, ∀ j < d.adapt.tauSize,
      compLong (d.adapt.tauArr i) (d.adapt.tauArr j) = d.adapt.tauArr i - d.adapt.tauArr j) ∧
    (d.loop.boundary ≤ d.loop.totalSentBytes → 0 < x'.2.updates ∧
      initialBoundary * 2 ^ (x'.2.updates - 1) ≤ d.loop.totalSentBytes)

/-- **The rate takes four values and changes rarely.**  In every run of either end, with any peer,
clock and kernel: the period is one of four, the samples and indices are in bounds, and after `k`
updates since its last reset the boundary is `INITIAL_BOUNDARY * 2 ^ k`.  Every call of
`update_tau_median` meets `MedianInBounds`.  A page with `k` updates had sent at least
`INITIAL_BOUNDARY * 2 ^ (k - 1)` bytes at the last of them, and at most `2 k + 1` of its slots
changed the period. -/
theorem rate_changes_rarely (c : Codec σ β) (T : Tables) (r : Role) (snd : σ)
    (evs : List EndpointEvent) :
    Transition.Along (Transition.logStep (endpointStep c T r) (rateLog c T r))
        (MedianInBounds c T r) ({ pkt := { snd := snd } }, {}) evs ∧
      ∀ x, Transition.run (Transition.logStep (endpointStep c T r) (rateLog c T r))
          ({ pkt := { snd := snd } }, {}) evs = some x →
        x.1.loop.tau ∈ ([4096, 8192, 16384, 32768] : List ℤ) ∧
        (x.1.adapt.tauSize ≤ arrSize ∧ x.1.adapt.tauIndex < arrSize ∧
          x.1.adapt.timeIndex < arrSize) ∧
        (∀ i < x.1.adapt.tauSize,
          lowerTau ≤ x.1.adapt.tauArr i ∧ x.1.adapt.tauArr i ≤ upperTau) ∧
        (∀ i < x.1.adapt.tauSize, ∀ j < x.1.adapt.tauSize,
          compLong (x.1.adapt.tauArr i) (x.1.adapt.tauArr j) =
            x.1.adapt.tauArr i - x.1.adapt.tauArr j) ∧
        x.1.loop.boundary = initialBoundary * 2 ^ x.2.updates ∧
        (0 < x.2.pageUpdates →
          initialBoundary * 2 ^ (x.2.pageUpdates - 1) ≤ x.2.lastTotal) ∧
        x.2.pageChanges ≤ 2 * x.2.pageUpdates + 1 := by
  have hstep : ∀ x ev x', RateInv x.1 x.2 →
      Transition.logStep (endpointStep c T r) (rateLog c T r) x ev = some x' →
        RateInv x'.1 x'.2 := by
    rintro ⟨e, l⟩ ev ⟨e', l'⟩ hinv hlog
    obtain ⟨hs, rfl⟩ := Transition.logStep_eq_some.mp hlog
    exact hinv.endpointStep hs
  constructor
  · refine Transition.along_of_inv (G := fun _ _ _ => True) (I := fun x => RateInv x.1 x.2) ?_
      (Transition.along_of_forall (fun _ _ _ _ => trivial) _) (rateInv_init snd)
    rintro ⟨e, l⟩ ev ⟨e', l'⟩ hinv - hlog
    have hinv' := hstep _ _ _ hinv hlog
    obtain ⟨hs, rfl⟩ := Transition.logStep_eq_some.mp hlog
    refine ⟨hinv', ?_⟩
    rintro inp d rfl hd
    have hcall := medianCall_spec hd
    have hlive := hcall.live hinv.live
    refine ⟨hlive.clamped, fun i hi j hj => hlive.compLong_eq hi hj, fun hle => ?_⟩
    have hup : updatesTau c T r inp e = true := by
      unfold updatesTau
      rw [hd]
      exact decide_eq_true hle
    have hupdates : (rateLog c T r e (.slot inp) e' l).updates =
        (if resetsBoundary c T r inp e then 0 else l.updates) + 1 := by
      unfold rateLog
      dsimp only
      rw [if_pos hup]
    dsimp only
    rw [hupdates, Nat.add_sub_cancel]
    refine ⟨Nat.succ_pos _, le_trans (le_of_eq ?_) hle⟩
    rw [hcall.boundary]
    split
    · rw [pow_zero, mul_one]
    · exact hinv.boundary.symm
  · intro x hrun
    have hinv := Transition.inv_run (I := fun x => RateInv x.1 x.2) hstep hrun (rateInv_init snd)
    have hchanges := hinv.changes
    exact ⟨hinv.tau, ⟨hinv.live.size, hinv.live.index, hinv.live.timeIndex_lt⟩,
      hinv.live.clamped, fun i hi j hj => hinv.live.compLong_eq hi hj, hinv.boundary, hinv.page,
      by omega⟩

/-- An encoder that keeps the lengths only. -/
def lengthCodec : Codec Unit Unit where
  blockSize := 8
  macLen := 0
  arc4random s n := (List.replicate n 0, s)
  send2 s extraPad payload :=
    some (List.replicate (wireLength 8 0 extraPad payload.length) (), s)
  blockSize_eq := blockSize_eight
  length_arc4random _ _ := List.length_replicate
  length_send2 h := by rw [← (Prod.mk.inj (Option.some.inj h)).1, List.length_replicate]

/-- A page without a trace, and slots until the boundary is passed. -/
def busyPage : List EndpointEvent :=
  .socks (urlRequest 97) :: (List.range 30).map fun i => .slot (openSlot (10000 * (i + 1)))

/-- After 16560 bytes the period is updated for the first time; there are no samples. -/
theorem rate_changes_rarely_busyPage :
    ∃ x, Transition.run (Transition.logStep (endpointStep lengthCodec noTables .client)
        (rateLog lengthCodec noTables .client)) ({ pkt := { snd := () } }, {}) busyPage = some x ∧
      x.2.pageUpdates = 1 ∧ x.1.loop.tau = 32768 ∧ x.1.loop.boundary = 2 * initialBoundary ∧
      initialBoundary ≤ x.2.lastTotal ∧ x.2.pageChanges ≤ 3 := by
  obtain ⟨x, hx, hupdates, hpage, htau⟩ : ∃ x, Transition.run (Transition.logStep
      (endpointStep lengthCodec noTables .client) (rateLog lengthCodec noTables .client))
        ({ pkt := { snd := () } }, {}) busyPage = some x ∧
      x.2.updates = 1 ∧ x.2.pageUpdates = 1 ∧ x.1.loop.tau = 32768 := by
    decide +kernel
  obtain ⟨-, -, -, -, hboundary, htotal, hchanges⟩ :=
    (rate_changes_rarely lengthCodec noTables .client () busyPage).2 x hx
  rw [hupdates, pow_one, mul_comm] at hboundary
  rw [hpage] at htotal hchanges
  exact ⟨x, hx, hpage, htau, hboundary, htotal Nat.one_pos, hchanges⟩

end CSBuFLO
