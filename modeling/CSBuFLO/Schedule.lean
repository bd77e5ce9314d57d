/-
# The schedule of a prepared trace

`split` replaces the times of a trace in place while it still reads them, and looks for the
last valid time only after that.  For a trace whose times do not decrease nothing is lost: the
last positive time is one that was not replaced (`lastValidTime_alongPast`), so that the fields
of the packets of one direction are the gaps between their times (`times_splitTrace`), which add
up to the times themselves.
-/
import CSBuFLO.Split

namespace CSBuFLO

/-! ## The last valid time -/

variable {l : List StPair}

/-- The last positive time of a trace, with what comes after it. -/
theorem exists_last_pos (h : ∃ x ∈ l, 0 < x.time) :
    ∃ front z back, l = front ++ z :: back ∧ 0 < z.time ∧ ∀ y ∈ back, y.time ≤ 0 := by
  have hsome : (l.reverse.find? fun x => decide (x.time > 0)).isSome := by
    rw [List.find?_isSome]
    obtain ⟨x, hx, hpos⟩ := h
    exact ⟨x, List.mem_reverse.mpr hx, decide_eq_true hpos⟩
  obtain ⟨z, hz⟩ := Option.isSome_iff_exists.mp hsome
  obtain ⟨hpos, as, bs, hrev, hback⟩ := List.find?_eq_some_iff_append.mp hz
  refine ⟨bs.reverse, z, as.reverse, ?_, of_decide_eq_true hpos, fun y hy => ?_⟩
  · have := congrArg List.reverse hrev
    simpa using this
  · have hy := hback y (List.mem_reverse.mp hy)
    simpa using hy

/-- The search for the last valid time stops at the last positive time. -/
theorem lastValidTime_append {z : StPair} {back : List StPair} (hz : 0 < z.time)
    (hback : ∀ y ∈ back, y.time ≤ 0) (last : ℤ) (front : List StPair) :
    lastValidTime last (front ++ z :: back) = z.time := by
  have hnone : back.reverse.find? (fun x => decide (x.time > 0)) = none := by
    refine List.find?_eq_none.mpr fun y hy => ?_
    have := hback y (List.mem_reverse.mp hy)
    simpa using this
  unfold lastValidTime
  rw [List.reverse_append, List.reverse_cons, List.append_assoc, List.find?_append, hnone,
    Option.none_or, List.singleton_append, List.find?_cons_of_pos (by simpa using hz)]
  rfl

/-- Entries without packets stay as they are. -/
theorem alongPast_splitEntry_of_zero (h : ∀ x ∈ l, x.size = 0) (past : List StPair) :
    alongPast splitEntry past l = l := by
  induction l generalizing past with
  | nil => rfl
  | cons x l ih =>
    rw [alongPast, splitEntry_of_zero (h x List.mem_cons_self),
      ih fun y hy => h y (List.mem_cons_of_mem x hy)]

/-- After the last positive time of a steady trace there are only cleared entries. -/
theorem Steady.back_zero {front back : List StPair} {z : StPair} (h : Steady (front ++ z :: back))
    (hz : 0 < z.time) (hback : ∀ y ∈ back, y.time ≤ 0) : ∀ y ∈ back, y.size = 0 := by
  intro y hy
  obtain ⟨-, hrest, -⟩ := List.pairwise_append.mp h.mono
  rcases (List.pairwise_cons.mp hrest).1 y hy with hle | hzero
  · have := hback y hy
    omega
  · exact hzero.1

/-- **`split` finds the last positive time.** -/
theorem lastValidTime_alongPast (h : Steady l) (hpos : ∃ x ∈ l, 0 < x.time) (last : ℤ) :
    lastValidTime last (alongPast splitEntry [] l) = lastValidTime 0 l := by
  obtain ⟨front, z, back, rfl, hz, hback⟩ := exists_last_pos hpos
  have hzero := h.back_zero hz hback
  obtain ⟨pre, hpre⟩ := exists_alongPast_append splitEntry [] front (z :: back)
  have hdelay : delay back z = z.time := by
    unfold delay
    rw [List.find?_eq_none.mpr fun y hy => by
      simp [sameWay, not_own_of_zero (hzero y hy)]]
  rw [hpre, alongPast, alongPast_splitEntry_of_zero hzero, lastValidTime_append hz hback]
  have htime : (splitEntry (front.reverse ++ []) z back).time = z.time := hdelay
  rw [lastValidTime_append (htime.symm ▸ hz) hback, htime]

/-- The last positive time is the greatest one. -/
theorem Steady.time_le (h : Steady l) (hpos : ∃ x ∈ l, 0 < x.time) :
    ∀ x ∈ l, x.time ≤ lastValidTime 0 l := by
  obtain ⟨front, z, back, rfl, hz, hback⟩ := exists_last_pos hpos
  rw [lastValidTime_append hz hback]
  intro x hx
  rcases List.mem_append.mp hx with hx | hx
  · obtain ⟨-, -, hcross⟩ := List.pairwise_append.mp h.mono
    rcases hcross x hx z List.mem_cons_self with hle | ⟨-, hzero⟩
    · exact hle
    · omega
  · rcases List.mem_cons.mp hx with rfl | hx
    · exact le_rfl
    · have := hback x hx
      omega

/-! ## Gaps -/

/-- The gaps between times, and from the last one to `last`. -/
def gaps (last : ℤ) : List ℤ → List ℤ
  | [] => []
  | [a] => [last - a]
  | a :: b :: rest => (b - a) :: gaps last (b :: rest)

/-- Gaps add up to the times. -/
theorem add_sum_gaps (last : ℤ) {times : List ℤ} {first time : ℤ} {k : ℕ}
    (hfirst : times.head? = some first) (htime : times[k]? = some time) :
    first + ((gaps last times).take k).sum = time := by
  induction times generalizing first k with
  | nil => cases hfirst
  | cons a rest ih =>
    obtain rfl := Option.some.inj hfirst
    cases k with
    | zero =>
      obtain rfl := Option.some.inj htime
      simp
    | succ k =>
      cases rest with
      | nil => cases htime
      | cons b rest =>
        have hrest : b + ((gaps last (b :: rest)).take k).sum = time := ih rfl htime
        rw [gaps, List.take_succ_cons, List.sum_cons, ← hrest]
        ring

/-- The times of the packets of one direction. -/
def ownTimes (d : Bool) (l : List StPair) : List ℤ := (l.filter (ownItem d)).map StPair.time

theorem ownTimes_cons (d : Bool) (x : StPair) (l : List StPair) :
    ownTimes d (x :: l) = if ownItem d x then x.time :: ownTimes d l else ownTimes d l := by
  unfold ownTimes
  rw [List.filter_cons]
  split <;> rfl

/-- The next packet of a direction is the first of those that come after. -/
theorem head?_ownTimes (d : Bool) (l : List StPair) :
    (ownTimes d l).head? = (l.find? (ownItem d)).map StPair.time := by
  unfold ownTimes
  rw [List.head?_map, List.head?_filter]

/-- The time of a packet in the prepared trace. -/
theorem time_splitFinal {d : Bool} {x : StPair} (hx : ownItem d x = true) (last : ℤ)
    (past after : List StPair) :
    (splitFinal last past x after).time =
      match after.find? (ownItem d) with
      | some y => toInt (y.time - x.time)
      | none => toInt (last - x.time) := by
  have hne := size_ne_zero_of_own hx
  unfold splitFinal delay
  dsimp only
  rw [sameWay_of_own hx]
  cases after.find? (ownItem d) with
  | some y => simp
  | none => simp [hne]

/-- **The fields of the packets of one direction are the gaps between their times.** -/
theorem ownTimes_alongPast (d : Bool) {last : ℤ}
    (hmono : l.Pairwise fun x y => x.time ≤ y.time ∨ y.size = 0)
    (hlast : ∀ x ∈ l, x.time ≤ last ∧ last - x.time < 2 ^ 31) (past : List StPair) :
    ownTimes d (alongPast (splitFinal last) past l) = gaps last (ownTimes d l) := by
  induction l generalizing past with
  | nil => rfl
  | cons x l ih =>
    rw [alongPast, ownTimes_cons, ownTimes_cons, ownItem_splitFinal,
      ih (List.pairwise_cons.mp hmono).2 fun y hy => hlast y (List.mem_cons_of_mem x hy)]
    split
    · rename_i hx
      obtain ⟨hle, hlt⟩ := hlast x List.mem_cons_self
      have hhead := head?_ownTimes d l
      rw [time_splitFinal hx]
      -- the gap to the next time, or to the last valid one
      cases hnext : l.find? (ownItem d) with
      | none =>
        rw [hnext] at hhead
        have hnil : ownTimes d l = [] := List.head?_eq_none_iff.mp hhead
        rw [hnil]
        exact congrArg (· :: []) (toInt_of_lt (by omega) hlt)
      | some y =>
        rw [hnext] at hhead
        obtain ⟨rest, hrest⟩ := List.head?_eq_some_iff.mp hhead
        rw [hrest]
        have hy := List.mem_of_find?_eq_some hnext
        have hown := List.find?_some hnext
        have hxy : x.time ≤ y.time := ((List.pairwise_cons.mp hmono).1 y hy).resolve_right
          (size_ne_zero_of_own hown)
        have hyle := (hlast y (List.mem_cons_of_mem x hy)).1
        exact congrArg (· :: gaps last (y.time :: rest)) (toInt_of_lt (by omega) (by omega))
    · rfl

/-! ## The schedule -/

/-- The next packet of a direction, by its index. -/
theorem find?_drop_eq_some {p : StPair → Bool} {j k : ℕ} {y : StPair} (hjk : j < k)
    (hy : l[k]? = some y) (hp : p y = true)
    (hbetween : ∀ i z, j < i → i < k → l[i]? = some z → p z = false) :
    (l.drop (j + 1)).find? p = some y := by
  obtain ⟨hk, rfl⟩ := List.getElem?_eq_some_iff.mp hy
  refine List.find?_eq_some_iff_getElem.mpr ⟨hp, k - (j + 1), ?_, ?_, fun i hi => ?_⟩
  · rw [List.length_drop]
    omega
  · rw [List.getElem_drop]
    congr 1
    omega
  · rw [List.getElem_drop, hbetween (j + 1 + i) _ (by omega) (by omega)
      (List.getElem?_eq_getElem (by omega))]
    rfl

theorem find?_drop_eq_none {p : StPair → Bool} {j : ℕ}
    (hlater : ∀ i z, j < i → l[i]? = some z → p z = false) : (l.drop (j + 1)).find? p = none := by
  refine List.find?_eq_none.mpr fun y hy => ?_
  obtain ⟨i, hi⟩ := List.mem_iff_getElem?.mp hy
  rw [List.getElem?_drop] at hi
  rw [hlater (j + 1 + i) y (by omega) hi]
  decide

/-- The last valid time is the time of an entry. -/
theorem lastValidTime_lt {t : List StPair} {m : ℤ} (hpos : ∃ x ∈ t, 0 < x.time)
    (h : ∀ x ∈ t, x.time < m) : lastValidTime 0 t < m := by
  obtain ⟨front, z, back, rfl, hz, hback⟩ := exists_last_pos hpos
  rw [lastValidTime_append hz hback]
  exact h z (by simp)

/-- Only entries of size 0 can have a time that goes back. -/
theorem Steady.time_le_packet {t : List StPair} (h : Steady t) {d : Bool} {j k : ℕ} {x y : StPair}
    (hjk : j < k) (hx : t[j]? = some x) (hy : t[k]? = some y) (hown : ownItem d y = true) :
    x.time ≤ y.time := by
  obtain ⟨hj, rfl⟩ := List.getElem?_eq_some_iff.mp hx
  obtain ⟨hk, rfl⟩ := List.getElem?_eq_some_iff.mp hy
  rcases List.pairwise_iff_getElem.mp h.mono j k hj hk hjk with hle | ⟨hzero, -⟩
  · exact hle
  · exact absurd hzero (size_ne_zero_of_own hown)

/-- **Splitting preserves the schedule.**  For a trace whose times do not decrease, with a
positive relative time that fits an `int`, let `t` be the trace with relative times and merged
bursts.  The field of a packet is the gap to the next packet of its direction, and for the last
packet the gap to the last positive time; both are not negative, and the times of a direction
are those of its first packet plus the sums of the fields. -/
theorem split_keeps_schedule (last : ℤ) (l : List StPair)
    (hmono : l.Pairwise fun x y => x.time ≤ y.time)
    (hpos : ∃ x ∈ l, (l.headD default).time < x.time)
    (hint : ∀ x ∈ l, x.time - (l.headD default).time < 2 ^ 31) (d : Bool) :
    let t := changeToRelativeTime l
    let s := (splitTrace last t).1
    (∀ (j k : ℕ) (x y : StPair), j < k → t[j]? = some x → t[k]? = some y → ownItem d x = true →
      ownItem d y = true → (∀ (i : ℕ) z, j < i → i < k → t[i]? = some z → ownItem d z = false) →
        ∃ x' : StPair, s[j]? = some x' ∧ x'.time = y.time - x.time ∧ 0 ≤ x'.time) ∧
    (∀ (j : ℕ) (x : StPair), t[j]? = some x → ownItem d x = true →
      (∀ (i : ℕ) z, j < i → t[i]? = some z → ownItem d z = false) →
        ∃ x' : StPair, s[j]? = some x' ∧ x'.time = lastValidTime 0 t - x.time ∧ 0 ≤ x'.time) ∧
    ∀ (k : ℕ) first time, (ownTimes d t).head? = some first → (ownTimes d t)[k]? = some time →
      first + ((ownTimes d s).take k).sum = time := by
  intro t s
  have hsteady : Steady t := steady_changeToRelativeTime hmono hint
  have htpos : ∃ x ∈ t, 0 < x.time := exists_pos_changeToRelativeTime hmono hint hpos
  have hlast := lastValidTime_alongPast hsteady htpos last
  have hle := hsteady.time_le htpos
  have hlt : lastValidTime 0 t < 2 ^ 31 :=
    lastValidTime_lt htpos fun z hz => time_lt_of_mem_changeToRelativeTime hz
  have hentry : ∀ {j : ℕ} {x : StPair}, t[j]? = some x →
      s[j]? = some (splitFinal (lastValidTime 0 t) (t.take j).reverse x (t.drop (j + 1))) := by
    intro j x hx
    have hs := getElem?_splitTrace last t j
    rw [hx, hlast] at hs
    exact hs
  refine ⟨fun j k x y hjk hx hy hown hown' hbetween => ?_, fun j x hx hown hlater => ?_,
    fun k first time hfirst htime => ?_⟩
  · -- a packet with a next one of its direction
    refine ⟨_, hentry hx, ?_⟩
    have hle' := hsteady.time_le_packet hjk hx hy hown'
    have hxnonneg := hsteady.nonneg x (List.mem_of_getElem? hx)
    have hylt : y.time < 2 ^ 31 := time_lt_of_mem_changeToRelativeTime (List.mem_of_getElem? hy)
    rw [time_splitFinal hown, find?_drop_eq_some hjk hy hown' hbetween]
    dsimp only
    rw [toInt_of_lt (by omega) (by omega)]
    exact ⟨rfl, by omega⟩
  · -- the last packet of its direction
    have hmem : x ∈ t := List.mem_of_getElem? hx
    have hxle := hle x hmem
    have hxnonneg := hsteady.nonneg x hmem
    refine ⟨_, hentry hx, ?_⟩
    rw [time_splitFinal hown, find?_drop_eq_none hlater]
    dsimp only
    rw [toInt_of_lt (by omega) (by omega)]
    exact ⟨rfl, by omega⟩
  · -- the fields are the gaps, so their sums lead from the first time to the others
    have hs : ownTimes d s = gaps (lastValidTime 0 t) (ownTimes d t) := by
      have heq : s = alongPast (splitFinal (lastValidTime 0 t)) [] t := by
        rw [← hlast]
        exact splitTrace_eq last t
      rw [heq]
      refine ownTimes_alongPast d (hsteady.mono.imp fun h => h.imp_right And.left)
        (fun x hx => ?_) []
      have := hle x hx
      have := hsteady.nonneg x hx
      exact ⟨by omega, by omega⟩
    rw [hs]
    exact add_sum_gaps (lastValidTime 0 t) hfirst htime

/-- Client packets at 0, 0.3 and 0.9 seconds, and one of the server in between. -/
def fourPackets : List StPair :=
  [⟨-100, 1000000, 0, 0⟩, ⟨-30, 1300000, 0, 0⟩, ⟨200, 1400000, 0, 0⟩, ⟨-70, 1900000, 0, 0⟩]

theorem split_keeps_schedule_fourPackets :
    ∃ x', (splitTrace 0 (changeToRelativeTime fourPackets)).1[1]? = some x' ∧
      x'.time = 600000 ∧ 0 ≤ x'.time :=
  (split_keeps_schedule 0 fourPackets (by decide) (by decide) (by decide) false).1 1 3
    ⟨-30, 300000, 0, 0⟩ ⟨-70, 900000, 0, 0⟩ (by decide) (by decide) (by decide) rfl rfl (by
      intro i z hi hi' hz
      obtain rfl : i = 2 := by omega
      obtain rfl : (⟨200, 400000, 0, 0⟩ : StPair) = z := Option.some.inj hz
      rfl)

end CSBuFLO
