/-
# The initial credit of the server (`set_first_sent` of `misc.c`)

When the server receives the URL of a page, the first burst of the client is on its way.
`set_first_sent` looks for the first server packet after that burst and credits the server with
the bytes this packet expects.  Its two loops stop at entries of size 0, which merging leaves
inside bursts, and without a packet to be found the credit of the page before stays.

`first_expected_iff` says for which traces the credit is the right one.
-/
import CSBuFLO.Split

namespace CSBuFLO

/-! ## The right credit -/

/-- The first server packet after the first client burst. -/
def firstReply (l : List StPair) : Option StPair :=
  (l.dropWhile fun x => !ownItem false x).find? (ownItem true)

/-- What the server should be credited with: the bytes expected by its first packet after the
first client burst, and nothing if there is none. -/
def firstCredit (l : List StPair) : ℕ :=
  match firstReply l with
  | some x => x.expected
  | none => 0

variable {l : List StPair}

/-- After a client packet, the next server packet expects something. -/
theorem expected_pos_of_find? {last : ℤ} {past : List StPair} (hzero : ∀ x ∈ l, x.expected = 0)
    (hpast : 0 < burstBytes false past) {y : StPair}
    (hy : (alongPast (splitFinal last) past l).find? (ownItem true) = some y) : 0 < y.expected := by
  induction l generalizing past with
  | nil => cases hy
  | cons x l ih =>
    have hrest : ∀ z ∈ l, z.expected = 0 := fun z hz => hzero z (List.mem_cons_of_mem x hz)
    rw [alongPast] at hy
    cases hx : ownItem true x with
    | true =>
      rw [List.find?_cons_of_pos (by simpa [ownItem_splitFinal] using hx)] at hy
      rw [← Option.some.inj hy, expected_splitFinal hx,
        expectation_eq (hzero x List.mem_cons_self)]
      exact hpast
    | false =>
      rw [List.find?_cons_of_neg (by simp [ownItem_splitFinal, hx])] at hy
      refine ih hrest ?_ hy
      rcases exists_own_or_zero x with ⟨d, hd⟩ | hzero
      · cases d with
        | true =>
          rw [hx] at hd
          cases hd
        | false =>
          rw [burstBytes_cons_own hd]
          omega
      · rw [burstBytes_cons_zero hzero]
        exact hpast

/-- A reply to the first client burst expects something. -/
theorem expected_firstReply_pos {last : ℤ} {past : List StPair} (hzero : ∀ x ∈ l, x.expected = 0)
    {y : StPair} (hy : firstReply (alongPast (splitFinal last) past l) = some y) :
    0 < y.expected := by
  induction l generalizing past with
  | nil => cases hy
  | cons x l ih =>
    have hrest : ∀ z ∈ l, z.expected = 0 := fun z hz => hzero z (List.mem_cons_of_mem x hz)
    unfold firstReply at hy ih
    rw [alongPast] at hy
    cases hx : ownItem false x with
    | true =>
      have hother : ownItem true x = false := not_own_of_own hx
      rw [List.dropWhile_cons_of_neg (by simp [ownItem_splitFinal, hx]),
        List.find?_cons_of_neg (by simp [ownItem_splitFinal, hother])] at hy
      refine expected_pos_of_find? hrest ?_ hy
      have := ownItem_false.mp hx
      rw [burstBytes_cons_own hx]
      omega
    | false =>
      rw [List.dropWhile_cons_of_pos (by simp [ownItem_splitFinal, hx])] at hy
      exact ih hrest hy

/-! ## The scan of `set_first_sent` -/

/-- The entries left after the two loops of `set_first_sent`. -/
def scanned (l : List StPair) : List StPair :=
  (l.dropWhile fun x => decide (x.size > 0)).dropWhile fun x => decide (x.size < 0)

/-- The scan does not stop at a client packet. -/
theorem size_nonneg_of_scanned {rest : List StPair} {x : StPair} (h : scanned l = x :: rest) :
    0 ≤ x.size := by
  have hneg := List.head?_dropWhile_not (fun x : StPair => decide (x.size < 0))
    (l.dropWhile fun x => decide (x.size > 0))
  unfold scanned at h
  rw [h] at hneg
  simpa using hneg

/-- A scan that stops at a server packet has found the reply to the first client burst. -/
theorem firstReply_of_scanned {rest : List StPair} {x : StPair} (h : scanned l = x :: rest)
    (hx : 0 < x.size) : firstReply l = some x := by
  unfold scanned at h
  induction l with
  | nil => cases h
  | cons y l ih =>
    unfold firstReply at ih ⊢
    rcases lt_trichotomy y.size 0 with hy | hy | hy
    · -- the client burst: the packets left are found behind it
      have hburst : ∀ m : List StPair, m.dropWhile (fun x => decide (x.size < 0)) = x :: rest →
          m.find? (ownItem true) = some x := by
        intro m hm
        induction m with
        | nil => cases hm
        | cons z m ihm =>
          by_cases hz : z.size < 0
          · rw [List.dropWhile_cons_of_pos (by simpa using hz)] at hm
            rw [List.find?_cons_of_neg (by simp [ownItem]; omega)]
            exact ihm hm
          · rw [List.dropWhile_cons_of_neg (by simpa using hz)] at hm
            obtain ⟨rfl, -⟩ := List.cons.inj hm
            exact List.find?_cons_of_pos (ownItem_true.mpr hx)
      rw [List.dropWhile_cons_of_neg (by simp; omega)] at h
      rw [List.dropWhile_cons_of_neg (by simp [ownItem, hy])]
      exact hburst _ h
    · rw [List.dropWhile_cons_of_neg (by simp; omega),
        List.dropWhile_cons_of_neg (by simp; omega)] at h
      obtain ⟨rfl, -⟩ := List.cons.inj h
      omega
    · rw [List.dropWhile_cons_of_pos (by simpa using hy)] at h
      rw [List.dropWhile_cons_of_pos (by simp [ownItem]; omega)]
      exact ih h

/-- A scan that finds nothing has seen no reply to a client burst. -/
theorem firstReply_of_scanned_nil (h : scanned l = []) : firstReply l = none := by
  unfold scanned at h
  induction l with
  | nil => rfl
  | cons y l ih =>
    unfold firstReply at ih ⊢
    by_cases hy : y.size > 0
    · rw [List.dropWhile_cons_of_pos (by simpa using hy)] at h
      rw [List.dropWhile_cons_of_pos (by simp [ownItem]; omega)]
      exact ih h
    · rw [List.dropWhile_cons_of_neg (by simpa using hy)] at h
      refine List.find?_eq_none.mpr fun z hz => ?_
      have hneg := List.dropWhile_eq_nil_iff.mp h z
        ((List.dropWhile_sublist _).subset hz)
      simp [ownItem] at hneg ⊢
      omega

/-- What `set_first_sent` stores, by the entry its scan stops at. -/
theorem firstExpected_setFirstSent {straces : ℤ → List StPair} {g : Globals}
    (hcluster : g.clusterId ≠ -1) (hindex : g.stIndex = 0) :
    (setFirstSent straces g).firstExpected =
      match scanned (straces g.clusterId) with
      | x :: _ => x.expected
      | [] => g.firstExpected := by
  unfold setFirstSent
  rw [if_neg hcluster]
  dsimp only
  rw [hindex]
  by_cases hlen : (straces g.clusterId).length = 0
  · rw [if_pos (by omega), List.length_eq_zero_iff.mp hlen]
    rfl
  · rw [if_neg (by omega)]
    simp only [Int.toNat_zero, List.drop_zero]
    unfold scanned
    split <;> rename_i hscan <;> rw [hscan]

/-! ## When the credit is right -/

/-- The scan gets the right credit: it stops at a server packet, or no server packet follows a
client packet and the scan stops at an entry of size 0 or leaves an old credit of 0. -/
def CreditReached (old : ℕ) (l : List StPair) : Prop :=
  match scanned l with
  | x :: _ => 0 < x.size ∨ firstReply l = none
  | [] => old = 0

instance (old : ℕ) (l : List StPair) : Decidable (CreditReached old l) := by
  unfold CreditReached
  split <;> infer_instance

/-- The first packet of the server, if it expects something, is the reply to the first client burst:
it expects the bytes before it, so a client packet comes first. -/
theorem firstReply_of_head? (hpaced : Paced l) {x : StPair}
    (hx : x ∈ (l.filter (ownItem true)).head?) (hne : x.expected ≠ 0) : firstReply l = some x := by
  obtain ⟨rest, hrest⟩ := List.head?_eq_some_iff.mp hx
  obtain ⟨before, after, rfl, hbefore, hown, -⟩ := List.filter_eq_cons_iff.mp hrest
  have hnone : before.filter (ownItem true) = [] := List.filter_eq_nil_iff.mpr hbefore
  have hpace := hpaced true before x after rfl hown
  rw [hnone] at hpace
  have hexpected : x.expected = bytes false before := by simpa [expectedBytes] using hpace
  have hburst : before.dropWhile (fun y => !ownItem false y) ≠ [] := by
    intro hnil
    refine hne (hexpected.trans ?_)
    have hno : before.filter (ownItem false) = [] :=
      List.filter_eq_nil_iff.mpr fun y hy => by simpa using List.dropWhile_eq_nil_iff.mp hnil y hy
    unfold bytes
    rw [hno]
    rfl
  unfold firstReply
  rw [List.dropWhile_append, if_neg (by simpa using hburst), List.find?_append]
  have hskip : (before.dropWhile fun y => !ownItem false y).find? (ownItem true) = none :=
    List.find?_eq_none.mpr fun y hy => hbefore y ((List.dropWhile_sublist _).subset hy)
  rw [hskip, List.find?_cons_of_pos hown]
  rfl

/-- **A scan that gets the right credit covers the first packet of the server.** -/
theorem expected_le_firstExpected {straces : ℤ → List StPair} {g : Globals}
    (hcluster : g.clusterId ≠ -1) (hindex : g.stIndex = 0) (hpaced : Paced (straces g.clusterId))
    {x : StPair} (hx : x ∈ ((straces g.clusterId).filter (ownItem true)).head?)
    (hcredit : x.expected = 0 ∨ CreditReached g.firstExpected (straces g.clusterId)) :
    x.expected ≤ (setFirstSent straces g).firstExpected := by
  by_cases hzero : x.expected = 0
  · omega
  · have hreached := hcredit.resolve_left hzero
    have hreply := firstReply_of_head? hpaced hx hzero
    rw [firstExpected_setFirstSent hcluster hindex]
    unfold CreditReached at hreached
    cases hscan : scanned (straces g.clusterId) with
    | nil =>
      rw [firstReply_of_scanned_nil hscan] at hreply
      cases hreply
    | cons y rest =>
      rw [hscan] at hreached
      dsimp only at hreached ⊢
      rcases hreached with hsize | hnone
      · obtain rfl := Option.some.inj ((firstReply_of_scanned hscan hsize).symm.trans hreply)
        exact le_refl _
      · rw [hnone] at hreply
        cases hreply

/-- **The server's initial credit matches the trace exactly if the scan is not stopped by an entry
of size 0 before the reply it looks for, and no old credit is left.** -/
theorem first_expected_iff (straces : ℤ → List StPair) (g : Globals) (last : ℤ) (l : List StPair)
    (hzero : ∀ x ∈ l, x.expected = 0) (hcluster : g.clusterId ≠ -1)
    (hindex : g.stIndex = 0)
    (htrace : straces g.clusterId = (splitTrace last (changeToRelativeTime l)).1) :
    (setFirstSent straces g).firstExpected = firstCredit (straces g.clusterId) ↔
      CreditReached g.firstExpected (straces g.clusterId) := by
  rw [firstExpected_setFirstSent hcluster hindex, htrace]
  replace hzero := expected_changeToRelativeTime hzero
  generalize changeToRelativeTime l = t at hzero
  have hreply : ∀ {y}, firstReply (splitTrace last t).1 = some y → 0 < y.expected := by
    intro y hy
    rw [splitTrace_eq] at hy
    exact expected_firstReply_pos hzero hy
  have hcleared : ∀ x ∈ (splitTrace last t).1, x.size = 0 → x.expected = 0 := by
    intro x hx hsize
    obtain ⟨j, hj⟩ := List.mem_iff_getElem?.mp hx
    rw [getElem?_splitTrace, Option.map_eq_some_iff] at hj
    obtain ⟨y, hy, rfl⟩ := hj
    have hysize : y.size = 0 := hsize
    unfold splitFinal
    rw [splitEntry_of_zero hysize]
    exact hzero y (List.mem_of_getElem? hy)
  generalize (splitTrace last t).1 = s at hreply hcleared
  unfold CreditReached firstCredit
  cases hscan : scanned s with
  | nil =>
    rw [firstReply_of_scanned_nil hscan]
  | cons x rest =>
    dsimp only
    have hnonneg := size_nonneg_of_scanned hscan
    rcases hnonneg.eq_or_lt with hsize | hsize
    · have hmem : x ∈ s := by
        have hsub : x ∈ scanned s := by
          rw [hscan]
          exact List.mem_cons_self
        exact (List.dropWhile_sublist _).subset ((List.dropWhile_sublist _).subset hsub)
      rw [hcleared x hmem hsize.symm]
      cases hfirst : firstReply s with
      | none => simp
      | some y =>
        have := hreply hfirst
        simp only [reduceCtorEq, or_false]
        omega
    · rw [firstReply_of_scanned hscan hsize]
      simp [hsize]

/-- A client burst of one packet and its reply. -/
def plainReply : List StPair := [⟨-100, 0, 0, 0⟩, ⟨200, 400000, 0, 0⟩]

theorem first_expected_iff_plainReply :
    let s := (splitTrace 0 (changeToRelativeTime plainReply)).1
    (setFirstSent (fun _ => s)
      { clusterId := 1, stIndex := 0, firstExpected := 77 }).firstExpected =
      firstCredit s :=
  (first_expected_iff _ { clusterId := 1, stIndex := 0, firstExpected := 77 } 0 plainReply
    (by decide) (by decide) rfl rfl).mpr (by decide)

/-- A merged client burst and its reply, as it is prepared. -/
def mergedReply : List StPair :=
  (splitTrace 0 (changeToRelativeTime
    [⟨-100, 0, 0, 0⟩, ⟨-50, 10, 0, 0⟩, ⟨200, 400000, 0, 0⟩])).1

/-- A trace without a reply, as it is prepared. -/
def noReply : List StPair :=
  (splitTrace 0 (changeToRelativeTime [⟨200, 0, 0, 0⟩, ⟨-30, 400000, 0, 0⟩])).1

/-- **A merged burst hides the reply, and an old credit stays.**  Two client packets that are
merged leave an entry of size 0 behind which the scan does not look: the credit is 0 and not
150.  A trace without a reply keeps the credit of the page before. -/
theorem first_expected_wrong :
    (setFirstSent (fun _ => mergedReply) { clusterId := 1, stIndex := 0 }).firstExpected = 0 ∧
      firstCredit mergedReply = 150 ∧
      (setFirstSent (fun _ => noReply)
        { clusterId := 1, stIndex := 0, firstExpected := 77 }).firstExpected = 77 ∧
      firstCredit noReply = 0 := by
  decide

end CSBuFLO
