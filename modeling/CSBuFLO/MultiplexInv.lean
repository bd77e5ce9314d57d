/-
# The channels of a connection do not meddle with each other (`channels.c`)

The messages of all the channels of a connection are in one line, and the numbers they are
addressed with are reused.  The opening a message or a slot belongs to is its `tag`, and everything
about one tag is in one of six phases (`TagPhase`): nothing is left of it, it has been asked for,
the other end is connecting, it is refused, accepted, or both ends know that it is open.  An event
concerns one tag and moves it to its next phase (`TagPhase.act`, `TagPhase.deliver`); for the other
tags nothing changes.

In the last two phases the two slots and the messages on their way are a state that a single
channel can reach (`ChanReach`), so that what `ChannelWindow` and `ChannelClose` say of one channel
holds for each channel of a connection.

`multiplexed_channels` puts this together.
-/
import CSBuFLO.ChannelEof
import CSBuFLO.ChannelWindow
import CSBuFLO.Multiplex

namespace CSBuFLO

open Transition SlotTable

variable {γ : Type}

/-! ## One channel -/

/-- **A state of a single channel**: one that its two ends can reach from the opening on. -/
def ChanReach (pt : Bool → ChanEnd) : Prop :=
  ∃ c es, (∀ b, (c b).Fresh) ∧ WindowsAgree c ∧ run chanStep (established c) es = some pt

namespace ChanReach

variable {pt : Bool → ChanEnd}

theorem step (h : ChanReach pt) {ev : Duplex.Event ChanEvent} {pt' : Bool → ChanEnd}
    (hstep : chanStep pt ev = some pt') : ChanReach pt' := by
  obtain ⟨c, es, hfresh, hagree, hrun⟩ := h
  refine ⟨c, es ++ [ev], hfresh, hagree, ?_⟩
  rw [run_append, hrun, Option.bind_some, run, hstep]
  rfl

theorem taken_le (h : ChanReach pt) (b : Bool) : (pt b).taken ≤ (pt !b).sent.length := by
  obtain ⟨c, es, hfresh, -, hrun⟩ := h
  exact (closing_run hfresh hrun b).taken

theorem act (h : ChanReach pt) {b : Bool} {c : Channel} {e : ChanEvent}
    {r : Option Channel × List ChanMsg} (hc : (pt b).state = some c) (hr : c.act e = some r) :
    ChanReach (Function.update pt b ((pt b).after r)) := by
  have hact : channelMachine.act (pt b).state e = some r := by
    show (pt b).state.bind (fun c => c.act e) = some r
    rw [hc, Option.bind_some, hr]
  have hstep : chanStep pt (.act b e) = some (Function.update pt b ((pt b).after r)) := by
    rw [chanStep, Duplex.step, hact]
    rfl
  exact h.step hstep

/-- The first message in line is accepted, and the channel goes on. -/
theorem deliver (h : ChanReach pt) {b : Bool} {m : ChanMsg} {rest : List ChanMsg}
    (hm : (pt b).incoming (pt !b) = m :: rest) :
    ∃ c r, (pt b).state = some c ∧ c.receive m = some r ∧
      rest = ((pt b).after (some r.1, r.2)).take.incoming (pt !b) ∧
      ChanReach (Function.update pt b ((pt b).after (some r.1, r.2)).take) := by
  have hnext : (pt !b).sent[(pt b).taken]? = some m := by
    have h0 : ((pt b).incoming (pt !b))[0]? = some m := by rw [hm]; rfl
    rwa [Duplex.Party.incoming, List.getElem?_drop, Nat.add_zero] at h0
  obtain ⟨c, es, hfresh, -, hrun⟩ := id h
  obtain ⟨d, r, hd, hr⟩ := receive_isSome hfresh hrun hnext
  have hrecv : channelMachine.receive (pt b).state m = some (some r.1, r.2) := by
    rw [hd]
    show (d.receive m).map (fun r => (some r.1, r.2)) = _
    rw [hr]
    rfl
  refine ⟨d, r, hd, hr, ?_, h.step (Duplex.step_deliver hnext hrecv)⟩
  exact (List.cons.inj (hm.symm.trans (Duplex.incoming_take hnext))).2

end ChanReach

/-! ## One tag -/

/-- The number a message is addressed with; a request for a channel has none. -/
def ConnMsg.recipient : ConnMsg γ → Option ℕ
  | .chanOpen _ _ _ _ _ _ => none
  | .confirm _ i _ _ _ => some i
  | .failure _ i => some i
  | .chan _ i _ => some i

/-- The messages of one channel. -/
def mail (t : Tag) (ms : List (ConnMsg γ)) : List (ConnMsg γ) := ms.filter fun m => m.tag = t

theorem mail_append (t : Tag) (ms ms' : List (ConnMsg γ)) :
    mail t (ms ++ ms') = mail t ms ++ mail t ms' :=
  List.filter_append ..

theorem mail_of_tag {t : Tag} {ms : List (ConnMsg γ)} (h : ∀ m ∈ ms, m.tag = t) :
    mail t ms = ms :=
  List.filter_eq_self.mpr fun m hm => decide_eq_true (h m hm)

theorem mail_of_ne {t t' : Tag} {ms : List (ConnMsg γ)} (h : ∀ m ∈ ms, m.tag = t) (ht : t' ≠ t) :
    mail t' ms = [] := by
  refine List.filter_eq_nil_iff.mpr fun m hm heq => ht ?_
  exact (of_decide_eq_true heq).symm.trans (h m hm)

/-- The channel of the end that has asked, before and after it is confirmed. -/
def askedSlot (t : Tag) (p : ChanSetup) : Slot := ⟨t, .opening, noId, p.channel⟩

/-- The channel of the end that has accepted. -/
def acceptedChannel (p p' : ChanSetup) : Channel :=
  { p'.channel with
    datagram := p.datagram, remoteWindow := p.window, remoteMaxpacket := p.maxpack }

def confirmedChannel (p p' : ChanSetup) : Channel :=
  { p.channel with remoteWindow := p'.window, remoteMaxpacket := p'.maxpack }

theorem channelLookup_of_holds {t : Tag} {table : List (Option Slot)} {i : ℕ} {slot : Slot}
    (h : Holds Slot.tag table t (some (i, slot))) (hz : slot.type ≠ .zombie) :
    channelLookup table i = some slot := by
  rw [channelLookup, h.get_eq.1]
  exact Option.filter_some_pos (decide_eq_true hz)

/-- **The phases of a tag.**  `v b` is where the end `b` has its slot, and `m b` are the messages on
their way to `b`. -/
inductive TagPhase (t : Tag) (v : Bool → Option (ℕ × Slot)) (m : Bool → List (ConnMsg γ)) :
    Prop where
  | gone (hv : ∀ b i x, v b = some (i, x) → x.type = .zombie) (hm : ∀ b, m b = [])
  | asked {i : ℕ} {p : ChanSetup} {request : γ} (hv : v t.opener = some (i, askedSlot t p))
      (hv' : v (!t.opener) = none) (hm : m t.opener = [])
      (hm' : m (!t.opener) = [.chanOpen t i p.datagram request p.window p.maxpack])
  | connecting {i j : ℕ} {p p' : ChanSetup} (hv : v t.opener = some (i, askedSlot t p))
      (hv' : v (!t.opener) = some (j, ⟨t, .connecting, i, acceptedChannel p p'⟩))
      (hm : ∀ b, m b = [])
  | refused {i : ℕ} {p : ChanSetup} (hv : v t.opener = some (i, askedSlot t p))
      (hv' : ∀ j x, v (!t.opener) = some (j, x) → x.type = .zombie)
      (hm : m t.opener = [.failure t i]) (hm' : m (!t.opener) = [])
  | accepted {i j : ℕ} {p p' : ChanSetup} {pt : Bool → ChanEnd} (hpt : ChanReach pt)
      (hstate : (pt t.opener).state = some (confirmedChannel p p'))
      (hnone : (pt !t.opener).incoming (pt t.opener) = [])
      (hv : v t.opener = some (i, askedSlot t p))
      (hv' : v (!t.opener) = (pt !t.opener).state.map fun c => (j, ⟨t, .opened, i, c⟩))
      (hm : m t.opener = .confirm t i j p'.window p'.maxpack ::
        ((pt t.opener).incoming (pt !t.opener)).map (.chan t i))
      (hm' : m (!t.opener) = [])
  | live {id : Bool → ℕ} {pt : Bool → ChanEnd} (hpt : ChanReach pt)
      (hv : ∀ b, v b = (pt b).state.map fun c => (id b, ⟨t, .opened, id !b, c⟩))
      (hm : ∀ b, m b = ((pt b).incoming (pt !b)).map (.chan t (id b)))

/-- The messages on their way when the end `b` has `rest` in line and sends `ms`. -/
def mailAfter (m : Bool → List (ConnMsg γ)) (b : Bool) (rest ms : List (ConnMsg γ)) :
    Bool → List (ConnMsg γ) :=
  fun d => if d = b then rest else m d ++ ms

@[simp] theorem mailAfter_self (m : Bool → List (ConnMsg γ)) (b : Bool)
    (rest ms : List (ConnMsg γ)) : mailAfter m b rest ms b = rest := if_pos rfl

@[simp] theorem mailAfter_not (m : Bool → List (ConnMsg γ)) (b : Bool)
    (rest ms : List (ConnMsg γ)) : mailAfter m b rest ms (!b) = m (!b) ++ ms :=
  if_neg (Bool.not_ne_self b)

@[simp] theorem mailAfter_not_self (m : Bool → List (ConnMsg γ)) (b : Bool)
    (rest ms : List (ConnMsg γ)) : mailAfter m (!b) rest ms b = m b ++ ms :=
  if_neg (Bool.self_ne_not b)

theorem forall_side {P : Bool → Prop} (b : Bool) : (∀ d, P d) ↔ P b ∧ P !b := by
  constructor
  · exact fun h => ⟨h b, h !b⟩
  · rintro ⟨h, h'⟩ d
    rcases Bool.eq_or_eq_not d b with rfl | rfl
    · exact h
    · exact h'

/-! ## Local events -/

/-- What an end does to one of its slots on its own. -/
inductive SlotEvent (id : ℕ) (slot : Slot) : Option Slot → List (ConnMsg γ) → Prop where
  | channel {e : ChanEvent} {r : Option Channel × List ChanMsg} (ht : slot.type = .opened)
      (h : slot.chan.act e = some r) :
      SlotEvent id slot (r.1.map fun c => { slot with chan := c })
        (r.2.map (.chan slot.tag slot.remoteId))
  | connected (ht : slot.type = .connecting) :
      SlotEvent id slot (some { slot with type := .opened }) [ConnState.confirmation id slot]
  | connectFailed (ht : slot.type = .connecting) :
      SlotEvent id slot (some { slot with type := .zombie }) [.failure slot.tag slot.remoteId]
  | collect (ht : slot.type = .zombie) : SlotEvent id slot none []

variable {r : ConnState × List (ConnMsg γ)} {allow : Bool → ℕ → γ → Option (ChanSetup × Bool)}
  {msg : ConnMsg γ} {v : Bool → Option (ℕ × Slot)} {s : Bool → ConnEnd γ}

/-- An event is an opening or concerns one slot. -/
theorem ConnState.act_cases {s : ConnState} {e : ConnEvent γ} (h : s.act e = some r) :
    (∃ p request, s.openChannel p request = some r) ∨
      ∃ id slot x ms, get s.table id = some slot ∧ SlotEvent id slot x ms ∧
        r = (s.setSlot id x, ms) := by
  cases e with
  | opn p request => exact .inl ⟨p, request, h⟩
  | channel id e =>
    obtain ⟨slot, hslot, h⟩ := Option.bind_eq_some_iff.mp h
    split at h
    · rename_i ht
      obtain ⟨x, hx, rfl⟩ := Option.map_eq_some_iff.mp h
      exact .inr ⟨id, slot, _, _, hslot, .channel ht hx, rfl⟩
    · cases h
  | connected id =>
    obtain ⟨slot, hslot, h⟩ := Option.bind_eq_some_iff.mp h
    split at h
    · rename_i ht
      exact .inr ⟨id, slot, _, _, hslot, .connected ht, (Option.some.inj h).symm⟩
    · cases h
  | connectFailed id =>
    obtain ⟨slot, hslot, h⟩ := Option.bind_eq_some_iff.mp h
    split at h
    · rename_i ht
      exact .inr ⟨id, slot, _, _, hslot, .connectFailed ht, (Option.some.inj h).symm⟩
    · cases h
  | collect id =>
    obtain ⟨slot, hslot, h⟩ := Option.bind_eq_some_iff.mp h
    split at h
    · rename_i ht
      exact .inr ⟨id, slot, _, _, hslot, .collect ht, (Option.some.inj h).symm⟩
    · cases h

/-- Messages change neither the side nor the number of openings. -/
theorem ConnState.receive_keeps {s : ConnState} (h : s.receive allow msg = some r) :
    r.1.side = s.side ∧ r.1.opened = s.opened := by
  cases msg with
  | chanOpen tag sender datagram request window maxpack =>
    rw [receive, inputOpen] at h
    dsimp only at h
    generalize allow s.side s.asked request = decision at h
    cases decision with
    | none => exact Option.some.inj h ▸ ⟨rfl, rfl⟩
    | some d =>
      obtain ⟨x, -, rfl⟩ := Option.map_eq_some_iff.mp h
      exact ⟨rfl, rfl⟩
  | confirm tag recipient sender window maxpack =>
    rw [receive, inputConfirm] at h
    generalize channelLookup s.table recipient = slot at h
    cases slot with
    | none => cases h
    | some slot =>
      dsimp only at h
      split at h
      · cases h
      · exact Option.some.inj h ▸ ⟨rfl, rfl⟩
  | failure tag recipient =>
    rw [receive, inputFailure] at h
    generalize channelLookup s.table recipient = slot at h
    cases slot with
    | none => cases h
    | some slot =>
      dsimp only at h
      split at h
      · cases h
      · exact Option.some.inj h ▸ ⟨rfl, rfl⟩
  | chan tag recipient m =>
    rw [receive, inputChan] at h
    generalize channelLookup s.table recipient = slot at h
    cases slot with
    | none =>
      obtain ⟨x, -, rfl⟩ := Option.map_eq_some_iff.mp h
      exact ⟨rfl, rfl⟩
    | some slot =>
      dsimp only at h
      split at h
      · exact Option.some.inj h ▸ ⟨rfl, rfl⟩
      · exact Option.some.inj h ▸ ⟨rfl, rfl⟩
      · exact Option.some.inj h ▸ ⟨rfl, rfl⟩
      · exact Option.some.inj h ▸ ⟨rfl, rfl⟩
      · obtain ⟨x, -, rfl⟩ := Option.map_eq_some_iff.mp h
        exact ⟨rfl, rfl⟩

namespace SlotEvent

variable {id : ℕ} {slot : Slot} {x : Option Slot} {ms : List (ConnMsg γ)}

/-- The slot keeps its tag. -/
theorem tag_slot (h : SlotEvent id slot x ms) : ∀ y, x = some y → y.tag = slot.tag := by
  intro y hy
  cases h with
  | channel ht h =>
    obtain ⟨c, -, rfl⟩ := Option.map_eq_some_iff.mp hy
    rfl
  | connected ht => exact Option.some.inj hy ▸ rfl
  | connectFailed ht => exact Option.some.inj hy ▸ rfl
  | collect ht => cases hy

/-- The messages are about the slot's channel. -/
theorem tag_mail (h : SlotEvent id slot x ms) : ∀ m ∈ ms, m.tag = slot.tag := by
  intro m hm
  cases h with
  | channel ht h =>
    obtain ⟨m', -, rfl⟩ := List.mem_map.mp hm
    rfl
  | connected ht =>
    obtain rfl := List.mem_singleton.mp hm
    rfl
  | connectFailed ht =>
    obtain rfl := List.mem_singleton.mp hm
    rfl
  | collect ht => cases hm

theorem not_opening (h : SlotEvent id slot x ms) : slot.type ≠ .opening := by
  cases h with
  | channel ht h => exact fun h => absurd (ht.symm.trans h) (by decide)
  | connected ht => exact fun h => absurd (ht.symm.trans h) (by decide)
  | connectFailed ht => exact fun h => absurd (ht.symm.trans h) (by decide)
  | collect ht => exact fun h => absurd (ht.symm.trans h) (by decide)

theorem of_zombie (h : SlotEvent id slot x ms) (hz : slot.type = .zombie) : x = none ∧ ms = [] := by
  cases h with
  | channel ht h => exact absurd (ht.symm.trans hz) (by decide)
  | connected ht => exact absurd (ht.symm.trans hz) (by decide)
  | connectFailed ht => exact absurd (ht.symm.trans hz) (by decide)
  | collect ht => exact ⟨rfl, rfl⟩

theorem of_connecting (h : SlotEvent id slot x ms) (hc : slot.type = .connecting) :
    (x = some { slot with type := .opened } ∧ ms = [ConnState.confirmation id slot]) ∨
      (x = some { slot with type := .zombie } ∧ ms = [.failure slot.tag slot.remoteId]) := by
  cases h with
  | channel ht h => exact absurd (ht.symm.trans hc) (by decide)
  | connected ht => exact .inl ⟨rfl, rfl⟩
  | connectFailed ht => exact .inr ⟨rfl, rfl⟩
  | collect ht => exact absurd (ht.symm.trans hc) (by decide)

theorem of_opened (h : SlotEvent id slot x ms) (ho : slot.type = .opened) :
    ∃ e r, slot.chan.act e = some r ∧ x = (r.1.map fun c => { slot with chan := c }) ∧
      ms = r.2.map (.chan slot.tag slot.remoteId) := by
  cases h with
  | channel ht h => exact ⟨_, _, h, rfl, rfl⟩
  | connected ht => exact absurd (ht.symm.trans ho) (by decide)
  | connectFailed ht => exact absurd (ht.symm.trans ho) (by decide)
  | collect ht => exact absurd (ht.symm.trans ho) (by decide)

end SlotEvent

/-- The two channels of an accepted opening agree on their windows. -/
theorem chanReach_accepted (o : Bool) (p p' : ChanSetup) :
    ∃ pt, ChanReach pt ∧ pt o = { state := some (confirmedChannel p p') } ∧
      pt (!o) = { state := some (acceptedChannel p p') } := by
  have hfresh : ∀ p : ChanSetup, p.channel.Fresh := fun p => ⟨rfl, rfl, rfl, rfl, rfl, rfl⟩
  have hheld : ∀ p : ChanSetup, p.channel.held = p.window := by
    intro p
    unfold Channel.held Channel.extendedHeld
    show p.window + 0 + 0 + (if _ then 0 else 0) = p.window
    rw [ite_self]
    rfl
  let c : Bool → Channel := fun b => if b = o then confirmedChannel p p' else acceptedChannel p p'
  have hself : c o = confirmedChannel p p' := if_pos rfl
  have hother : c (!o) = acceptedChannel p p' := if_neg (Bool.not_ne_self o)
  refine ⟨established c, ⟨c, [], ?_, ⟨?_, ?_, ?_⟩, rfl⟩, ?_, ?_⟩
  · rw [forall_side o, hself, hother]
    exact ⟨⟨rfl, rfl, rfl, rfl, rfl, rfl⟩, ⟨rfl, rfl, rfl, rfl, rfl, rfl⟩⟩
  · cases o with
    | false => exact (congrArg Channel.datagram hself).trans (congrArg Channel.datagram hother).symm
    | true => exact (congrArg Channel.datagram hother).trans (congrArg Channel.datagram hself).symm
  · rw [forall_side o, Bool.not_not, hself, hother]
    exact ⟨Nat.le_refl _, Nat.le_refl _⟩
  · rw [forall_side o, hself, hother]
    exact ⟨(hheld p).trans_lt p.window_lt, (hheld p').trans_lt p'.window_lt⟩
  · rw [established, hself]
  · rw [established, hother]

namespace TagPhase

variable {t : Tag} {v : Bool → Option (ℕ × Slot)} {m : Bool → List (ConnMsg γ)} {b : Bool}

/-- The opening has been accepted and the confirmation is on its way. -/
theorem accept {i j : ℕ} {p p' : ChanSetup} (hv : v t.opener = some (i, askedSlot t p))
    (hv' : v (!t.opener) = some (j, ⟨t, .opened, i, acceptedChannel p p'⟩))
    (hm : m t.opener = [.confirm t i j p'.window p'.maxpack]) (hm' : m (!t.opener) = []) :
    TagPhase t v m := by
  obtain ⟨pt, hpt, hpo, hpp⟩ := chanReach_accepted t.opener p p'
  refine .accepted (j := j) hpt (by rw [hpo]) (by rw [hpo, hpp]; rfl) hv ?_ ?_ hm'
  · rw [hpp]
    exact hv'
  · rw [hpo, hpp]
    exact hm

/-- **Step lemma, local events.**  The tag of the slot moves to its next phase. -/
theorem act (h : TagPhase t v m) {i : ℕ} {slot : Slot} {x : Option Slot} {ms : List (ConnMsg γ)}
    (hb : v b = some (i, slot)) (he : SlotEvent i slot x ms) :
    TagPhase t (Function.update v b (x.map fun y => (i, y))) (mailAfter m b (m b) ms) := by
  -- Only the end that has not asked acts before the channel is open.
  have hside : ∀ {k p}, v t.opener = some (k, askedSlot t p) → b = !t.opener := by
    intro k p hv
    refine Bool.eq_not_of_ne fun hbo => ?_
    subst hbo
    obtain ⟨-, rfl⟩ := Prod.mk.inj (Option.some.inj (hb.symm.trans hv))
    exact he.not_opening rfl
  cases h with
  | gone hv hm =>
    obtain ⟨rfl, rfl⟩ := he.of_zombie (hv b i slot hb)
    refine .gone (fun d j y hy => ?_) ((forall_side b).mpr (by simp [hm]))
    by_cases hd : d = b
    · subst hd
      rw [Function.update_self] at hy
      cases hy
    · rw [Function.update_of_ne hd] at hy
      exact hv d j y hy
  | asked hv hv' hm hm' =>
    obtain rfl := hside hv
    cases hv'.symm.trans hb
  | @connecting i' j p p' hv hv' hm =>
    obtain rfl := hside hv
    obtain ⟨rfl, rfl⟩ := Prod.mk.inj (Option.some.inj (hv'.symm.trans hb))
    rcases he.of_connecting rfl with ⟨rfl, rfl⟩ | ⟨rfl, rfl⟩
    · exact @accept _ _ _ _ i' j p p' (by simpa using hv) (by simp) (by simp [hm]; rfl)
        (by simp [hm])
    · exact .refused (by simpa using hv) (by simp) (by simp [hm]) (by simp [hm])
  | refused hv hv' hm hm' =>
    obtain rfl := hside hv
    obtain ⟨rfl, rfl⟩ := he.of_zombie (hv' i slot hb)
    exact .refused (by simpa using hv) (by simp) (by simp [hm]) (by simp [hm'])
  | @accepted i' j p p' pt hpt hstate hnone hv hv' hm hm' =>
    obtain rfl := hside hv
    obtain ⟨c, hc, heq⟩ := Option.map_eq_some_iff.mp (hv'.symm.trans hb)
    obtain ⟨rfl, rfl⟩ := Prod.mk.inj heq
    obtain ⟨e, r, hr, rfl, rfl⟩ := he.of_opened rfl
    have hle := hpt.taken_le t.opener
    refine @accepted _ _ _ _ i' j p p' _ (hpt.act hc hr) (by simpa using hstate) ?_
      (by simpa using hv) ?_ ?_ (by simp [hm'])
    · simpa using hnone
    · simp [Duplex.Party.after, Function.comp_def]
    · simp [hm, Duplex.incoming_after _ hle]
  | @live id pt hpt hv hm =>
    obtain ⟨c, hc, heq⟩ := Option.map_eq_some_iff.mp ((hv b).symm.trans hb)
    obtain ⟨rfl, rfl⟩ := Prod.mk.inj heq
    obtain ⟨e, r, hr, rfl, rfl⟩ := he.of_opened rfl
    have hle := hpt.taken_le !b
    rw [Bool.not_not] at hle
    refine @live _ _ _ _ id _ (hpt.act hc hr) ((forall_side b).mpr ⟨?_, ?_⟩)
      ((forall_side b).mpr ⟨?_, ?_⟩)
    · simp [Duplex.Party.after, Function.comp_def]
    · simp [hv]
    · simp [hm, Duplex.Party.after, Duplex.Party.incoming]
    · simp [hm, Duplex.incoming_after _ hle]

/-- **Step lemma, messages with an address.**  The next message of a tag that is not a request
finds the slot of its tag, and is accepted. -/
theorem deliver (h : TagPhase t v m) (allow : Bool → ℕ → γ → Option (ChanSetup × Bool))
    {s : ConnState} {rest : List (ConnMsg γ)} {k : ℕ}
    (hs : Holds Slot.tag s.table t (v b)) (hb : m b = msg :: rest) (hk : msg.recipient = some k) :
    ∃ slot y ms, v b = some (k, slot) ∧ slot.type ≠ .zombie ∧ y.tag = t ∧
      (∀ x ∈ ms, x.tag = t) ∧ s.receive allow msg = some (s.setSlot k (some y), ms) ∧
      TagPhase t (Function.update v b (some (k, y))) (mailAfter m b rest ms) := by
  cases h with
  | gone hv hm => cases (hm b).symm.trans hb
  | asked hv hv' hm hm' =>
    rcases Bool.eq_or_eq_not b t.opener with rfl | rfl
    · cases hm.symm.trans hb
    · obtain ⟨rfl, -⟩ := List.cons.inj (hm'.symm.trans hb)
      cases hk
  | connecting hv hv' hm => cases (hm b).symm.trans hb
  | @refused i p hv hv' hm hm' =>
    rcases Bool.eq_or_eq_not b t.opener with rfl | rfl
    · obtain ⟨rfl, rfl⟩ := List.cons.inj (hm.symm.trans hb)
      obtain rfl := Option.some.inj hk
      have hlook := channelLookup_of_holds (hv ▸ hs) (by simp [askedSlot])
      refine ⟨_, { askedSlot t p with type := .zombie }, [], hv, by simp [askedSlot], rfl,
        by simp, ?_, .gone (fun d j y hy => ?_) ((forall_side t.opener).mpr (by simp [hm']))⟩
      · rw [ConnState.receive, ConnState.inputFailure, hlook]
        rfl
      · rcases Bool.eq_or_eq_not d t.opener with rfl | rfl
        · rw [Function.update_self] at hy
          obtain ⟨-, rfl⟩ := Prod.mk.inj (Option.some.inj hy)
          rfl
        · rw [Function.update_of_ne (Bool.not_ne_self _)] at hy
          exact hv' j y hy
    · cases hm'.symm.trans hb
  | @accepted i j p p' pt hpt hstate hnone hv hv' hm hm' =>
    rcases Bool.eq_or_eq_not b t.opener with rfl | rfl
    · obtain ⟨rfl, rfl⟩ := List.cons.inj (hm.symm.trans hb)
      obtain rfl := Option.some.inj hk
      have hlook := channelLookup_of_holds (hv ▸ hs) (by simp [askedSlot])
      refine ⟨_, ⟨t, .opened, j, confirmedChannel p p'⟩, [], hv, by simp [askedSlot], rfl,
        by simp, ?_, @live _ _ _ _ (fun d => if d = t.opener then i else j) pt hpt
          ((forall_side t.opener).mpr ⟨?_, ?_⟩) ((forall_side t.opener).mpr ⟨?_, ?_⟩)⟩
      · rw [ConnState.receive, ConnState.inputConfirm, hlook]
        rfl
      · simp [hstate]
      · simp [hv']
      · simp
      · simp [hm', hnone]
    · cases hm'.symm.trans hb
  | @live id pt hpt hv hm =>
    obtain ⟨m0, rest0, hin, rfl, rfl⟩ := List.map_eq_cons_iff.mp ((hm b).symm.trans hb)
    obtain rfl := Option.some.inj hk
    obtain ⟨c, r, hc, hr, rfl, hpt'⟩ := hpt.deliver hin
    have hslot : v b = some (id b, ⟨t, .opened, id !b, c⟩) := by rw [hv, hc]; rfl
    have hlook := channelLookup_of_holds (hslot ▸ hs) (by simp)
    have hle := hpt.taken_le !b
    rw [Bool.not_not] at hle
    refine ⟨_, ⟨t, .opened, id !b, r.1⟩, r.2.map (.chan t (id !b)), hslot, by simp, rfl,
      by simp [ConnMsg.tag], ?_, @live _ _ _ _ id _ hpt'
        ((forall_side b).mpr ⟨?_, ?_⟩) ((forall_side b).mpr ⟨?_, ?_⟩)⟩
    · rw [ConnState.receive, ConnState.inputChan, hlook]
      show (c.receive m0).map _ = _
      rw [hr]
      rfl
    · simp [Duplex.Party.after, Duplex.Party.take]
    · simp [hv]
    · simp
    · have hsent : ((pt b).after (some r.1, r.2)).take.sent = (pt b).sent ++ r.2 := rfl
      simp [hm, Duplex.Party.incoming, hsent, List.drop_append_of_le_length hle]

/-- **Step lemma, requests.**  The other end refuses, accepts, or begins to connect. -/
theorem deliver_open (h : TagPhase t v m) {s : ConnState} {rest : List (ConnMsg γ)}
    (hs : Holds Slot.tag s.table t (v b)) (hb : m b = msg :: rest) (hk : msg.recipient = none)
    (hr : s.receive allow msg = some r) :
    ∃ w, Step Slot.tag s.table r.1.table t w ∧ (∀ x ∈ r.2, x.tag = t) ∧
      TagPhase t (Function.update v b w) (mailAfter m b rest r.2) := by
  cases h with
  | gone hv hm => cases (hm b).symm.trans hb
  | connecting hv hv' hm => cases (hm b).symm.trans hb
  | refused hv hv' hm hm' =>
    rcases Bool.eq_or_eq_not b t.opener with rfl | rfl
    · obtain ⟨rfl, -⟩ := List.cons.inj (hm.symm.trans hb)
      cases hk
    · cases hm'.symm.trans hb
  | accepted hpt hstate hnone hv hv' hm hm' =>
    rcases Bool.eq_or_eq_not b t.opener with rfl | rfl
    · obtain ⟨rfl, -⟩ := List.cons.inj (hm.symm.trans hb)
      cases hk
    · cases hm'.symm.trans hb
  | live hpt hv hm =>
    obtain ⟨m0, rest0, -, rfl, -⟩ := List.map_eq_cons_iff.mp ((hm b).symm.trans hb)
    cases hk
  | @asked i p request hv hv' hm hm' =>
    rcases Bool.eq_or_eq_not b t.opener with rfl | rfl
    · cases hm.symm.trans hb
    obtain ⟨rfl, rfl⟩ := List.cons.inj (hm'.symm.trans hb)
    rw [hv'] at hs
    rw [ConnState.receive, ConnState.inputOpen] at hr
    dsimp only at hr
    generalize allow s.side s.asked request = decision at hr
    cases decision with
    | none =>
      obtain rfl := Option.some.inj hr
      refine ⟨none, .refl hs, by simp [ConnMsg.tag], .refused (i := i) (p := p) ?_ ?_ ?_ ?_⟩
      · simpa using hv
      · simp
      · simp [hm]
      · simp
    | some d =>
      obtain ⟨p', connects⟩ := d
      obtain ⟨⟨table', j⟩, hnew, rfl⟩ := Option.map_eq_some_iff.mp hr
      refine ⟨_, .alloc hs rfl hnew, ?_⟩
      cases connects with
      | true =>
        refine ⟨by simp, @connecting _ _ _ _ i j p p' ?_ ?_ ((forall_side t.opener).mpr ?_)⟩
        · simpa using hv
        · rw [Function.update_self]
          rfl
        · simp [hm]
      | false =>
        refine ⟨?_, @accept _ _ _ _ i j p p' ?_ ?_ ?_ ?_⟩
        · simp [ConnState.confirmation, ConnMsg.tag]
        · simpa using hv
        · rw [Function.update_self]
          rfl
        · rw [mailAfter_not_self, hm]
          rfl
        · simp

end TagPhase

/-! ## All tags -/

/-- **What is known about one tag.** -/
structure TagInv (s : Bool → ConnEnd γ) (t : Tag) (v : Bool → Option (ℕ × Slot)) : Prop where
  holds : ∀ b, Holds Slot.tag (s b).state.table t (v b)
  phase : TagPhase t v fun b => mail t ((s b).incoming (s !b))
  /-- Nothing is known of an opening that has not been asked for. -/
  unborn : (s t.opener).state.opened ≤ t.serial →
    (∀ b, v b = none) ∧ ∀ b, mail t ((s b).incoming (s !b)) = []

/-- **The invariant of a connection.** -/
structure ConnInv (s : Bool → ConnEnd γ) : Prop where
  side : ∀ b, (s b).state.side = b
  taken : ∀ b, (s b).taken ≤ (s !b).sent.length
  tags : ∀ t, ∃ v, TagInv s t v

/-- **A move that concerns one tag**: the end `b` takes `got` and sends `ms`. -/
structure TagMove (t : Tag) (b : Bool) (s : Bool → ConnEnd γ) (got ms : List (ConnMsg γ))
    (w : Option (ℕ × Slot)) (p : ConnEnd γ) : Prop where
  side : p.state.side = (s b).state.side
  opened : (s b).state.opened ≤ p.state.opened
  table : Step Slot.tag (s b).state.table p.state.table t w
  sent : p.sent = (s b).sent ++ ms
  incoming : (s b).incoming (s !b) = got ++ p.incoming (s !b)
  taken : p.taken ≤ (s !b).sent.length
  tagGot : ∀ x ∈ got, x.tag = t
  tagSent : ∀ x ∈ ms, x.tag = t

theorem mailAfter_nil (m : Bool → List (ConnMsg γ)) (b : Bool) : mailAfter m b (m b) [] = m := by
  funext d
  rcases Bool.eq_or_eq_not d b with rfl | rfl
  · rw [mailAfter_self]
  · rw [mailAfter_not, List.append_nil]

section Move

variable {t : Tag} {b : Bool} {s : Bool → ConnEnd γ} {got ms : List (ConnMsg γ)}
  {w : Option (ℕ × Slot)} {p : ConnEnd γ}

/-- The messages of any tag after a move. -/
theorem TagMove.mail_eq (h : TagMove t b s got ms w p) (hs : ConnInv s) (t' : Tag) :
    (fun d => mail t' ((Function.update s b p d).incoming (Function.update s b p !d))) =
      mailAfter (fun d => mail t' ((s d).incoming (s !d))) b (mail t' (p.incoming (s !b)))
        (mail t' ms) := by
  have hle := hs.taken !b
  rw [Bool.not_not] at hle
  funext d
  rcases Bool.eq_or_eq_not d b with rfl | rfl
  · rw [mailAfter_self, Function.update_self, Function.update_of_ne (Bool.not_ne_self _)]
  · rw [mailAfter_not, Bool.not_not, Function.update_self,
      Function.update_of_ne (Bool.not_ne_self _), ← mail_append]
    refine congrArg (mail t') ?_
    rw [Duplex.Party.incoming, Duplex.Party.incoming, h.sent, List.drop_append_of_le_length hle]

/-- **Frame.**  The other tags are not concerned. -/
theorem TagMove.frame (h : TagMove t b s got ms w p) (hs : ConnInv s) {t' : Tag} (ht : t' ≠ t)
    (hv : TagInv s t' v) : TagInv (Function.update s b p) t' v := by
  have hmail : (fun d => mail t' ((Function.update s b p d).incoming (Function.update s b p !d))) =
      fun d => mail t' ((s d).incoming (s !d)) := by
    have hgot : mail t' (p.incoming (s !b)) = mail t' ((s b).incoming (s !b)) := by
      rw [h.incoming, mail_append, mail_of_ne h.tagGot ht, List.nil_append]
    rw [h.mail_eq hs, mail_of_ne h.tagSent ht, hgot]
    exact mailAfter_nil _ b
  refine ⟨(forall_side b).mpr ⟨?_, ?_⟩, hmail ▸ hv.phase, fun hn => ?_⟩
  · rw [Function.update_self]
    exact h.table.others t' _ ht (hv.holds b)
  · rw [Function.update_of_ne (Bool.not_ne_self b)]
    exact hv.holds !b
  · have hle : (s t'.opener).state.opened ≤ t'.serial := by
      rcases Bool.eq_or_eq_not t'.opener b with hb | hb
      · rw [hb, Function.update_self] at hn
        rw [hb]
        exact h.opened.trans hn
      · rw [hb, Function.update_of_ne (Bool.not_ne_self b)] at hn
        rw [hb]
        exact hn
    exact ⟨(hv.unborn hle).1, fun d => (congrFun hmail d).trans ((hv.unborn hle).2 d)⟩

/-- **Moves keep the invariant** when they take their tag to its next phase. -/
theorem ConnInv.move (hs : ConnInv s) (h : TagMove t b s got ms w p) (hv : TagInv s t v)
    (hborn : t.serial < (Function.update s b p t.opener).state.opened)
    (hphase : TagPhase t (Function.update v b w)
      (mailAfter (fun d => mail t ((s d).incoming (s !d))) b (mail t (p.incoming (s !b))) ms)) :
    ConnInv (Function.update s b p) := by
  refine ⟨(forall_side b).mpr ⟨?_, ?_⟩, (forall_side b).mpr ⟨?_, ?_⟩, fun t' => ?_⟩
  · rw [Function.update_self, h.side]
    exact hs.side b
  · rw [Function.update_of_ne (Bool.not_ne_self b)]
    exact hs.side !b
  · rw [Function.update_self, Function.update_of_ne (Bool.not_ne_self b)]
    exact h.taken
  · have hle := hs.taken !b
    rw [Bool.not_not] at hle ⊢
    rw [Function.update_self, Function.update_of_ne (Bool.not_ne_self b), h.sent,
      List.length_append]
    omega
  · by_cases ht : t' = t
    · subst ht
      refine ⟨Function.update v b w, (forall_side b).mpr ⟨?_, ?_⟩, ?_, fun hn => ?_⟩
      · rw [Function.update_self, Function.update_self]
        exact h.table.own
      · rw [Function.update_of_ne (Bool.not_ne_self b), Function.update_of_ne (Bool.not_ne_self b)]
        exact hv.holds !b
      · rw [h.mail_eq hs, mail_of_tag h.tagSent]
        exact hphase
      · omega
    · obtain ⟨u, hu⟩ := hs.tags t'
      exact ⟨u, h.frame hs ht hu⟩

/-- A tag that has been asked for stays so. -/
theorem TagMove.born (h : TagMove t b s got ms w p) (hv : TagInv s t v)
    (hne : v b ≠ none ∨ mail t ((s b).incoming (s !b)) ≠ []) :
    t.serial < (Function.update s b p t.opener).state.opened := by
  have hold : t.serial < (s t.opener).state.opened := by
    by_contra hn
    obtain ⟨hnone, hnil⟩ := hv.unborn (by omega)
    exact hne.elim (fun h => h (hnone b)) fun h => h (hnil b)
  rcases Bool.eq_or_eq_not t.opener b with hb | hb
  · rw [hb, Function.update_self]
    rw [hb] at hold
    exact hold.trans_le h.opened
  · rw [hb, Function.update_of_ne (Bool.not_ne_self b)]
    rwa [hb] at hold

end Move

/-! ## Steps and runs -/

/-- **Step lemma** for local events. -/
theorem ConnInv.act (hs : ConnInv s) {b : Bool} {e : ConnEvent γ} (h : (s b).state.act e = some r) :
    ConnInv (Function.update s b ((s b).after r)) := by
  rcases ConnState.act_cases h with ⟨p, request, h⟩ | ⟨id, slot, x, ms, hslot, he, rfl⟩
  · obtain ⟨⟨table', i⟩, hnew, rfl⟩ := Option.map_eq_some_iff.mp h
    have htag : (⟨(s b).state.side, (s b).state.opened⟩ : Tag) = ⟨b, (s b).state.opened⟩ := by
      rw [hs.side b]
    rw [htag] at hnew ⊢
    -- The tag is new: nothing is known of it.
    obtain ⟨v, hv⟩ := hs.tags ⟨b, (s b).state.opened⟩
    obtain ⟨hnone, hnil⟩ := hv.unborn (Nat.le_refl _)
    have hmove : TagMove ⟨b, (s b).state.opened⟩ b s []
        [.chanOpen ⟨b, (s b).state.opened⟩ i p.datagram request p.window p.maxpack]
        (some (i, askedSlot ⟨b, (s b).state.opened⟩ p)) ((s b).after
          ({ (s b).state with table := table', opened := (s b).state.opened + 1 },
            [.chanOpen ⟨b, (s b).state.opened⟩ i p.datagram request p.window p.maxpack])) := {
      side := rfl
      opened := Nat.le_succ _
      table := .alloc (hnone b ▸ hv.holds b) rfl hnew
      sent := rfl
      incoming := rfl
      taken := hs.taken b
      tagGot := by simp
      tagSent := by simp [ConnMsg.tag] }
    refine hs.move hmove hv ?_ ?_
    · rw [Function.update_self]
      exact Nat.lt_succ_self _
    · refine @TagPhase.asked _ _ _ _ i p request ?_ ?_ ?_ ?_
      · rw [Function.update_self]
      · rw [Function.update_of_ne (Bool.not_ne_self b)]
        exact hnone !b
      · rw [mailAfter_self]
        exact hnil b
      · rw [mailAfter_not, hnil, List.nil_append]
  · obtain ⟨v, hv⟩ := hs.tags slot.tag
    have hb : v b = some (id, slot) := (hv.holds b).eq_some hslot rfl
    have hmove : TagMove slot.tag b s [] ms (x.map fun y => (id, y))
        ((s b).after ((s b).state.setSlot id x, ms)) := {
      side := rfl
      opened := Nat.le_refl _
      table := .set (hb ▸ hv.holds b) he.tag_slot
      sent := rfl
      incoming := rfl
      taken := hs.taken b
      tagGot := by simp
      tagSent := he.tag_mail }
    exact hs.move hmove hv (hmove.born hv (.inl (by simp [hb]))) (hv.phase.act hb he)

/-- The next message is the first of its tag. -/
theorem ConnInv.mail_next {b : Bool} (hm : (s !b).sent[(s b).taken]? = some msg) :
    mail msg.tag ((s b).incoming (s !b)) =
      msg :: mail msg.tag ((s b).take.incoming (s !b)) := by
  rw [Duplex.incoming_take hm]
  exact List.filter_cons_of_pos (decide_eq_true rfl)

/-- **Step lemma** for messages. -/
theorem ConnInv.deliver (hs : ConnInv s) {b : Bool} (hm : (s !b).sent[(s b).taken]? = some msg)
    (h : (s b).state.receive allow msg = some r) :
    ConnInv (Function.update s b ((s b).after r).take) := by
  obtain ⟨v, hv⟩ := hs.tags msg.tag
  have hnext := ConnInv.mail_next hm
  have hstep : ∃ w, Step Slot.tag (s b).state.table r.1.table msg.tag w ∧
      (∀ x ∈ r.2, x.tag = msg.tag) ∧
      TagPhase msg.tag (Function.update v b w) (mailAfter
        (fun d => mail msg.tag ((s d).incoming (s !d))) b
        (mail msg.tag ((s b).take.incoming (s !b))) r.2) := by
    rcases hk : msg.recipient with _ | k
    · exact hv.phase.deliver_open (hv.holds b) hnext hk h
    · obtain ⟨slot, y, ms, hslot, -, hy, hms, hr, hphase⟩ :=
        hv.phase.deliver allow (hv.holds b) hnext hk
      obtain rfl := Option.some.inj (hr.symm.trans h)
      exact ⟨_, .set (hslot ▸ hv.holds b) (fun z hz => Option.some.inj hz ▸ hy), hms, hphase⟩
  obtain ⟨w, htable, htags, hphase⟩ := hstep
  obtain ⟨hside, hopened⟩ := ConnState.receive_keeps h
  have hmove : TagMove msg.tag b s [msg] r.2 w ((s b).after r).take := {
    side := hside
    opened := hopened.ge
    table := htable
    sent := rfl
    incoming := Duplex.incoming_take hm
    taken := (List.getElem?_eq_some_iff.mp hm).1
    tagGot := by simp
    tagSent := htags }
  exact hs.move hmove hv (hmove.born hv (.inr (by simp [hnext]))) hphase

/-- **Run lemma.** -/
theorem connInv_run {es : List (Duplex.Event (ConnEvent γ))}
    (h : run (Duplex.step (connMachine allow)) connStart es = some s) : ConnInv s := by
  refine inv_run (I := ConnInv) (fun s ev s' hs hstep => ?_) h ?_
  · cases ev with
    | act b e =>
      obtain ⟨r, hr, rfl⟩ := Option.map_eq_some_iff.mp hstep
      exact hs.act hr
    | deliver b =>
      obtain ⟨m, hm, hstep⟩ := Option.bind_eq_some_iff.mp hstep
      obtain ⟨r, hr, rfl⟩ := Option.map_eq_some_iff.mp hstep
      exact hs.deliver hm hr
  · refine ⟨fun b => rfl, fun b => Nat.le_refl 0, fun t => ⟨fun _ => none, fun b => holds_nil, ?_,
      fun _ => ⟨fun b => rfl, fun b => rfl⟩⟩⟩
    exact .gone (fun b i x hx => by cases hx) fun b => rfl

/-- The message of a channel that is open. -/
def ConnMsg.body : ConnMsg γ → Option ChanMsg
  | .chan _ _ x => some x
  | _ => none

theorem filterMap_body_map (t : Tag) (i : ℕ) (ms : List ChanMsg) :
    (ms.map (ConnMsg.chan t i : ChanMsg → ConnMsg γ)).filterMap ConnMsg.body = ms := by
  rw [List.filterMap_map]
  exact List.filterMap_some

/-- **The channels of a connection are apart**, seen from the end `b`. -/
structure ChannelsApart (allow : Bool → ℕ → γ → Option (ChanSetup × Bool))
    (s : Bool → ConnEnd γ) (b : Bool) : Prop where
  /-- The next message, if it is for a channel, finds the slot of the channel it was sent for. -/
  next : ∀ m i, (s !b).sent[(s b).taken]? = some m → m.recipient = some i →
    ∃ slot r, channelLookup (s b).state.table i = some slot ∧ slot.tag = m.tag ∧
      (s b).state.receive allow m = some r
  /-- It is accepted as long as there is room in the table. -/
  room : (∀ slot, (channelNew (s b).state.table slot).isSome) →
    ∀ m, (s !b).sent[(s b).taken]? = some m → ∃ r, (s b).state.receive allow m = some r
  /-- An open channel, its other end and the messages of both on their way are a state that a
  connection with this channel alone can reach. -/
  single : ∀ i slot, get (s b).state.table i = some slot → slot.type = .opened →
    ∃ pt, ChanReach pt ∧ (pt b).state = some slot.chan ∧
      (∀ d, (mail slot.tag ((s d).incoming (s !d))).filterMap ConnMsg.body =
        (pt d).incoming (pt !d)) ∧
      ∀ j slot', get (s !b).state.table j = some slot' → slot'.tag = slot.tag →
        slot'.type = .opened → j = slot.remoteId ∧ (pt !b).state = some slot'.chan

theorem TagPhase.single {t : Tag} {m : Bool → List (ConnMsg γ)} (h : TagPhase t v m) {b : Bool}
    {i : ℕ} {slot : Slot} (hv : v b = some (i, slot)) (ho : slot.type = .opened) :
    ∃ pt, ChanReach pt ∧ (pt b).state = some slot.chan ∧
      (∀ d, (m d).filterMap ConnMsg.body = (pt d).incoming (pt !d)) ∧
      ∀ j slot', v (!b) = some (j, slot') → slot'.type = .opened →
        j = slot.remoteId ∧ (pt !b).state = some slot'.chan := by
  have hside : ∀ {k p}, v t.opener = some (k, askedSlot t p) → b = !t.opener := by
    intro k p hk
    refine Bool.eq_not_of_ne fun hb => ?_
    subst hb
    obtain ⟨-, rfl⟩ := Prod.mk.inj (Option.some.inj (hv.symm.trans hk))
    cases ho
  cases h with
  | gone hz hm => exact absurd ((hz b i slot hv).symm.trans ho) (by decide)
  | asked hk hk' hm hm' =>
    obtain rfl := hside hk
    cases hk'.symm.trans hv
  | connecting hk hk' hm =>
    obtain rfl := hside hk
    obtain ⟨-, rfl⟩ := Prod.mk.inj (Option.some.inj (hk'.symm.trans hv))
    cases ho
  | refused hk hk' hm hm' =>
    obtain rfl := hside hk
    exact absurd ((hk' i slot hv).symm.trans ho) (by decide)
  | @accepted i' j p p' pt hpt hstate hnone hk hk' hm hm' =>
    obtain rfl := hside hk
    obtain ⟨c, hc, heq⟩ := Option.map_eq_some_iff.mp (hk'.symm.trans hv)
    obtain ⟨rfl, rfl⟩ := Prod.mk.inj heq
    refine ⟨pt, hpt, hc, (forall_side t.opener).mpr ⟨?_, ?_⟩, fun k slot' hk2 ho' => ?_⟩
    · rw [hm]
      exact filterMap_body_map t i' _
    · rw [hm', Bool.not_not, hnone]
      rfl
    · -- The end that has asked does not know yet.
      rw [Bool.not_not] at hk2
      obtain ⟨-, rfl⟩ := Prod.mk.inj (Option.some.inj (hk.symm.trans hk2))
      cases ho'
  | @live id pt hpt hk hm =>
    obtain ⟨c, hc, heq⟩ := Option.map_eq_some_iff.mp ((hk b).symm.trans hv)
    obtain ⟨rfl, rfl⟩ := Prod.mk.inj heq
    refine ⟨pt, hpt, hc, fun d => ?_, fun j slot' hj _ => ?_⟩
    · rw [hm]
      exact filterMap_body_map t (id d) _
    · obtain ⟨c', hc', heq'⟩ := Option.map_eq_some_iff.mp ((hk !b).symm.trans hj)
      obtain ⟨rfl, rfl⟩ := Prod.mk.inj heq'
      exact ⟨rfl, hc'⟩

/-- **Multiplexing.**  In every run of a connection, each end's next message reaches the channel it
was sent for, although numbers are reused, and each open channel behaves as it does alone. -/
theorem multiplexed_channels {allow : Bool → ℕ → γ → Option (ChanSetup × Bool)}
    {es : List (Duplex.Event (ConnEvent γ))} {s : Bool → ConnEnd γ}
    (h : run (Duplex.step (connMachine allow)) connStart es = some s) (b : Bool) :
    ChannelsApart allow s b := by
  have hs := connInv_run h
  have hnext : ∀ m i, (s !b).sent[(s b).taken]? = some m → m.recipient = some i →
      ∃ slot r, channelLookup (s b).state.table i = some slot ∧ slot.tag = m.tag ∧
        (s b).state.receive allow m = some r := by
    intro m i hm hi
    obtain ⟨v, hv⟩ := hs.tags m.tag
    obtain ⟨slot, y, ms, hslot, hz, -, -, hr, -⟩ :=
      hv.phase.deliver allow (hv.holds b) (ConnInv.mail_next hm) hi
    have hb : Holds Slot.tag (s b).state.table m.tag (some (i, slot)) := hslot ▸ hv.holds b
    exact ⟨slot, _, channelLookup_of_holds hb hz, hb.get_eq.2, hr⟩
  refine ⟨hnext, fun hroom m hm => ?_, fun i slot hslot ho => ?_⟩
  · cases m with
    | chanOpen tag sender datagram request window maxpack =>
      rw [ConnState.receive, ConnState.inputOpen]
      dsimp only
      generalize allow (s b).state.side (s b).state.asked request = decision
      cases decision with
      | none => exact ⟨_, rfl⟩
      | some d =>
        obtain ⟨x, hx⟩ := Option.isSome_iff_exists.mp (hroom _)
        exact ⟨_, Option.map_eq_some_iff.mpr ⟨x, hx, rfl⟩⟩
    | confirm tag i sender window maxpack =>
      obtain ⟨-, r, -, -, hr⟩ := hnext _ i hm rfl
      exact ⟨r, hr⟩
    | failure tag i =>
      obtain ⟨-, r, -, -, hr⟩ := hnext _ i hm rfl
      exact ⟨r, hr⟩
    | chan tag i x =>
      obtain ⟨-, r, -, -, hr⟩ := hnext _ i hm rfl
      exact ⟨r, hr⟩
  · obtain ⟨v, hv⟩ := hs.tags slot.tag
    have hb : v b = some (i, slot) := (hv.holds b).eq_some hslot rfl
    obtain ⟨pt, hpt, hstate, hin, hpeer⟩ := hv.phase.single hb ho
    exact ⟨pt, hpt, hstate, hin, fun j slot' hget htag => hpeer j slot'
      ((hv.holds !b).eq_some hget htag)⟩

/-- A stream channel with a window of 100 bytes. -/
def streamSetup : ChanSetup where
  window := 100
  maxpack := 100
  window_lt := by decide

/-- The first request is accepted, the second has to wait for a connection, and the others are
refused. -/
def allowTwo : Bool → ℕ → Unit → Option (ChanSetup × Bool)
  | _, 0, _ => some (streamSetup, false)
  | _, 1, _ => some (streamSetup, true)
  | _, _, _ => none

/-- Three requests at once.  The first channel sends before its confirmation has arrived, the
second gets its connection, and the slot of the third is free again. -/
def threeRequests : List (Duplex.Event (ConnEvent Unit)) :=
  [.act false (.opn streamSetup ()), .act false (.opn streamSetup ()),
   .act false (.opn streamSetup ()), .deliver true, .deliver true, .deliver true,
   .act true (.channel 0 (.handleRfd (.data [7, 8]))), .act true (.channel 0 .outputPoll),
   .deliver false, .deliver false, .act false (.collect 2), .act true (.connected 1)]

theorem multiplexed_channels_threeRequests :
    ((run (Duplex.step (connMachine allowTwo)) connStart threeRequests).map fun s =>
      ((s false).state.table.map (Option.map Slot.type), (s false).incoming (s true))) =
        some (some .opened :: some .opening :: List.replicate 8 none,
          [.chan ⟨false, 0⟩ 0 (.data [7, 8]), .confirm ⟨false, 1⟩ 1 1 100 100]) ∧
    ∀ s, run (Duplex.step (connMachine allowTwo)) connStart threeRequests = some s →
      ∀ b, ChannelsApart allowTwo s b :=
  ⟨by decide +kernel, fun _ h b => multiplexed_channels h b⟩

end CSBuFLO
