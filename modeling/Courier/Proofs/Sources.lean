import Courier.Transport.Stream
import Courier.Proofs.Layout
/-!
# Reading from a source

What a source delivers are the bytes in front of its failure, in order, whatever the size of the
pieces and however often it is interrupted; a read that wants more than these ends as the source
does (`Source.readExactly_eq`).  So a decoder that is run on a source does what it does on the
plain byte string, but that it reports the failure of the source where it wants bytes behind it
(`Intake.run_eq`).
-/

namespace Courier

namespace Source

variable {s s' s'' : Source} {content content' : Bytes}

/-- The source has delivered some bytes. -/
structure Delivered (s s' : Source) (content : Bytes) : Prop where
  pending : s.pending = content ++ s'.pending
  position : s'.position = s.position + content.length

def Advanced (s s' : Source) (count : Nat) : Prop :=
  s'.pending = s.pending.drop count ∧ s'.position = s.position + count ∧ s'.failure = none

/-! ## In front of the failure -/

def reachable (s : Source) : Bytes :=
  match s.failure with
  | none => s.pending
  | some f => s.pending.take (f.after - s.position)

/-- The failure that the source comes to, if it does not end before. -/
def breakage (s : Source) : Option TransportError :=
  match s.failure with
  | none => none
  | some f => if f.after - s.position ≤ s.pending.length then some f.cause else none

theorem reachable_of_breakage_none (h : s.breakage = none) : s.reachable = s.pending := by
  unfold breakage at h
  unfold reachable
  cases hs : s.failure with
  | none => rfl
  | some f =>
    simp only [hs, ite_eq_right_iff, reduceCtorEq, imp_false] at h
    exact List.take_of_length_le (by omega)

theorem reachable_prefix (s : Source) : s.reachable <+: s.pending := by
  unfold reachable
  split
  · exact List.prefix_rfl
  · exact List.take_prefix _ _

structure Moved (s s' : Source) (content : Bytes) : Prop extends s.Delivered s' content where
  reachable : s.reachable = content ++ s'.reachable
  breakage : s'.breakage = s.breakage
  failure : s'.failure = s.failure

theorem Moved.nil (s : Source) : s.Moved s [] :=
  ⟨⟨rfl, rfl⟩, rfl, rfl, rfl⟩

theorem Moved.trans (h : s.Moved s' content) (h' : s'.Moved s'' content') :
    s.Moved s'' (content ++ content') where
  pending := by rw [h.pending, h'.pending, List.append_assoc]
  position := by rw [h'.position, h.position, List.length_append, Nat.add_assoc]
  reachable := by rw [h.reachable, h'.reachable, List.append_assoc]
  breakage := h'.breakage.trans h.breakage
  failure := h'.failure.trans h.failure

theorem Moved.pending_eq_drop (h : s.Moved s' content) :
    s'.pending = s.pending.drop content.length := by
  rw [h.pending, List.drop_left]

theorem Moved.advanced (h : s.Moved s' content) (hs : s.failure = none) :
    s.Advanced s' content.length :=
  ⟨h.pending_eq_drop, h.position, h.failure.trans hs⟩

theorem moved_schedule (s : Source) (schedule : List Delivery) :
    s.Moved { s with schedule } [] :=
  ⟨⟨rfl, rfl⟩, rfl, rfl, rfl⟩

def after (s : Source) (content : Bytes) : Source :=
  { s with
    pending := s.pending.drop content.length
    position := s.position + content.length }

theorem moved_after (h : content <+: s.reachable) : s.Moved (s.after content) content := by
  have hpending : s.pending = content ++ s.pending.drop content.length :=
    (List.prefix_iff_eq_append.1 (h.trans s.reachable_prefix)).symm
  have hlength := h.length_le
  refine ⟨⟨hpending, rfl⟩, ?_, ?_, rfl⟩
  · unfold reachable at hlength ⊢
    cases hs : s.failure with
    | none => simpa [after, hs] using hpending
    | some f =>
      simp only [hs, List.length_take] at hlength
      simp only [after, hs]
      conv_lhs => rw [hpending]
      rw [List.take_append, List.take_of_length_le (by omega), Nat.sub_add_eq]
  · unfold breakage reachable at *
    cases hs : s.failure with
    | none => simp [after, hs]
    | some f =>
      simp only [hs, List.length_take] at hlength
      simp only [after, hs, List.length_drop]
      congr 1
      rw [eq_iff_iff]
      omega

/-! ## One call -/

theorem deliver_cases (s : Source) (most : Nat) :
    (s.reachable = [] ∧ ∃ cause, s.breakage = some cause ∧ s.deliver most = (.failed cause, s)) ∨
      (s.reachable = [] → s.breakage = none) ∧
        s.deliver most = (.bytes (s.reachable.take most), s.after (s.reachable.take most)) := by
  have hdrop (n : Nat) : s.pending.drop n = s.pending.drop (s.pending.take n).length := by
    rw [List.length_take]
    rcases Nat.le_total n s.pending.length with h | h
    · rw [Nat.min_eq_left h]
    · rw [Nat.min_eq_right h, List.drop_length, List.drop_of_length_le h]
  unfold deliver reachable breakage after
  cases hs : s.failure with
  | none => exact Or.inr ⟨fun _ => rfl, by simp only [hdrop most]⟩
  | some f =>
    by_cases hfailed : f.after ≤ s.position
    · have hnone : f.after - s.position = 0 := by omega
      refine Or.inl ⟨by simp [hnone], f.cause, by simp [hnone], if_pos hfailed⟩
    · refine Or.inr ⟨?_, ?_⟩
      · intro hempty
        rcases List.take_eq_nil_iff.1 hempty with h | h
        · omega
        · simp only [h, List.length_nil]
          exact if_neg (by omega)
      · simp only [if_neg hfailed, List.take_take, hdrop (min most (f.after - s.position))]

theorem call_cases (s : Source) {room : Nat} (hroom : 0 < room) :
    (∃ s', s.call room = (.interrupted, s') ∧ s.Moved s' [] ∧
      s'.schedule.length < s.schedule.length) ∨
    (s.reachable = [] ∧ ∃ cause s', s.breakage = some cause ∧ s.call room = (.failed cause, s') ∧
      s.Moved s' []) ∨
    ∃ n s', s.call room = (.bytes (s.reachable.take n), s') ∧ 0 < n ∧ n ≤ room ∧
      (s.reachable = [] → s.breakage = none) ∧ s.Moved s' (s.reachable.take n) ∧
      s'.schedule.length ≤ s.schedule.length := by
  unfold call
  cases hschedule : s.schedule with
  | nil =>
    rcases s.deliver_cases room with ⟨hempty, cause, hcause, hdeliver⟩ | ⟨hends, hdeliver⟩
    · exact Or.inr (Or.inl ⟨hempty, cause, s, hcause, hdeliver, .nil s⟩)
    · exact Or.inr (Or.inr ⟨room, _, hdeliver, hroom, Nat.le_refl _, hends,
        moved_after (List.take_prefix _ _), by simp [after, hschedule]⟩)
  | cons delivery later =>
    have hlater := s.moved_schedule later
    cases delivery with
    | interrupted => exact Or.inl ⟨_, rfl, hlater, by simp⟩
    | upTo most =>
      rcases ({ s with schedule := later } : Source).deliver_cases (min room (most + 1)) with
        ⟨hempty, cause, hcause, hdeliver⟩ | ⟨hends, hdeliver⟩
      · exact Or.inr (Or.inl ⟨hempty, cause, _, hcause, hdeliver, hlater⟩)
      · exact Or.inr
          (Or.inr ⟨min room (most + 1), _, hdeliver, by omega, Nat.min_le_left _ _, hends,
          hlater.trans (moved_after (List.take_prefix _ _)), by simp [after]⟩)

/-! ## Exact reads -/

/-- The outcome of a read of `room` more bytes behind those gathered. -/
def outcome (s : Source) (room : Nat) (gathered : List Bytes) : Outcome :=
  if room ≤ s.reachable.length then .full (gathered.reverse.flatten ++ s.reachable.take room)
  else
    match s.breakage with
    | some cause => .failed cause
    | none => .ended (gathered.flatten.length + s.reachable.length)

theorem Moved.outcome_eq (h : s.Moved s' content) {room : Nat} (hroom : content.length ≤ room)
    (gathered : List Bytes) :
    s'.outcome (room - content.length) (content :: gathered) = s.outcome room gathered := by
  unfold outcome
  rw [h.breakage, h.reachable, List.length_append]
  by_cases hfull : room ≤ content.length + s'.reachable.length
  · rw [if_pos hfull, if_pos (by omega), List.take_append, List.take_of_length_le hroom]
    simp
  · rw [if_neg hfull, if_neg (by omega)]
    cases s.breakage with
    | some cause => rfl
    | none =>
      simp only [List.flatten_cons, List.length_append]
      congr 1
      omega

theorem gather_eq {calls room : Nat} (s : Source) (hcalls : s.schedule.length + room < calls)
    (gathered : List Bytes) :
    ∃ s', gather calls room gathered s = (s.outcome room gathered, s') ∧
      s.Moved s' (s.reachable.take room) := by
  -- Every call but the last shortens the schedule or the room.
  induction calls generalizing room s gathered with
  | zero => omega
  | succ calls ih =>
    rw [gather]
    by_cases hroom : room = 0
    · subst hroom
      exact ⟨s, by simp [outcome], .nil s⟩
    rw [if_neg hroom]
    rcases s.call_cases (Nat.pos_of_ne_zero hroom) with ⟨s', hcall, hmoved, hschedule⟩ |
      ⟨hempty, cause, s', hcause, hcall, hmoved⟩ |
      ⟨n, s', hcall, hn, hle, hends, hmoved, hschedule⟩
    · simp only [hcall]
      have hcalls' : s'.schedule.length + room < calls := by omega
      obtain ⟨s'', hgather, hmoved'⟩ := ih s' hcalls' gathered
      have hsame : s.reachable = s'.reachable := hmoved.reachable
      refine ⟨s'', ?_, ?_⟩
      · rw [hgather, outcome, outcome, hmoved.breakage, hsame]
      · rw [hsame]
        exact hmoved.trans hmoved'
    · simp only [hcall]
      refine ⟨s', ?_, ?_⟩
      · simp [outcome, hempty, hcause, hroom]
      · simpa [hempty] using hmoved
    · simp only [hcall]
      cases hcontent : s.reachable.take n with
      | nil =>
        have hempty : s.reachable = [] := by
          rcases List.take_eq_nil_iff.1 hcontent with h | h
          · omega
          · exact h
        refine ⟨s', ?_, ?_⟩
        · simp [outcome, hempty, hends hempty, hroom]
        · simpa [hempty] using hmoved
      | cons b rest =>
        simp only
        rw [← hcontent]
        have hsome : 0 < (s.reachable.take n).length := by simp [hcontent]
        have hfits : (s.reachable.take n).length ≤ room := (List.length_take_le _ _).trans hle
        have hcalls' : s'.schedule.length + (room - (s.reachable.take n).length) < calls := by omega
        obtain ⟨s'', hgather, hmoved'⟩ := ih s' hcalls' (s.reachable.take n :: gathered)
        refine ⟨s'', hgather.trans (by rw [hmoved.outcome_eq hfits]), ?_⟩
        have hsplit : s.reachable.take room = s.reachable.take n ++
            s'.reachable.take (room - (s.reachable.take n).length) := by
          conv_lhs => rw [hmoved.reachable]
          rw [List.take_append, List.take_of_length_le hfits]
        rw [hsplit]
        exact hmoved.trans hmoved'

/-- An exact read takes the bytes that are wanted if so many come before the failure, and else all
that come before it. -/
theorem readExactly_eq (s : Source) (size : Nat) :
    ∃ s', s.readExactly size = (s.outcome size [], s') ∧ s.Moved s' (s.reachable.take size) :=
  s.gather_eq (by omega) []

end Source

namespace Intake

variable {α : Type}

theorem runBytes_suffix (i : Intake α) (bytes : Bytes) :
    (i.runBytes bytes).2 <:+ bytes := by
  induction i generalizing bytes with
  | done value => exact List.suffix_refl bytes
  | fail cause => exact List.suffix_refl bytes
  | read segment size next ih =>
    by_cases henough : size ≤ bytes.length
    · rw [runBytes_read_of_le henough]
      exact (ih _ _).trans (List.drop_suffix size bytes)
    · rw [runBytes_read_short (Nat.lt_of_not_le henough)]
      exact List.nil_suffix

/-- How many bytes of a byte string a decoder takes. -/
def taken (i : Intake α) (bytes : Bytes) : Nat :=
  bytes.length - (i.runBytes bytes).2.length

theorem drop_taken (i : Intake α) (bytes : Bytes) :
    bytes.drop (i.taken bytes) = (i.runBytes bytes).2 := by
  obtain ⟨front, hfront⟩ := i.runBytes_suffix bytes
  have hlength := congrArg List.length hfront
  rw [List.length_append] at hlength
  have htaken : i.taken bytes = front.length := by
    unfold taken
    omega
  rw [htaken]
  conv_lhs => rw [← hfront]
  exact List.drop_left

theorem taken_le (i : Intake α) (bytes : Bytes) : i.taken bytes ≤ bytes.length :=
  Nat.sub_le _ _

theorem taken_read_of_le {segment : Segment} {size : Nat} {next : Bytes → Intake α}
    {bytes : Bytes} (henough : size ≤ bytes.length) :
    (read segment size next).taken bytes =
      size + (next (bytes.take size)).taken (bytes.drop size) := by
  have hsuffix := ((next (bytes.take size)).runBytes_suffix (bytes.drop size)).length_le
  rw [taken, taken, runBytes_read_of_le henough]
  rw [List.length_drop] at hsuffix ⊢
  omega

/-! ## Where the bytes end -/

/-- The segment of which a decoder wants bytes when there are no more. -/
def stopsIn : Intake α → Bytes → Option Segment
  | done _, _ => none
  | fail _, _ => none
  | read segment size next, bytes =>
    if size ≤ bytes.length then (next (bytes.take size)).stopsIn (bytes.drop size)
    else some segment

theorem runBytes_of_stopsIn {i : Intake α} {bytes : Bytes} {segment : Segment}
    (h : i.stopsIn bytes = some segment) :
    ∃ size received,
      i.runBytes bytes = (.error (.transport segment (shortage segment size received)), []) := by
  induction i generalizing bytes with
  | done value => cases h
  | fail cause => cases h
  | read segment' size next ih =>
    rw [stopsIn] at h
    split at h
    next henough =>
      rw [runBytes_read_of_le henough]
      exact ih _ h
    next hshort =>
      cases h
      exact ⟨size, bytes.length, runBytes_read_short (Nat.lt_of_not_le hshort)⟩

theorem runBytes_append {i : Intake α} {bytes : Bytes} (h : i.stopsIn bytes = none) (more : Bytes) :
    i.runBytes (bytes ++ more) = ((i.runBytes bytes).1, (i.runBytes bytes).2 ++ more) := by
  induction i generalizing bytes with
  | done value => rfl
  | fail cause => rfl
  | read segment size next ih =>
    rw [stopsIn] at h
    split at h
    next henough =>
      rw [runBytes_read_of_le henough,
        runBytes_read_of_le (henough.trans (by rw [List.length_append]; omega)),
        List.take_append_of_le_length henough, List.drop_append_of_le_length henough]
      exact ih _ h
    · cases h

theorem taken_append {i : Intake α} {bytes : Bytes} (h : i.stopsIn bytes = none) (more : Bytes) :
    i.taken (bytes ++ more) = i.taken bytes := by
  simp only [taken, runBytes_append h, List.length_append]
  omega

theorem lt_taken_of_stopsIn {i : Intake α} {bytes : Bytes} {segment : Segment}
    (h : i.stopsIn bytes = some segment) (more : Bytes) :
    bytes.length < i.taken (bytes ++ more) ∨
      ∃ segment', i.stopsIn (bytes ++ more) = some segment' := by
  induction i generalizing bytes with
  | done value => cases h
  | fail cause => cases h
  | read segment' size next ih =>
    rw [stopsIn] at h ⊢
    split at h
    next henough =>
      have hall : size ≤ (bytes ++ more).length := henough.trans (by simp)
      rw [taken_read_of_le hall, if_pos hall, List.take_append_of_le_length henough,
        List.drop_append_of_le_length henough]
      refine (ih _ h).imp_left fun hlt => ?_
      rw [List.length_drop] at hlt
      omega
    next hshort =>
      by_cases hall : size ≤ (bytes ++ more).length
      · rw [taken_read_of_le hall]
        exact Or.inl (by omega)
      · exact Or.inr ⟨segment', if_neg hall⟩

/-! ## Decoders on sources -/

/-- What a decoder makes of a source: that is what it makes of the bytes in front of the failure,
which it reports itself where it wants bytes behind them. -/
def outcome (i : Intake α) (s : Source) : Except WireError α :=
  match i.stopsIn s.reachable, s.breakage with
  | some segment, some cause => .error (.transport segment cause)
  | _, _ => (i.runBytes s.reachable).1

theorem run_eq (i : Intake α) (s : Source) :
    ∃ s', i.run s = (i.outcome s, s') ∧ s.Moved s' (s.reachable.take (i.taken s.reachable)) := by
  induction i generalizing s with
  | done value =>
    exact ⟨s, by simp [run, outcome, stopsIn, runBytes], by simpa [taken, runBytes] using .nil s⟩
  | fail cause =>
    exact ⟨s, by simp [run, outcome, stopsIn, runBytes], by simpa [taken, runBytes] using .nil s⟩
  | read segment size next ih =>
    obtain ⟨s', hread, hmoved⟩ := s.readExactly_eq size
    unfold outcome
    rw [run, hread, stopsIn]
    unfold Source.outcome
    by_cases henough : size ≤ s.reachable.length
    · obtain ⟨s'', hrun, hmoved'⟩ := ih (s.reachable.take size) s'
      have hleft : s'.reachable = s.reachable.drop size := by
        have hall := (List.take_append_drop size s.reachable).trans hmoved.reachable
        exact (List.append_cancel_left hall).symm
      rw [if_pos henough, if_pos henough, runBytes_read_of_le henough, taken_read_of_le henough,
        List.take_add, ← hleft, ← hmoved.breakage]
      exact ⟨s'', hrun, hmoved.trans hmoved'⟩
    · have hshort := Nat.lt_of_not_le henough
      rw [if_neg henough, if_neg henough, taken, runBytes_read_short hshort]
      rw [List.take_of_length_le hshort.le] at hmoved
      refine ⟨s', ?_, by simpa using hmoved⟩
      cases s.breakage with
      | some cause => rfl
      | none => simp

/-- A decoder does on a source what it does on the bytes to come, or it wants bytes behind the
failure and reports that in their segment. -/
theorem run_cases (i : Intake α) (s : Source) :
    ((s.breakage = none ∨ i.stopsIn s.reachable = none) ∧
      ∃ s', i.run s = ((i.runBytes s.pending).1, s') ∧
        s.Moved s' (s.pending.take (i.taken s.pending))) ∨
    ∃ segment cause s', i.stopsIn s.reachable = some segment ∧ s.breakage = some cause ∧
      i.run s = (.error (.transport segment cause), s') ∧ s.Moved s' s.reachable := by
  obtain ⟨s', hrun, hmoved⟩ := i.run_eq s
  cases hcause : s.breakage with
  | none =>
    rw [Source.reachable_of_breakage_none hcause] at hmoved
    refine Or.inl ⟨Or.inl rfl, s', ?_, hmoved⟩
    rw [hrun, outcome, hcause, Source.reachable_of_breakage_none hcause]
    cases i.stopsIn s.pending <;> rfl
  | some cause =>
    cases hstops : i.stopsIn s.reachable with
    | none =>
      obtain ⟨more, hmore⟩ := s.reachable_prefix
      have htaken := taken_append hstops more
      have hbytes := runBytes_append hstops more
      rw [hmore] at htaken hbytes
      refine Or.inl ⟨Or.inr rfl, s', ?_, ?_⟩
      · rw [hrun, outcome, hstops, hbytes]
      · rw [htaken, ← hmore, List.take_append_of_le_length (i.taken_le s.reachable)]
        exact hmoved
    | some segment =>
      obtain ⟨size, received, hbytes⟩ := runBytes_of_stopsIn hstops
      refine Or.inr ⟨segment, cause, s', rfl, rfl, ?_, ?_⟩
      · rw [hrun, outcome, hstops, hcause]
      · simpa [taken, hbytes] using hmoved

theorem run_eq_runBytes (i : Intake α) {s : Source} (hs : s.failure = none) :
    ∃ s', i.run s = ((i.runBytes s.pending).1, s') ∧ s.Advanced s' (i.taken s.pending) := by
  rcases i.run_cases s with ⟨-, s', hrun, hmoved⟩ | ⟨_, cause, _, -, hcause, -, -⟩
  · have hadvanced := hmoved.advanced hs
    rw [List.length_take_of_le (i.taken_le s.pending)] at hadvanced
    exact ⟨s', hrun, hadvanced⟩
  · simp [Source.breakage, hs] at hcause

theorem run_agrees (i : Intake α) (s : Source) :
    (∃ content, s.Delivered (i.run s).2 content ∧
        i.runBytes s.pending = ((i.run s).1, (i.run s).2.pending)) ∨
      ∃ segment cause, (i.run s).1 = .error (.transport segment cause) := by
  rcases i.run_cases s with ⟨-, s', hrun, hmoved⟩ | ⟨segment, cause, s', -, -, hrun, -⟩
  · rw [hrun]
    refine Or.inl ⟨_, hmoved.toDelivered, ?_⟩
    rw [hmoved.pending_eq_drop, List.length_take_of_le (i.taken_le s.pending), drop_taken]
  · rw [hrun]
    exact Or.inr ⟨segment, cause, rfl⟩

end Intake

end Courier
