import Courier.Framing
import Mathlib
/-!
# Sinks with a limit

A sink that fails from some place on accepts what is written up to that place, whatever the size of
the pieces and however often it is interrupted (`Sink.writeAll_eq`).  Of segments that are written
one after another it accepts a front, and the failure is one of the segment in which that front ends
(`Frame.writeSegments_eq`).
-/

namespace Courier

namespace Sink

/-- How many of so many bytes the sink still accepts. -/
def room (s : Sink) (wanted : Nat) : Nat :=
  match s.failure with
  | none => wanted
  | some f => min wanted (f.after - s.position)

/-- What a sink without room fails with. -/
def refusal (s : Sink) : TransportError :=
  match s.failure with
  | none => acceptsNothing
  | some f => f.cause.getD acceptsNothing

def Advanced (s s' : Sink) (content : Bytes) : Prop :=
  s'.accepted = s.accepted ++ content ∧ s'.position = s.position + content.length ∧
    s'.failure = s.failure

def accepting (s : Sink) (content : Bytes) : Sink :=
  { s with accepted := s.accepted ++ content, position := s.position + content.length }

theorem advanced_accepting (s : Sink) (content : Bytes) :
    s.Advanced (s.accepting content) content :=
  ⟨rfl, rfl, rfl⟩

theorem advanced_nil (s : Sink) : s.Advanced s [] := by
  simp [Advanced]

theorem Advanced.trans {s s' s'' : Sink} {content content' : Bytes} (h : s.Advanced s' content)
    (h' : s'.Advanced s'' content') : s.Advanced s'' (content ++ content') := by
  obtain ⟨haccepted, hposition, hfailure⟩ := h
  obtain ⟨haccepted', hposition', hfailure'⟩ := h'
  refine ⟨?_, ?_, hfailure'.trans hfailure⟩
  · rw [haccepted', haccepted, List.append_assoc]
  · rw [hposition', hposition, List.length_append, Nat.add_assoc]

theorem room_le (s : Sink) (wanted : Nat) : s.room wanted ≤ wanted := by
  unfold room
  split
  · exact Nat.le_refl _
  · exact Nat.min_le_left _ _

theorem room_of_le (s : Sink) {wanted more : Nat} (h : wanted ≤ more) :
    s.room wanted = min wanted (s.room more) := by
  unfold room
  cases s.failure with
  | none => simp only; omega
  | some f => simp only; omega

theorem Advanced.room_add {s s' : Sink} {content : Bytes} (h : s.Advanced s' content)
    {wanted : Nat} (hcontent : content.length ≤ s.room wanted) :
    s.room wanted = content.length + s'.room (wanted - content.length) := by
  obtain ⟨-, hposition, hfailure⟩ := h
  unfold room at hcontent ⊢
  rw [hposition, hfailure]
  cases hs : s.failure with
  | none =>
    simp only [hs] at hcontent ⊢
    omega
  | some f =>
    simp only [hs] at hcontent ⊢
    omega

theorem Advanced.refusal_eq {s s' : Sink} {content : Bytes} (h : s.Advanced s' content) :
    s'.refusal = s.refusal := by
  unfold refusal
  rw [h.2.2]

/-! ## One call -/

theorem accept_cases (s : Sink) {bytes : Bytes} {most : Nat} (hmost : 0 < most)
    (hle : most ≤ bytes.length) :
    (s.room bytes.length = 0 ∧ ∃ reply, s.accept bytes most = (reply, s) ∧
        (reply = .failed s.refusal ∨ reply = .accepted 0 ∧ s.refusal = acceptsNothing)) ∨
      ∃ count s', s.accept bytes most = (.accepted count, s') ∧ 0 < count ∧
        count ≤ s.room bytes.length ∧ s.Advanced s' (bytes.take count) ∧
        s'.schedule = s.schedule := by
  unfold accept
  cases hs : s.failure with
  | none =>
    have hroom : s.room bytes.length = bytes.length := by simp only [room, hs]
    refine Or.inr ⟨most, s.accepting (bytes.take most), ?_, hmost, hroom.symm ▸ hle,
      s.advanced_accepting _, rfl⟩
    simp only [accepting, List.length_take_of_le hle, hs]
  | some f =>
    have hroom : s.room bytes.length = min bytes.length (f.after - s.position) := by
      simp only [room, hs]
    by_cases hfull : f.after ≤ s.position
    · refine Or.inl ⟨by omega, ?_⟩
      simp only [if_pos hfull]
      cases hcause : f.cause with
      | none =>
        have hrefusal : s.refusal = acceptsNothing := by simp [refusal, hs, hcause]
        exact ⟨_, rfl, Or.inr ⟨rfl, hrefusal⟩⟩
      | some cause =>
        have hrefusal : s.refusal = cause := by simp [refusal, hs, hcause]
        exact ⟨_, rfl, Or.inl (hrefusal ▸ rfl)⟩
    · have hcount : min most (f.after - s.position) ≤ bytes.length := by omega
      refine Or.inr ⟨min most (f.after - s.position), s.accepting (bytes.take _), ?_, by omega,
        by omega, s.advanced_accepting _, rfl⟩
      simp only [if_neg hfull, accepting, List.length_take_of_le hcount, hs]

theorem call_cases (s : Sink) {bytes : Bytes} (hbytes : bytes ≠ []) :
    (∃ s', s.call bytes = (.interrupted, s') ∧ s.Advanced s' [] ∧
        s'.schedule.length < s.schedule.length) ∨
      (s.room bytes.length = 0 ∧ ∃ reply s', s.call bytes = (reply, s') ∧ s.Advanced s' [] ∧
        (reply = .failed s.refusal ∨ reply = .accepted 0 ∧ s.refusal = acceptsNothing)) ∨
      ∃ count s', s.call bytes = (.accepted count, s') ∧ 0 < count ∧
        count ≤ s.room bytes.length ∧ s.Advanced s' (bytes.take count) ∧
        s'.schedule.length ≤ s.schedule.length := by
  have hlength : 0 < bytes.length := List.length_pos_iff.2 hbytes
  unfold call
  cases hschedule : s.schedule with
  | nil =>
    rcases s.accept_cases hlength (Nat.le_refl _) with
      ⟨hroom, reply, haccept, hreply⟩ | ⟨count, s', haccept, hcount, hle, hadvanced, hsame⟩
    · exact Or.inr (Or.inl ⟨hroom, reply, s, haccept, s.advanced_nil, hreply⟩)
    · refine Or.inr (Or.inr ⟨count, s', haccept, hcount, hle, hadvanced, ?_⟩)
      rw [hsame, hschedule]
  | cons delivery later =>
    cases delivery with
    | interrupted =>
      exact Or.inl ⟨{ s with schedule := later }, rfl, by simp [Advanced], by simp⟩
    | upTo most =>
      have hmost : 0 < min bytes.length (most + 1) := by omega
      rcases ({ s with schedule := later } : Sink).accept_cases hmost (Nat.min_le_left _ _) with
        ⟨hroom, reply, haccept, hreply⟩ | ⟨count, s', haccept, hcount, hle, hadvanced, hsame⟩
      · exact Or.inr (Or.inl ⟨hroom, reply, _, haccept, by simp [Advanced], hreply⟩)
      · refine Or.inr (Or.inr ⟨count, s', haccept, hcount, hle, hadvanced, ?_⟩)
        rw [hsame]
        simp

/-! ## Writing all the bytes -/

theorem pushWithin_eq {calls : Nat} (s : Sink) (bytes : Bytes)
    (hcalls : s.schedule.length + bytes.length < calls) :
    ∃ s', pushWithin calls s bytes =
        (if s.room bytes.length = bytes.length then .ok () else .error s.refusal, s') ∧
      s.Advanced s' (bytes.take (s.room bytes.length)) := by
  -- Every call but the last shortens the schedule or the bytes.
  induction calls generalizing s bytes with
  | zero => omega
  | succ calls ih =>
    rw [pushWithin]
    by_cases hbytes : bytes = []
    · subst hbytes
      have hroom : s.room 0 = 0 := Nat.le_zero.1 (s.room_le 0)
      exact ⟨s, by simp [hroom], by simpa using s.advanced_nil⟩
    · rw [if_neg (by simpa using hbytes)]
      rcases s.call_cases hbytes with ⟨s', hcall, hadvanced, hschedule⟩ |
        ⟨hroom, reply, s', hcall, hadvanced, hreply⟩ |
        ⟨count, s', hcall, hcount, hle, hadvanced, hschedule⟩
      · simp only [hcall]
        obtain ⟨s'', hpush, hadvanced'⟩ := ih s' bytes (by omega)
        have hroom : s.room bytes.length = s'.room bytes.length := by
          rw [hadvanced.room_add (Nat.zero_le _)]
          simp
        rw [hadvanced.refusal_eq, ← hroom] at hpush
        rw [← hroom] at hadvanced'
        exact ⟨s'', hpush, by simpa using hadvanced.trans hadvanced'⟩
      · have hshort : ¬ s.room bytes.length = bytes.length := by
          rw [hroom]
          exact fun h => hbytes (List.length_eq_zero_iff.1 h.symm)
        rw [if_neg hshort, hroom, List.take_zero]
        rcases hreply with rfl | ⟨rfl, hrefusal⟩
        · simp only [hcall]
          exact ⟨s', rfl, hadvanced⟩
        · simp only [hcall, hrefusal]
          exact ⟨s', rfl, hadvanced⟩
      · obtain ⟨k, rfl⟩ : ∃ k, count = k + 1 := ⟨count - 1, by omega⟩
        have hfits := hle.trans (s.room_le bytes.length)
        have hfront : (bytes.take (k + 1)).length = k + 1 := List.length_take_of_le hfits
        have hback : (bytes.drop (k + 1)).length = bytes.length - (k + 1) := List.length_drop
        simp only [hcall]
        obtain ⟨s'', hpush, hadvanced'⟩ := ih s' (bytes.drop (k + 1)) (by omega)
        have hroom : s.room bytes.length = k + 1 + s'.room (bytes.drop (k + 1)).length := by
          rw [hadvanced.room_add (by omega), hfront, hback]
        refine ⟨s'', ?_, ?_⟩
        · have hiff : s'.room (bytes.drop (k + 1)).length = (bytes.drop (k + 1)).length ↔
              s.room bytes.length = bytes.length := by omega
          rw [hpush, hadvanced.refusal_eq]
          simp only [hiff]
        · rw [hroom, List.take_add]
          exact hadvanced.trans hadvanced'

/-- A sink accepts the bytes for which it has room, and fails if these are not all. -/
theorem writeAll_eq (s : Sink) (bytes : Bytes) :
    ∃ s', s.writeAll bytes =
        (if s.room bytes.length = bytes.length then .ok () else .error s.refusal, s') ∧
      s.Advanced s' (bytes.take (s.room bytes.length)) :=
  s.pushWithin_eq bytes (by omega)

end Sink

/-! ## Segments -/

namespace Frame

def HoldsOffset (segments : List (Segment × Bytes)) (offset : Nat) (segment : Segment) : Prop :=
  ∃ before bytes behind, segments = before ++ (segment, bytes) :: behind ∧
    (before.flatMap Prod.snd).length ≤ offset ∧
    offset < (before.flatMap Prod.snd).length + bytes.length

theorem HoldsOffset.cons {segments : List (Segment × Bytes)} {offset : Nat} {segment : Segment}
    (h : HoldsOffset segments offset segment) (front : Segment × Bytes) :
    HoldsOffset (front :: segments) (front.2.length + offset) segment := by
  obtain ⟨before, bytes, behind, rfl, hle, hlt⟩ := h
  refine ⟨front :: before, bytes, behind, rfl, ?_, ?_⟩
  · rw [List.flatMap_cons, List.length_append]
    omega
  · rw [List.flatMap_cons, List.length_append]
    omega

theorem HoldsOffset.lt_length {segments : List (Segment × Bytes)} {offset : Nat} {segment : Segment}
    (h : HoldsOffset segments offset segment) : offset < (segments.flatMap Prod.snd).length := by
  obtain ⟨before, bytes, behind, rfl, -, hlt⟩ := h
  simp only [List.flatMap_append, List.flatMap_cons, List.length_append]
  omega

/-- What is written of segments, and what becomes of it, depends on the room of the sink alone. -/
theorem writeSegments_eq (segments : List (Segment × Bytes)) (s : Sink) :
    ∃ result s', writeSegments segments s = (result, s') ∧
      s.Advanced s' ((segments.flatMap Prod.snd).take (s.room (segments.flatMap Prod.snd).length)) ∧
      (s.room (segments.flatMap Prod.snd).length = (segments.flatMap Prod.snd).length ∧
          result = .ok () ∨
        ∃ segment, HoldsOffset segments (s.room (segments.flatMap Prod.snd).length) segment ∧
          result = .error (.transport segment s.refusal)) := by
  induction segments generalizing s with
  | nil =>
    have hroom : s.room 0 = 0 := Nat.le_zero.1 (s.room_le 0)
    exact ⟨_, s, rfl, by simpa using s.advanced_nil, Or.inl ⟨by simpa using hroom, rfl⟩⟩
  | cons front segments ih =>
    obtain ⟨segment, bytes⟩ := front
    obtain ⟨s', hwrite, hadvanced⟩ := s.writeAll_eq bytes
    rw [List.flatMap_cons, List.length_append]
    generalize hrest : segments.flatMap Prod.snd = rest at ih ⊢
    rw [writeSegments, hwrite]
    have hroom := s.room_of_le (Nat.le_add_right bytes.length rest.length)
    by_cases hfull : s.room bytes.length = bytes.length
    · rw [hfull, List.take_length] at hadvanced
      have hsum : s.room (bytes.length + rest.length) = bytes.length + s'.room rest.length := by
        rw [hadvanced.room_add (by omega), Nat.add_sub_cancel_left]
      obtain ⟨result, s'', hsegments, hadvanced', hresult⟩ := ih s'
      simp only [if_pos hfull]
      rw [hsum, List.take_length_add_append]
      refine ⟨result, s'', hsegments, hadvanced.trans hadvanced', ?_⟩
      rcases hresult with ⟨hall, hresult⟩ | ⟨failing, hholds, hresult⟩
      · exact Or.inl ⟨by rw [hall], hresult⟩
      · rw [hadvanced.refusal_eq] at hresult
        exact Or.inr ⟨failing, hholds.cons (segment, bytes), hresult⟩
    · have hle := s.room_le bytes.length
      have hsame : s.room (bytes.length + rest.length) = s.room bytes.length := by omega
      simp only [if_neg hfull]
      rw [hsame, List.take_append_of_le_length hle]
      refine ⟨_, s', rfl, hadvanced, Or.inr ⟨segment, ⟨[], bytes, segments, rfl, ?_, ?_⟩, rfl⟩⟩
      · simp
      · simp only [List.flatMap_nil, List.length_nil]
        omega

theorem write_eq (frame : Frame) (f : Framing) (s : Sink) :
    ∃ result s', frame.write f s = (result, s') ∧
      s.Advanced s' ((frame.bytes f).take (s.room (frame.bytes f).length)) ∧
      (s.room (frame.bytes f).length = (frame.bytes f).length ∧ result = .ok () ∨
        ∃ segment, HoldsOffset (frame.segments f) (s.room (frame.bytes f).length) segment ∧
          result = .error (.transport segment s.refusal)) :=
  writeSegments_eq (frame.segments f) s

theorem write_of_room {frame : Frame} {f : Framing} {s : Sink}
    (hroom : s.room (frame.bytes f).length = (frame.bytes f).length) :
    ∃ s', frame.write f s = (.ok (), s') ∧ s.Advanced s' (frame.bytes f) := by
  obtain ⟨result, s', hwrite, hadvanced, hresult⟩ := frame.write_eq f s
  rw [hroom] at hadvanced hresult
  rw [List.take_length] at hadvanced
  rcases hresult with ⟨-, rfl⟩ | ⟨segment, hholds, -⟩
  · exact ⟨s', hwrite, hadvanced⟩
  · exact absurd hholds.lt_length (Nat.lt_irrefl _)

theorem write_of_room_lt {frame : Frame} {f : Framing} {s : Sink}
    (hroom : s.room (frame.bytes f).length < (frame.bytes f).length) :
    ∃ segment s', frame.write f s = (.error (.transport segment s.refusal), s') ∧
      s.Advanced s' ((frame.bytes f).take (s.room (frame.bytes f).length)) ∧
      HoldsOffset (frame.segments f) (s.room (frame.bytes f).length) segment := by
  obtain ⟨result, s', hwrite, hadvanced, hresult⟩ := frame.write_eq f s
  rcases hresult with ⟨hall, -⟩ | ⟨segment, hholds, rfl⟩
  · omega
  · exact ⟨segment, s', hwrite, hadvanced, hholds⟩

end Frame

end Courier
