import Courier.Intake
import Courier.Proofs.Basics
import Mathlib
/-!
# Layouts and the decoders that follow them

A `Layout` describes the byte strings of a format without saying how they are read: the complete
forms of a value, the fronts at whose last byte it is clear that no form comes of them, and the
strings that end inside a form.  `Intake.Follows` ties a decoder to a layout, and is kept when
decoders and layouts are put one behind another.
-/

namespace Courier

/-- What the byte strings of a format look like. -/
structure Layout (α : Type) where
  Form : Bytes → α → Prop
  /-- With the last of the bytes it is clear that no form starts with them. -/
  Refused : Bytes → WireError → Prop
  Unfinished : Bytes → Segment → Prop

namespace Layout

def exactly (segment : Segment) (size : Nat) : Layout Bytes where
  Form bytes value := bytes.length = size ∧ bytes = value
  Refused _ _ := False
  Unfinished bytes s := bytes.length < size ∧ s = segment

def nothing {α : Type} (value : α) : Layout α where
  Form bytes v := bytes = [] ∧ v = value
  Refused _ _ := False
  Unfinished _ _ := False

def bind {α β : Type} (l : Layout α) (next : α → Layout β) : Layout β where
  Form bytes value :=
    ∃ front rest x, bytes = front ++ rest ∧ l.Form front x ∧ (next x).Form rest value
  Refused bytes e :=
    l.Refused bytes e ∨
      ∃ front rest x, bytes = front ++ rest ∧ l.Form front x ∧ (next x).Refused rest e
  Unfinished bytes s :=
    l.Unfinished bytes s ∨
      ∃ front rest x, bytes = front ++ rest ∧ l.Form front x ∧ (next x).Unfinished rest s

def Covers {α : Type} (l : Layout α) (bytes : Bytes) : Prop :=
  (∃ front rest v, bytes = front ++ rest ∧ l.Form front v) ∨
    (∃ front rest e, bytes = front ++ rest ∧ l.Refused front e) ∨ ∃ s, l.Unfinished bytes s

theorem exactly_form (segment : Segment) {bytes : Bytes} {size : Nat}
    (hsize : bytes.length = size) :
    (exactly segment size).Form bytes bytes :=
  ⟨hsize, rfl⟩

theorem bind_form {α β : Type} {l : Layout α} {next : α → Layout β} {front rest : Bytes} {x : α}
    {value : β} (hfront : l.Form front x) (hrest : (next x).Form rest value) :
    (l.bind next).Form (front ++ rest) value :=
  ⟨front, rest, x, rfl, hfront, hrest⟩

theorem bind_nothing_form {α β : Type} {l : Layout α} {f : α → β} {front : Bytes} {x : α}
    {value : β} (hfront : l.Form front x) (hvalue : value = f x) :
    (l.bind fun x => nothing (f x)).Form front value :=
  ⟨front, [], x, (List.append_nil front).symm, hfront, rfl, hvalue⟩

end Layout

namespace Intake

variable {α β : Type}

@[simp] theorem bind_eq (i : Intake α) (f : α → Intake β) : i >>= f = i.bind f := rfl

theorem bind_assoc {γ : Type} (i : Intake α) (f : α → Intake β) (g : β → Intake γ) :
    (i.bind f).bind g = i.bind fun value => (f value).bind g := by
  induction i with
  | done value => rfl
  | fail cause => rfl
  | read segment size next ih =>
    simp only [bind]
    congr
    funext bytes
    exact ih bytes

theorem runBytes_bind (i : Intake α) (f : α → Intake β) (bytes : Bytes) :
    (i.bind f).runBytes bytes =
      match i.runBytes bytes with
      | (.ok value, rest) => (f value).runBytes rest
      | (.error e, rest) => (.error e, rest) := by
  induction i generalizing bytes with
  | done value => rfl
  | fail cause => rfl
  | read segment size next ih =>
    simp only [bind, runBytes]
    cases Bytes.takeExactly size bytes with
    | none => rfl
    | some split => exact ih split.1 split.2

theorem runBytes_bind_ok {i : Intake α} {bytes rest : Bytes} {value : α}
    (hi : i.runBytes bytes = (.ok value, rest)) (f : α → Intake β) :
    (i.bind f).runBytes bytes = (f value).runBytes rest := by
  rw [runBytes_bind, hi]

theorem runBytes_bind_error {i : Intake α} {bytes rest : Bytes} {e : WireError}
    (hi : i.runBytes bytes = (.error e, rest)) (f : α → Intake β) :
    (i.bind f).runBytes bytes = (.error e, rest) := by
  rw [runBytes_bind, hi]

theorem runBytes_read_append {segment : Segment} {size : Nat} {next : Bytes → Intake α}
    {front : Bytes} (hfront : front.length = size) (rest : Bytes) :
    (read segment size next).runBytes (front ++ rest) = (next front).runBytes rest := by
  rw [runBytes, Bytes.takeExactly_append hfront]

theorem runBytes_read_of_le {segment : Segment} {size : Nat} {next : Bytes → Intake α}
    {bytes : Bytes} (henough : size ≤ bytes.length) :
    (read segment size next).runBytes bytes =
      (next (bytes.take size)).runBytes (bytes.drop size) := by
  rw [runBytes, Bytes.takeExactly_of_le henough]

theorem runBytes_read_short {segment : Segment} {size : Nat} {next : Bytes → Intake α}
    {bytes : Bytes} (hshort : bytes.length < size) :
    (read segment size next).runBytes bytes =
      (.error (.transport segment (shortage segment size bytes.length)), []) := by
  rw [runBytes, Bytes.takeExactly_eq_none hshort]

@[simp] theorem fault_shortage (segment : Segment) (size received : Nat) :
    (shortage segment size received).fault = .unexpectedEof := by
  cases segment <;> rfl

/-- The decoder takes exactly a form or a refused front off the bytes, and takes all the bytes of
an unfinished string. -/
structure Follows (i : Intake α) (l : Layout α) : Prop where
  form : ∀ {front v}, l.Form front v → ∀ rest, i.runBytes (front ++ rest) = (.ok v, rest)
  refused : ∀ {front e}, l.Refused front e →
    ∀ rest, i.runBytes (front ++ rest) = (.error e, rest)
  unfinished : ∀ {bytes s}, l.Unfinished bytes s →
    ∃ size received, i.runBytes bytes = (.error (.transport s (shortage s size received)), [])
  covers : ∀ bytes, l.Covers bytes

theorem done_follows (value : α) : (done value).Follows (.nothing value) where
  form := by
    rintro front v ⟨rfl, rfl⟩ rest
    rfl
  refused h := h.elim
  unfinished h := h.elim
  covers bytes := Or.inl ⟨[], bytes, value, rfl, rfl, rfl⟩

theorem take_follows (segment : Segment) (size : Nat) :
    (take segment size).Follows (.exactly segment size) where
  form := by
    rintro front v ⟨hlength, rfl⟩ rest
    exact runBytes_read_append hlength rest
  refused h := h.elim
  unfinished := by
    rintro bytes s ⟨hshort, rfl⟩
    exact ⟨size, bytes.length, runBytes_read_short hshort⟩
  covers bytes := by
    by_cases henough : size ≤ bytes.length
    · exact Or.inl ⟨bytes.take size, bytes.drop size, _, (List.take_append_drop _ _).symm,
        List.length_take_of_le henough, rfl⟩
    · exact Or.inr (Or.inr ⟨segment, Nat.lt_of_not_le henough, rfl⟩)

theorem Follows.unfinished_of_form {i : Intake α} {l : Layout α} (hi : i.Follows l)
    {front rest : Bytes} {v : α} (hform : l.Form (front ++ rest) v) (hrest : rest ≠ []) :
    ∃ s, l.Unfinished front s := by
  have hall := hi.form hform []
  rw [List.append_nil] at hall
  rcases hi.covers front with ⟨front', back, x, rfl, hfront⟩ | ⟨front', back, e, rfl, hfront⟩ | hs
  · have hpart := hi.form hfront (back ++ rest)
    rw [← List.append_assoc, hall] at hpart
    simp [hrest] at hpart
  · have hpart := hi.refused hfront (back ++ rest)
    rw [← List.append_assoc, hall] at hpart
    simp at hpart
  · exact hs

theorem Follows.form_unique {α : Type} {i : Intake α} {l : Layout α} (hi : i.Follows l)
    {front front' rest rest' : Bytes} {v v' : α} (hfront : l.Form front v)
    (hfront' : l.Form front' v') (hsame : front ++ rest = front' ++ rest') :
    front = front' ∧ v = v' ∧ rest = rest' := by
  have hrun := hi.form hfront rest
  rw [hsame, hi.form hfront' rest'] at hrun
  simp only [Prod.mk.injEq, Except.ok.injEq] at hrun
  obtain ⟨rfl, rfl⟩ := hrun
  exact ⟨List.append_cancel_right hsame, rfl, rfl⟩

/-- Decoders one behind another follow their layouts one behind another; what the second one does
with a value that has no form does not matter. -/
theorem Follows.bind_of_form {i : Intake α} {l : Layout α} {f : α → Intake β} {next : α → Layout β}
    (hi : i.Follows l) (hf : ∀ front x, l.Form front x → (f x).Follows (next x)) :
    (i.bind f).Follows (l.bind next) where
  form := by
    rintro _ v ⟨front, back, x, rfl, hfront, hback⟩ rest
    rw [List.append_assoc, runBytes_bind_ok (hi.form hfront _) f]
    exact (hf front x hfront).form hback rest
  refused := by
    rintro _ e (hrefused | ⟨front, back, x, rfl, hfront, hback⟩) rest
    · exact runBytes_bind_error (hi.refused hrefused rest) f
    · rw [List.append_assoc, runBytes_bind_ok (hi.form hfront _) f]
      exact (hf front x hfront).refused hback rest
  unfinished := by
    rintro _ s (hunfinished | ⟨front, back, x, rfl, hfront, hback⟩)
    · obtain ⟨size, received, hrun⟩ := hi.unfinished hunfinished
      exact ⟨size, received, runBytes_bind_error hrun f⟩
    · rw [runBytes_bind_ok (hi.form hfront _) f]
      exact (hf front x hfront).unfinished hback
  covers bytes := by
    rcases hi.covers bytes with ⟨front, back, x, rfl, hfront⟩ | ⟨front, back, e, rfl, hfront⟩ |
      ⟨s, hs⟩
    · rcases (hf front x hfront).covers back with
        ⟨mid, rest, v, rfl, hmid⟩ | ⟨mid, rest, e, rfl, hmid⟩ |
        ⟨s, hs⟩
      · exact Or.inl ⟨front ++ mid, rest, v, (List.append_assoc ..).symm, front, mid, x, rfl,
          hfront, hmid⟩
      · exact Or.inr (Or.inl ⟨front ++ mid, rest, e, (List.append_assoc ..).symm,
          Or.inr ⟨front, mid, x, rfl, hfront, hmid⟩⟩)
      · exact Or.inr (Or.inr ⟨s, Or.inr ⟨front, back, x, rfl, hfront, hs⟩⟩)
    · exact Or.inr (Or.inl ⟨front, back, e, rfl, Or.inl hfront⟩)
    · exact Or.inr (Or.inr ⟨s, Or.inl hs⟩)

theorem Follows.bind {i : Intake α} {l : Layout α} {f : α → Intake β} {next : α → Layout β}
    (hi : i.Follows l) (hf : ∀ x, (f x).Follows (next x)) : (i.bind f).Follows (l.bind next) :=
  hi.bind_of_form fun _ x _ => hf x

theorem Follows.runBytes_eq_ok_iff {i : Intake α} {l : Layout α} (hi : i.Follows l)
    {bytes rest : Bytes} {v : α} :
    i.runBytes bytes = (.ok v, rest) ↔ ∃ front, bytes = front ++ rest ∧ l.Form front v := by
  constructor
  · intro hrun
    rcases hi.covers bytes with ⟨front, behind, v', rfl, hfront⟩ | ⟨front, behind, e, rfl, hfront⟩ |
      ⟨s, hs⟩
    · rw [hi.form hfront] at hrun
      cases hrun
      exact ⟨front, rfl, hfront⟩
    · rw [hi.refused hfront] at hrun
      cases hrun
    · obtain ⟨size, received, hshort⟩ := hi.unfinished hs
      rw [hshort] at hrun
      cases hrun
  · rintro ⟨front, rfl, hfront⟩
    exact hi.form hfront rest

theorem Follows.runBytes_eq_error_iff {i : Intake α} {l : Layout α} (hi : i.Follows l)
    {bytes rest : Bytes} {e : WireError} :
    i.runBytes bytes = (.error e, rest) ↔
      (∃ front, bytes = front ++ rest ∧ l.Refused front e) ∨
        rest = [] ∧ (∃ s, l.Unfinished bytes s) ∧ (i.runBytes bytes).1 = .error e := by
  constructor
  · intro hrun
    rcases hi.covers bytes with ⟨front, behind, v', rfl, hfront⟩ | ⟨front, behind, e, rfl, hfront⟩ |
      ⟨s, hs⟩
    · rw [hi.form hfront] at hrun
      cases hrun
    · rw [hi.refused hfront] at hrun
      cases hrun
      exact .inl ⟨front, rfl, hfront⟩
    · obtain ⟨size, received, hshort⟩ := hi.unfinished hs
      have hrest : rest = [] := by
        rw [hshort] at hrun
        cases hrun
        rfl
      exact .inr ⟨hrest, ⟨s, hs⟩, congrArg Prod.fst hrun⟩
  · rintro (⟨front, rfl, hfront⟩ | ⟨rfl, ⟨s, hs⟩, he⟩)
    · exact hi.refused hfront rest
    · obtain ⟨size, received, hshort⟩ := hi.unfinished hs
      rw [hshort] at he ⊢
      cases he
      rfl

end Intake

end Courier
