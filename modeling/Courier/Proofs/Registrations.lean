import Courier.Proofs.SortedMaps
import Courier.Registry
/-!
# Registrations one after another

Under each byte a registry has the codec that was registered for it last, whether the byte came as
a named code or as a custom one (`Registry.registerAll_lastWins`).  Every registration answers
with the codec that it replaces, and warns if there is one.
-/

namespace Courier

theorem before_uint8_iff {a b : UInt8} : ByteKey.Before a b ↔ a < b := by
  change [a] < [b] ↔ a < b
  simp [List.cons_lt_cons_iff]

namespace Registry

/-! ## Runs -/

def registerAll (r : Registry) :
    List (Serialization × Codec) → Registry × List (Traced (Option Codec))
  | [] => (r, [])
  | (serialization, codec) :: calls =>
    let step := r.register serialization codec
    let later := step.1.registerAll calls
    (later.1, step.2 :: later.2)

def byCode (calls : List (Serialization × Codec)) : List (UInt8 × Codec) :=
  calls.map fun call => (call.1.code, call.2)

/-- The codec of the last registration for the byte; or none of them is for it, and it is the
codec that was there before, if any. -/
def HeldAfter (start : Registry) (calls : List (Serialization × Codec))
    (serialization : Serialization)
    (held : Option Codec) : Prop :=
  (∃ codec, IsLast (byCode calls) serialization.code codec ∧ held = some codec) ∨
    (∀ call ∈ calls, call.1.code ≠ serialization.code) ∧ held = start.lookup serialization

structure IsAnswer (answer : Traced (Option Codec)) (held : Option Codec)
    (serialization : Serialization) (codec : Codec) : Prop where
  result : answer.result = held
  silent : held = none → answer.log = []
  warns : ∀ previous, held = some previous → ∃ event, answer.log = [event] ∧
    event.severity = .warn ∧ event = replacement serialization.code previous codec

/-- What a registry tells of itself agrees with what is found in it. -/
structure IsConsistent (r : Registry) : Prop where
  contains : ∀ serialization, r.contains serialization = true ↔
    ∃ codec, r.lookup serialization = some codec
  codes_ascending : r.codes.Pairwise (· < ·)
  mem_codes : ∀ serialization, serialization.code ∈ r.codes ↔ r.contains serialization = true
  size : r.size = r.codes.length
  isEmpty : r.isEmpty = true ↔ r.codes = []

variable {r start : Registry} {calls : List (Serialization × Codec)}
  {serialization : Serialization} {codec : Codec}

theorem isConsistent (r : Registry) : r.IsConsistent where
  contains _ := Option.isSome_iff_exists
  codes_ascending := r.codecs.keys_pairwise.imp before_uint8_iff.1
  mem_codes _ := SortedMap.mem_keys_iff.trans Option.isSome_iff_exists.symm
  size := (List.length_map _).symm
  isEmpty := List.isEmpty_iff.trans List.map_eq_nil_iff.symm

theorem lookup_empty (serialization : Serialization) : empty.lookup serialization = none := rfl

theorem lookup_builtin (serialization : Serialization) :
    builtin.lookup serialization =
      if serialization.code = 1 then some .json
      else if serialization.code = 2 then some .binary
      else none := by
  have hentries : builtin.codecs.entries = [(1, .json), (2, .binary)] := rfl
  have hbytes (a b : UInt8) : ByteKey.bytes a = ByteKey.bytes b ↔ b = a :=
    ⟨fun h => (ByteKey.bytes_inj h).symm, fun h => h ▸ rfl⟩
  rw [lookup, SortedMap.get?, hentries]
  split
  case isTrue hjson => simp [hbytes, hjson]
  case isFalse hjson =>
    split
    case isTrue hbinary => simp [hbytes, hbinary]
    case isFalse hbinary => simp [hbytes, hjson, hbinary]

theorem codecs_registerAll (start : Registry) (calls : List (Serialization × Codec)) :
    (start.registerAll calls).1.codecs = start.codecs.insertAll (byCode calls) := by
  induction calls generalizing start with
  | nil => rfl
  | cons call calls ih => exact ih (start.register call.1 call.2).1

theorem registerAll_append (start : Registry) (before behind : List (Serialization × Codec)) :
    start.registerAll (before ++ behind) =
      (((start.registerAll before).1.registerAll behind).1,
        (start.registerAll before).2 ++ ((start.registerAll before).1.registerAll behind).2) := by
  induction before generalizing start with
  | nil => rfl
  | cons call before ih => simp only [List.cons_append, registerAll, ih]

theorem length_registerAll (start : Registry) (calls : List (Serialization × Codec)) :
    (start.registerAll calls).2.length = calls.length := by
  induction calls generalizing start with
  | nil => rfl
  | cons call calls ih => rw [registerAll, List.length_cons, List.length_cons, ih]

theorem getElem?_registerAll (start : Registry) (before behind : List (Serialization × Codec))
    (serialization : Serialization) (codec : Codec) :
    (start.registerAll (before ++ (serialization, codec) :: behind)).2[before.length]? =
      some ((start.registerAll before).1.register serialization codec).2 := by
  have hlength := length_registerAll start before
  rw [registerAll_append, List.getElem?_append_right hlength.le, hlength, Nat.sub_self]
  rfl

/-! ## What is held -/

theorem lookup_registerAll_eq_some_iff :
    (start.registerAll calls).1.lookup serialization = some codec ↔
      IsLast (byCode calls) serialization.code codec ∨
        (∀ call ∈ calls, call.1.code ≠ serialization.code) ∧
          start.lookup serialization = some codec := by
  rw [lookup, codecs_registerAll, SortedMap.get?_insertAll_eq_some_iff, isLast_append_iff,
    SortedMap.isLast_entries_iff, ← SortedMap.get?_eq_some_iff, byCode, List.forall_mem_map]
  rfl

theorem lookup_registerAll (start : Registry) (calls : List (Serialization × Codec))
    (serialization : Serialization) :
    HeldAfter start calls serialization ((start.registerAll calls).1.lookup serialization) := by
  rcases isLast_or_absent (byCode calls) serialization.code with ⟨codec, hlast⟩ | habsent
  · exact .inl ⟨codec, hlast, lookup_registerAll_eq_some_iff.2 (.inl hlast)⟩
  · have hother : ∀ call ∈ calls, call.1.code ≠ serialization.code := fun call hcall =>
      habsent _ (List.mem_map_of_mem hcall)
    refine .inr ⟨hother, Option.ext fun codec => lookup_registerAll_eq_some_iff.trans ?_⟩
    exact ⟨fun h => h.elim (fun hlast => absurd hlast (not_isLast_of_absent habsent)) And.right,
      fun h => .inr ⟨hother, h⟩⟩

theorem register_isAnswer (r : Registry) (serialization : Serialization) (codec : Codec) :
    IsAnswer (r.register serialization codec).2 (r.lookup serialization) serialization codec where
  result := rfl
  silent hnone := by simp [register, hnone]
  warns previous hprevious := ⟨_, by simp [register, hprevious], rfl, rfl⟩

theorem lookup_register_of_ne {serialization' : Serialization}
    (hcode : serialization'.code ≠ serialization.code) :
    (r.register serialization codec).1.lookup serialization' = r.lookup serialization' := by
  rcases lookup_registerAll r [(serialization, codec)] serialization' with ⟨_, hlast, -⟩ |
      ⟨-, hheld⟩
  · have habsent : ∀ e ∈ byCode [(serialization, codec)], e.1 ≠ serialization'.code := by
      simp [byCode, hcode.symm]
    exact absurd hlast (not_isLast_of_absent habsent)
  · exact hheld

/-! ## Runs and what they tell -/

/-- After any registrations, under named codes or custom ones, a byte stands for the codec of the
last one for it, or else for the codec of the registry at the start, which has none or the two
that are built in.  Each registration hands back what would have been found just before it, and
reports one warning if that is a codec and nothing if it is none.  What the registry tells of
itself agrees with what is found, and a further registration changes nothing under another byte.
-/
theorem registerAll_lastWins (start : Registry) (calls : List (Serialization × Codec)) :
    (∀ serialization,
      HeldAfter start calls serialization ((start.registerAll calls).1.lookup serialization)) ∧
    (∀ serialization, empty.lookup serialization = none ∧
      builtin.lookup serialization =
        if serialization.code = 1 then some .json
        else if serialization.code = 2 then some .binary
        else none) ∧
    (start.registerAll calls).2.length = calls.length ∧
    (∀ before serialization codec behind, calls = before ++ (serialization, codec) :: behind →
      ∃ answer, (start.registerAll calls).2[before.length]? = some answer ∧
        IsAnswer answer ((start.registerAll before).1.lookup serialization) serialization codec ∧
        HeldAfter start before serialization answer.result) ∧
    (start.registerAll calls).1.IsConsistent ∧
    ∀ serialization serialization' codec, serialization'.code ≠ serialization.code →
      ((start.registerAll calls).1.register serialization codec).1.lookup serialization' =
        (start.registerAll calls).1.lookup serialization' := by
  refine ⟨lookup_registerAll start calls,
    fun serialization => ⟨lookup_empty serialization, lookup_builtin serialization⟩,
    length_registerAll start calls, ?_, isConsistent _,
    fun _ _ _ hcode => lookup_register_of_ne hcode⟩
  rintro before serialization codec behind rfl
  have hanswer := register_isAnswer (start.registerAll before).1 serialization codec
  refine ⟨_, getElem?_registerAll start before behind serialization codec, hanswer, ?_⟩
  rw [hanswer.result]
  exact lookup_registerAll start before serialization

def aliasing : List (Serialization × Codec) :=
  [(.custom 2, .indentedJson), (.binary, .json), (.custom 3, .picky)]

theorem registerAll_lastWins_aliasing :
    aliasing = [(.custom 2, .indentedJson)] ++ (.binary, .json) :: [(.custom 3, .picky)] ∧
      (∃ answer, (builtin.registerAll aliasing).2[1]? = some answer ∧
        answer.result = some .indentedJson ∧ answer.log.map Event.severity = [.warn]) ∧
      Serialization.json.code ≠ (Serialization.custom 2).code ∧
      ((builtin.registerAll aliasing).1.register (.custom 2) .picky).1.lookup .json = some .json ∧
      (builtin.registerAll aliasing).1.lookup (.custom 2) = some .json ∧
      (builtin.registerAll aliasing).1.codes = [1, 2, 3] := by
  obtain ⟨-, -, -, hanswers, -, hother⟩ := registerAll_lastWins builtin aliasing
  have hcode : Serialization.json.code ≠ (Serialization.custom 2).code := by decide
  obtain ⟨answer, hanswer, his, -⟩ :=
    hanswers [(.custom 2, .indentedJson)] .binary .json [(.custom 3, .picky)] rfl
  obtain ⟨event, hlog, hwarn, -⟩ := his.warns .indentedJson rfl
  refine ⟨rfl, ⟨answer, hanswer, his.result, ?_⟩, hcode, ?_, rfl, rfl⟩
  · rw [hlog, List.map_singleton, hwarn]
  · rw [hother (.custom 2) .json .picky hcode]
    rfl

end Registry

end Courier
