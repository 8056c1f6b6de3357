import Courier.Json.Parser
import Courier.Json.Printer
import Courier.Proofs.Basics
import Courier.Proofs.SortedMaps
/-!
# JSON texts give their tree back

Of a tree that is made of strings and objects, the compact text is read back as the same tree.
Every byte of a string, escaped where it has to be, is gathered as itself; the members of an
object come in ascending order of their names, so that each goes to the end of those that were
read before.
-/

namespace Courier.Json

/-! ## Strings -/

theorem toNat_lt_of_lt_space {b : UInt8} (hb : b < 0x20) : b.toNat < 32 :=
  hb

theorem controlEscape (n : Nat) (hn : n < 32) :
    hexNumber? 0x30 0x30 (hexDigit (UInt8.ofNat n >>> 4)) (hexDigit (UInt8.ofNat n &&& 0x0F)) =
        some n ∧
      isTrailingSurrogate n = false ∧ isLeadingSurrogate n = false ∧
      String.utf8EncodeChar (Char.ofNat n) = [UInt8.ofNat n] := by
  revert n
  decide

theorem gatherString_numbered (gathered rest : Bytes) {b : UInt8} (hb : b < 0x20) :
    gatherString gathered
        (0x5C :: 0x75 :: 0x30 :: 0x30 :: hexDigit (b >>> 4) :: hexDigit (b &&& 0x0F) :: rest) =
      gatherString (b :: gathered) rest := by
  obtain ⟨hnumber, htrailing, hleading, hcharacter⟩ :=
    controlEscape b.toNat (toNat_lt_of_lt_space hb)
  rw [UInt8.ofNat_toNat] at hnumber hcharacter
  have hletter : letterEscape? 0x75 = none := by decide
  rw [gatherString]
  simp [hletter, hnumber, htrailing, hleading, pushCodePoint, hcharacter]

theorem gatherString_escapedByte (gathered rest : Bytes) (b : UInt8) :
    gatherString gathered (escapedByte b ++ rest) = gatherString (b :: gathered) rest := by
  unfold escapedByte
  split
  case isTrue hquote => subst hquote; rfl
  case isFalse hquote =>
  split
  case isTrue hbackslash => subst hbackslash; rfl
  case isFalse hbackslash =>
  split
  case isTrue hcontrol =>
    split
    case isTrue h => subst h; rfl
    split
    case isTrue h => subst h; rfl
    split
    case isTrue h => subst h; rfl
    split
    case isTrue h => subst h; rfl
    split
    case isTrue h => subst h; rfl
    exact gatherString_numbered gathered rest hcontrol
  case isFalse hcontrol =>
    rw [List.cons_append, List.nil_append, gatherString.eq_def]
    simp [hquote, hcontrol, hbackslash]

theorem gatherString_escaped (gathered rest bytes : Bytes) :
    gatherString gathered (bytes.flatMap escapedByte ++ 0x22 :: rest) =
      .ok (bytes.reverse ++ gathered, rest) := by
  induction bytes generalizing gathered with
  | nil =>
    rw [List.flatMap_nil, List.nil_append, gatherString.eq_def]
    rfl
  | cons b bytes ih =>
    rw [List.flatMap_cons, List.append_assoc, gatherString_escapedByte, ih, List.reverse_cons,
      List.append_assoc]
    rfl

theorem readString_printed (s : String) (rest : Bytes) :
    readString ((Text.bytes s).flatMap escapedByte ++ 0x22 :: rest) = .ok (s, rest) := by
  rw [readString, gatherString_escaped]
  simp only [bind, Except.bind, List.append_nil, List.reverse_reverse, Text.ofBytes?_bytes]
  rfl

/-! ## Values -/

/-- A tree of strings and objects, so many objects deep; the members of each are in the order of
their names. -/
def Textual : (depth : Nat) → Json → Prop
  | _, .string _ => True
  | depth + 1, .object members => Ascending members ∧ ∀ m ∈ members, Textual depth m.2
  | _, _ => False

theorem skipSpace_cons {b : UInt8} (hb : isSpace b = false) (rest : Bytes) :
    skipSpace (b :: rest) = b :: rest := by
  simp [skipSpace, hb]

theorem printAt_string (depth : Nat) (s : String) :
    printAt compact depth (.string s) = 0x22 :: ((Text.bytes s).flatMap escapedByte ++ [0x22]) := by
  simp only [printAt, printString, List.cons_append]

theorem printMembers_nil (depth : Nat) (first : Bool) :
    printMembers compact depth first [] = [0x7D] := by
  cases first <;> rfl

theorem printMembers_cons (depth : Nat) (first : Bool) (name : String) (value : Json)
    (members : List (String × Json)) :
    printMembers compact depth first ((name, value) :: members) =
      (if first then [] else [0x2C]) ++ 0x22 :: ((Text.bytes name).flatMap escapedByte ++
        0x22 :: 0x3A :: (printAt compact (depth + 1) value ++
          printMembers compact depth false members)) := by
  simp only [printMembers, printString, compact, List.append_assoc, List.nil_append,
    List.cons_append, List.append_nil]

theorem length_printMembers_cons (depth : Nat) (first : Bool) (name : String) (value : Json)
    (members : List (String × Json)) :
    (printAt compact (depth + 1) value).length + (printMembers compact depth false members).length +
      2 ≤ (printMembers compact depth first ((name, value) :: members)).length := by
  rw [printMembers_cons]
  simp only [List.length_append, List.length_cons]
  omega

theorem memberTurn_close (first : Bool) (rest : Bytes) :
    memberTurn first (0x7D :: rest) = .ok (.close rest) := by
  rw [memberTurn, skipSpace_cons (by decide)]
  rfl

theorem memberTurn_part (first : Bool) (rest : Bytes) :
    memberTurn first ((if first then [] else [0x2C]) ++ 0x22 :: rest) = .ok (.part rest) := by
  cases first with
  | true =>
    rw [memberTurn, if_pos rfl, List.nil_append, skipSpace_cons (by decide)]
    rfl
  | false =>
    rw [memberTurn, if_neg Bool.false_ne_true, List.cons_append, List.nil_append,
      skipSpace_cons (by decide)]
    simp only [skipSpace_cons (show isSpace 0x22 = false by decide)]
    rfl

theorem readName_printed (name : String) (rest : Bytes) :
    readName ((Text.bytes name).flatMap escapedByte ++ 0x22 :: 0x3A :: rest) =
      .ok (name, rest) := by
  rw [readName, readString_printed]
  simp only [bind, Except.bind, skipSpace_cons (show isSpace 0x3A = false by decide)]
  rfl

theorem readMembers_printed {depth limit : Nat} {members : List (String × Json)}
    (hvalues : ∀ m ∈ members, ∀ fuel depth' rest, (printAt compact depth' m.2).length ≤ fuel →
      readValue limit fuel (printAt compact depth' m.2 ++ rest) = .ok (m.2, rest))
    {front : List (String × Json)} (hascending : Ascending (front ++ members)) {fuel : Nat}
    (first : Bool) (hfuel : (printMembers compact depth first members).length ≤ fuel)
    (rest : Bytes) :
    readMembers limit fuel first front (printMembers compact depth first members ++ rest) =
      .ok (.object (front ++ members), rest) := by
  induction members generalizing front fuel first with
  | nil =>
    rw [printMembers_nil] at hfuel ⊢
    obtain ⟨fuel, rfl⟩ : ∃ k, fuel = k + 1 := Nat.exists_eq_add_of_le' hfuel
    rw [readMembers, List.cons_append, memberTurn_close, List.append_nil]
    rfl
  | cons m members ih =>
    obtain ⟨name, value⟩ := m
    have hlength := length_printMembers_cons depth first name value members
    obtain ⟨fuel, rfl⟩ : ∃ k, fuel = k + 1 := ⟨fuel - 1, by omega⟩
    have hbefore : ∀ e ∈ front, ByteKey.Before e.1 name := fun e he =>
      (List.pairwise_append.1 hascending).2.2 e he _ List.mem_cons_self
    have hvalue := hvalues (name, value) List.mem_cons_self fuel (depth + 1)
      (printMembers compact depth false members ++ rest)
      (show (printAt compact (depth + 1) value).length ≤ fuel by omega)
    -- The name stands behind all those in front, so that the member is inserted at the end.
    have hrest := ih (fun m hm => hvalues m (List.mem_cons_of_mem _ hm))
      (show Ascending (front ++ [(name, value)] ++ members) by simpa using hascending) false
      (show (printMembers compact depth false members).length ≤ fuel by omega)
    rw [printMembers_cons]
    simp only [List.append_assoc, List.cons_append] at hrest ⊢
    rw [readMembers, memberTurn_part]
    simp only [readName_printed, hvalue, insertEntry_of_forall_before value hbefore]
    exact hrest

theorem readValue_string {limit fuel : Nat} (place : Nat) (s : String)
    (hfuel : (printAt compact place (.string s)).length ≤ fuel) (rest : Bytes) :
    readValue limit fuel (printAt compact place (.string s) ++ rest) = .ok (.string s, rest) := by
  rw [printAt_string] at hfuel ⊢
  obtain ⟨fuel, rfl⟩ : ∃ k, fuel = k + 1 := ⟨fuel - 1, by
    rw [List.length_cons] at hfuel
    omega⟩
  rw [List.cons_append, List.append_assoc, readValue, skipSpace_cons (by decide)]
  simp only [if_true, List.cons_append, List.nil_append, readString_printed]
  rfl

theorem readValue_printed {depth limit : Nat} {value : Json} (hvalue : Textual depth value)
    (hlimit : depth < limit) {fuel : Nat} (place : Nat)
    (hfuel : (printAt compact place value).length ≤ fuel) (rest : Bytes) :
    readValue limit fuel (printAt compact place value ++ rest) = .ok (value, rest) := by
  induction depth generalizing value limit fuel place rest with
  | zero =>
    cases value with
    | string s => exact readValue_string place s hfuel rest
    | _ => exact hvalue.elim
  | succ depth ih =>
    cases value with
    | string s => exact readValue_string place s hfuel rest
    | object members =>
      obtain ⟨hascending, hmembers⟩ := hvalue
      have hopen : printAt compact place (.object members) =
          0x7B :: printMembers compact place true members := by rw [printAt]
      rw [hopen, List.length_cons] at hfuel
      obtain ⟨fuel, rfl⟩ : ∃ k, fuel = k + 1 := ⟨fuel - 1, by omega⟩
      have hread : readMembers (limit - 1) fuel true []
          (printMembers compact place true members ++ rest) = .ok (.object members, rest) := by
        have hfront : Ascending ([] ++ members) := hascending
        refine readMembers_printed ?_ hfront true (Nat.le_of_succ_le_succ hfuel) rest
        intro m hm fuel place' rest hfuel
        exact ih (hmembers m hm) (by omega) place' hfuel rest
      have hdeep : ¬ limit ≤ 1 := by omega
      rw [hopen, List.cons_append, readValue, skipSpace_cons (by decide)]
      simp only [if_neg hdeep]
      exact hread
    | _ => exact hvalue.elim

/-- The compact text of a tree that does not nest too deep is read back as the tree. -/
theorem parse_print {depth : Nat} {value : Json} (hvalue : Textual depth value)
    (hdepth : depth < nestingLimit) : parse (print compact value) = .ok value := by
  have hfuel : (printAt compact 0 value).length ≤ 2 * (print compact value).length + 2 := by
    rw [print]
    omega
  have hread := readValue_printed hvalue hdepth 0 hfuel []
  rw [List.append_nil] at hread
  rw [parse]
  simp only [bind, Except.bind, print] at hread ⊢
  rw [hread]
  rfl

end Courier.Json
