import Courier.Proofs.JsonTexts
/-!
# What a JSON text says

A text spells a tree whose objects keep their members in the order of the text, each as often as
it stands there (`Json.Spells`).  A text spells one tree at most, and ends it in one place
(`Json.Spells.unique`).  Whatever is read off a text is the tree that it spells with the members
of each object in their order, the last one under each name (`Json.isText_of_parse`).
-/

namespace Courier.Json

/-! ## Tidy trees -/

mutual

/-- The tree with the members of every object in the order of their names, the last one under each
name. -/
def tidy : Json → Json
  | array items => array (tidyItems items)
  | object members => object (SortedMap.insertAll .empty (tidyMembers members)).entries
  | value => value

def tidyItems : List Json → List Json
  | [] => []
  | item :: items => tidy item :: tidyItems items

def tidyMembers : List (String × Json) → List (String × Json)
  | [] => []
  | (name, value) :: members => (name, tidy value) :: tidyMembers members

end

abbrev tidied (members : List (String × Json)) : SortedMap String Json :=
  .insertAll .empty (tidyMembers members)

theorem tidyMembers_eq (members : List (String × Json)) :
    tidyMembers members = members.map fun m => (m.1, tidy m.2) := by
  induction members with
  | nil => rfl
  | cons m members ih => rw [tidyMembers, ih, List.map_cons]

theorem tidy_eq_string_iff {value : Json} {s : String} :
    value.tidy = string s ↔ value = string s := by
  cases value <;> simp [tidy]

theorem tidy_eq_object_iff {value : Json} {tree : List (String × Json)} :
    value.tidy = object tree ↔ ∃ members, value = object members ∧
      tree = (tidied members).entries := by
  cases value <;> simp [tidy, eq_comm]

theorem mem_tidied_iff {members : List (String × Json)} {name : String} {value : Json} :
    (name, value) ∈ (tidied members).entries ↔
      ∃ raw, IsLast members name raw ∧ value = raw.tidy := by
  rw [SortedMap.mem_entries_insertAll_empty, tidyMembers_eq, isLast_map_iff]

/-! ## Spelling -/

/-- Places of a text at which something is to come. -/
inductive Place where
  | value
  | items (first : Bool)
  | members (first : Bool)

/-- Inside brackets the next part stands there, without the white space before it; unless it is
the first part it stands behind a comma. -/
def Leads : (first : Bool) → (text part : Bytes) → Prop
  | true, text, part => skipSpace text = part
  | false, text, part => ∃ behind, skipSpace text = 0x2C :: behind ∧ skipSpace behind = part

def words : List (Bytes × Json) :=
  [([0x6E, 0x75, 0x6C, 0x6C], null), ([0x74, 0x72, 0x75, 0x65], bool true),
    ([0x66, 0x61, 0x6C, 0x73, 0x65], bool false)]

theorem tidy_of_mem_words {letters : Bytes} {word : Json} (h : (letters, word) ∈ words) :
    word.tidy = word := by
  simp only [words, List.mem_cons, Prod.mk.injEq, List.not_mem_nil, or_false] at h
  rcases h with ⟨-, rfl⟩ | ⟨-, rfl⟩ | ⟨-, rfl⟩ <;> rfl

/-- From the place on the text spells the value, up to the rest.  Inside brackets the value is
made of the parts that are still to come, in their order, those with the same name included.  -/
inductive Spells : Place → Json → (text rest : Bytes) → Prop
  | word {text letters value rest} (hword : (letters, value) ∈ words)
    (htext : skipSpace text = letters ++ rest) : Spells .value value text rest
  | string {text s quoted rest} (hquote : skipSpace text = 0x22 :: quoted)
    (hstring : readString quoted = .ok (s, rest)) : Spells .value (string s) text rest
  | negative {text number digits rest} (hminus : skipSpace text = 0x2D :: digits)
    (hnumber : readNumber false digits = .ok (number, rest)) : Spells .value number text rest
  | number {text number b digits rest} (hdigits : skipSpace text = b :: digits)
    (hdigit : isDigit b = true) (hnumber : readNumber true (b :: digits) = .ok (number, rest)) :
    Spells .value number text rest
  | array {text items inside rest} (hopen : skipSpace text = 0x5B :: inside)
    (hitems : Spells (.items true) (array items) inside rest) :
    Spells .value (array items) text rest
  | noItems {first text rest} (hclose : skipSpace text = 0x5D :: rest) :
    Spells (.items first) (array []) text rest
  | item {first text value items part behind rest} (hlead : Leads first text part)
    (hvalue : Spells .value value part behind)
    (hitems : Spells (.items false) (array items) behind rest) :
    Spells (.items first) (array (value :: items)) text rest
  | object {text members inside rest} (hopen : skipSpace text = 0x7B :: inside)
    (hmembers : Spells (.members true) (object members) inside rest) :
    Spells .value (object members) text rest
  | noMembers {first text rest} (hclose : skipSpace text = 0x7D :: rest) :
    Spells (.members first) (object []) text rest
  | member {first text name value members quoted named valued behind rest}
    (hlead : Leads first text (0x22 :: quoted)) (hname : readString quoted = .ok (name, named))
    (hcolon : skipSpace named = 0x3A :: valued) (hvalue : Spells .value value valued behind)
    (hmembers : Spells (.members false) (object members) behind rest) :
    Spells (.members first) (object ((name, value) :: members)) text rest

def IsText (text : Bytes) (value : Json) : Prop :=
  ∃ rest, Spells .value value text rest ∧ skipSpace rest = []

theorem Leads.unique {first : Bool} {text part part' : Bytes} (h : Leads first text part)
    (h' : Leads first text part') : part = part' := by
  cases first with
  | true => exact h.symm.trans h'
  | false =>
    obtain ⟨behind, hcomma, rfl⟩ := h
    obtain ⟨behind', hcomma', rfl⟩ := h'
    rw [hcomma] at hcomma'
    rw [List.tail_eq_of_cons_eq hcomma']

theorem Leads.eq_of_ne_comma {first : Bool} {text part behind : Bytes} {b : UInt8}
    (h : Leads first text part) (htext : skipSpace text = b :: behind) (hb : b ≠ 0x2C) :
    part = b :: behind := by
  cases first with
  | true => exact h.symm.trans htext
  | false =>
    obtain ⟨_, hcomma, -⟩ := h
    rw [htext] at hcomma
    exact absurd (List.head_eq_of_cons_eq hcomma) hb

theorem Spells.not_close {value : Json} {text rest behind : Bytes}
    (h : Spells .value value text rest) :
    skipSpace text ≠ 0x5D :: behind := by
  intro hclose
  cases h with
  | word hword htext =>
    rw [hclose] at htext
    simp only [words, List.mem_cons, Prod.mk.injEq, List.not_mem_nil, or_false] at hword
    rcases hword with ⟨rfl, rfl⟩ | ⟨rfl, rfl⟩ | ⟨rfl, rfl⟩ <;> simp at htext
  | number hdigits hdigit hnumber =>
    rw [hclose] at hdigits
    obtain ⟨rfl, -⟩ := List.cons.inj hdigits
    exact absurd hdigit (by decide)
  | _ => simp_all

theorem Leads.not_close {first : Bool} {value : Json} {text part behind rest : Bytes}
    (h : Leads first text part) (hvalue : Spells .value value part behind) :
    skipSpace text ≠ 0x5D :: rest := by
  intro hclose
  obtain rfl := h.eq_of_ne_comma hclose (by decide)
  exact hvalue.not_close (skipSpace_cons (by decide) rest)

theorem Leads.not_brace {first : Bool} {text quoted rest : Bytes}
    (h : Leads first text (0x22 :: quoted)) : skipSpace text ≠ 0x7D :: rest := by
  intro hclose
  have hquote := h.eq_of_ne_comma hclose (by decide)
  exact absurd (List.head_eq_of_cons_eq hquote) (by decide)

theorem Spells.unique {place : Place} {value value' : Json} {text rest rest' : Bytes}
    (h : Spells place value text rest) (h' : Spells place value' text rest') :
    value = value' ∧ rest = rest' := by
  -- Values of other forms start with other bytes.
  induction h generalizing value' rest' with
  | word hword htext => cases h' <;> grind [words, isDigit]
  | string hquote hstring =>
    cases h' with
    | string hquote' hstring' =>
      obtain ⟨-, rfl⟩ := List.cons.inj (hquote.symm.trans hquote')
      cases hstring.symm.trans hstring'
      exact ⟨rfl, rfl⟩
    | _ => grind [words, isDigit]
  | negative hminus hnumber =>
    cases h' with
    | negative hminus' hnumber' =>
      obtain ⟨-, rfl⟩ := List.cons.inj (hminus.symm.trans hminus')
      cases hnumber.symm.trans hnumber'
      exact ⟨rfl, rfl⟩
    | _ => grind [words, isDigit]
  | number hdigits hdigit hnumber =>
    cases h' with
    | number hdigits' _ hnumber' =>
      obtain ⟨rfl, rfl⟩ := List.cons.inj (hdigits.symm.trans hdigits')
      cases hnumber.symm.trans hnumber'
      exact ⟨rfl, rfl⟩
    | _ => grind [words, isDigit]
  | array hopen _ ih =>
    cases h' with
    | array hopen' hitems' =>
      obtain ⟨-, rfl⟩ := List.cons.inj (hopen.symm.trans hopen')
      exact ih hitems'
    | _ => grind [words, isDigit]
  | object hopen _ ih =>
    cases h' with
    | object hopen' hmembers' =>
      obtain ⟨-, rfl⟩ := List.cons.inj (hopen.symm.trans hopen')
      exact ih hmembers'
    | _ => grind [words, isDigit]
  | noItems hclose =>
    cases h' with
    | noItems hclose' => exact ⟨rfl, List.tail_eq_of_cons_eq (hclose.symm.trans hclose')⟩
    | item hlead hvalue => exact absurd hclose (hlead.not_close hvalue)
  | item hlead hvalue _ ihvalue ihitems =>
    cases h' with
    | noItems hclose => exact absurd hclose (hlead.not_close hvalue)
    | item hlead' hvalue' hitems' =>
      obtain rfl := hlead.unique hlead'
      obtain ⟨rfl, rfl⟩ := ihvalue hvalue'
      obtain ⟨hitems, rfl⟩ := ihitems hitems'
      cases hitems
      exact ⟨rfl, rfl⟩
  | noMembers hclose =>
    cases h' with
    | noMembers hclose' => exact ⟨rfl, List.tail_eq_of_cons_eq (hclose.symm.trans hclose')⟩
    | member hlead => exact absurd hclose hlead.not_brace
  | member hlead hname hcolon _ _ ihvalue ihmembers =>
    cases h' with
    | noMembers hclose => exact absurd hclose hlead.not_brace
    | member hlead' hname' hcolon' hvalue' hmembers' =>
      obtain ⟨-, rfl⟩ := List.cons.inj (hlead.unique hlead')
      cases hname.symm.trans hname'
      obtain ⟨-, rfl⟩ := List.cons.inj (hcolon.symm.trans hcolon')
      obtain ⟨rfl, rfl⟩ := ihvalue hvalue'
      obtain ⟨hmembers, rfl⟩ := ihmembers hmembers'
      cases hmembers
      exact ⟨rfl, rfl⟩

theorem IsText.unique {text : Bytes} {value value' : Json} (h : IsText text value)
    (h' : IsText text value') : value = value' := by
  obtain ⟨rest, hvalue, -⟩ := h
  obtain ⟨rest', hvalue', -⟩ := h'
  exact (hvalue.unique hvalue').1

/-! ## Numbers -/

def IsNumber : Json → Prop
  | integer _ | float _ => True
  | _ => False

theorem IsNumber.tidy_eq {value : Json} (h : value.IsNumber) : value.tidy = value := by
  cases value with
  | integer | float => rfl
  | _ => exact h.elim

def YieldsNumber (read : Except Rejection (Json × Bytes)) : Prop :=
  ∀ value rest, read = .ok (value, rest) → value.IsNumber

section

variable (positive : Bool) (significand : Nat) (exponent : Int) (text : Bytes)

@[simp] theorem yieldsNumber_reject (fault : Fault) : YieldsNumber (reject fault text) := by
  rintro value rest ⟨⟩

@[simp] theorem yieldsNumber_rejectNext (fault : Fault) : YieldsNumber (rejectNext fault text) := by
  rintro value rest ⟨⟩

@[simp] theorem yieldsNumber_ok (value : Json) :
    YieldsNumber (.ok (value, text)) ↔ value.IsNumber := by
  constructor
  · intro h
    exact h value text rfl
  · rintro h _ _ ⟨⟩
    exact h

@[simp] theorem isNumber_integer (n : Int) : (integer n).IsNumber := trivial

@[simp] theorem isNumber_float (x : Binary64) : (float x).IsNumber := trivial

@[simp] theorem yieldsNumber_ofParts :
    YieldsNumber (ofParts positive significand exponent text) := by
  unfold ofParts
  split <;> simp

@[simp] theorem yieldsNumber_readExponent :
    YieldsNumber (readExponent positive significand exponent text) := by
  unfold readExponent
  grind [yieldsNumber_reject, yieldsNumber_ofParts, yieldsNumber_ok, isNumber_float]

@[simp] theorem yieldsNumber_readScaled :
    YieldsNumber (readScaled positive significand exponent text) := by
  unfold readScaled
  split <;> simp

@[simp] theorem yieldsNumber_readFraction :
    YieldsNumber (readFraction positive significand exponent text) := by
  unfold readFraction
  grind [yieldsNumber_rejectNext, yieldsNumber_readScaled]

@[simp] theorem yieldsNumber_readLong : YieldsNumber (readLong positive significand text) := by
  unfold readLong
  grind [yieldsNumber_readFraction, yieldsNumber_readScaled]

@[simp] theorem yieldsNumber_readTail : YieldsNumber (readTail positive significand text) := by
  unfold readTail
  repeat' split
  all_goals simp

theorem yieldsNumber_readNumber : YieldsNumber (readNumber positive text) := by
  unfold readNumber
  repeat' split
  all_goals simp

end

/-! ## Reading -/

section

variable {first : Bool} {text rest part : Bytes} {name : String}

theorem eq_append_of_readLetters {letters : Bytes} (h : readLetters letters text = .ok rest) :
    text = letters ++ rest := by
  induction letters generalizing text with
  | nil =>
    cases h
    rfl
  | cons letter letters ih =>
    cases text with
    | nil => cases h
    | cons b text =>
      rw [readLetters] at h
      split at h
      next hb => rw [hb, ih h, List.cons_append]
      next => cases h

theorem close_of_itemTurn (h : itemTurn first text = .ok (.close rest)) :
    skipSpace text = 0x5D :: rest := by
  unfold itemTurn at h
  grind [rejectNext]

theorem leads_of_itemTurn (h : itemTurn first text = .ok (.part part)) : Leads first text part := by
  unfold itemTurn at h
  cases first <;> grind [Leads, rejectNext]

theorem close_of_memberTurn (h : memberTurn first text = .ok (.close rest)) :
    skipSpace text = 0x7D :: rest := by
  unfold memberTurn at h
  grind [rejectNext]

theorem leads_of_memberTurn (h : memberTurn first text = .ok (.part part)) :
    Leads first text (0x22 :: part) := by
  unfold memberTurn at h
  cases first <;> grind [Leads, rejectNext]

theorem split_of_readName (h : readName text = .ok (name, rest)) :
    ∃ named, readString text = .ok (name, named) ∧ skipSpace named = 0x3A :: rest := by
  obtain ⟨⟨name', named⟩, hstring, h⟩ := bind_eq_ok_iff.1 h
  cases hcolon : skipSpace named with
  | nil =>
    simp only [hcolon] at h
    cases h
  | cons b behind =>
    simp only [hcolon] at h
    split at h
    next hb =>
      cases h
      exact ⟨named, hstring, hb ▸ hcolon⟩
    next => cases h

theorem word_spelled {b : UInt8} {behind letters : Bytes} {word value : Json}
    (htext : skipSpace text = b :: behind) (hword : (b :: letters, word) ∈ words)
    (h : (do return (word, ← readLetters letters behind)) = Except.ok (value, rest)) :
    ∃ raw, Spells .value raw text rest ∧ value = raw.tidy := by
  obtain ⟨rest', hletters, h⟩ := bind_eq_ok_iff.1 h
  cases h
  refine ⟨word, .word hword ?_, (tidy_of_mem_words hword).symm⟩
  rw [htext, eq_append_of_readLetters hletters, List.cons_append]

end

def ValuesSpelled (fuel : Nat) : Prop :=
  ∀ {depth text value rest}, readValue depth fuel text = .ok (value, rest) →
    ∃ raw, Spells .value raw text rest ∧ value = raw.tidy

/-- With the fuel the items that are read are spelled, and stand behind those that are there. -/
def ItemsSpelled (fuel : Nat) : Prop :=
  ∀ {depth first items text value rest}, readItems depth fuel first items text = .ok (value, rest) →
    ∃ raws, Spells (.items first) (array raws) text rest ∧
      value = array (items.reverse ++ tidyItems raws)

def MembersSpelled (fuel : Nat) : Prop :=
  ∀ {depth first} (members : SortedMap String Json) {text value rest},
    readMembers depth fuel first members.entries text = .ok (value, rest) →
    ∃ raws, Spells (.members first) (object raws) text rest ∧
      value = object (members.insertAll (tidyMembers raws)).entries

variable {fuel : Nat}

theorem valuesSpelled_succ (hitems : ItemsSpelled fuel) (hmembers : MembersSpelled fuel) :
    ValuesSpelled (fuel + 1) := by
  intro depth text value rest h
  rw [readValue] at h
  cases htext : skipSpace text with
  | nil =>
    simp only [htext] at h
    cases h
  | cons b behind =>
    simp only [htext] at h
    split at h
    next hb =>
      obtain ⟨⟨s, rest'⟩, hstring, h⟩ := bind_eq_ok_iff.1 h
      cases h
      exact ⟨_, .string (hb ▸ htext) hstring, rfl⟩
    split at h
    next hb =>
      split at h
      · cases h
      · obtain ⟨raws, hraws, rfl⟩ := hmembers .empty h
        exact ⟨_, .object (hb ▸ htext) hraws, rfl⟩
    split at h
    next hb =>
      split at h
      · cases h
      · obtain ⟨raws, hraws, rfl⟩ := hitems h
        exact ⟨_, .array (hb ▸ htext) hraws, rfl⟩
    split at h
    next hb =>
      have hnumber := yieldsNumber_readNumber false behind _ _ h
      exact ⟨_, .negative (hb ▸ htext) h, hnumber.tidy_eq.symm⟩
    split at h
    next hb =>
      have hnumber := yieldsNumber_readNumber true (b :: behind) _ _ h
      exact ⟨_, .number htext hb h, hnumber.tidy_eq.symm⟩
    split at h
    next hb => exact word_spelled htext (by simp [hb, words]) h
    split at h
    next hb => exact word_spelled htext (by simp [hb, words]) h
    split at h
    next hb => exact word_spelled htext (by simp [hb, words]) h
    cases h

theorem itemsSpelled_succ (hvalues : ValuesSpelled fuel) (hitems : ItemsSpelled fuel) :
    ItemsSpelled (fuel + 1) := by
  intro depth first items text value rest h
  rw [readItems] at h
  split at h
  next => cases h
  next hclose =>
    cases h
    exact ⟨[], .noItems (close_of_itemTurn hclose), by rw [tidyItems, List.append_nil]⟩
  next part hpart =>
    split at h
    next => cases h
    next item behind hitem =>
      obtain ⟨raw, hraw, rfl⟩ := hvalues hitem
      obtain ⟨raws, hraws, rfl⟩ := hitems h
      refine ⟨raw :: raws, .item (leads_of_itemTurn hpart) hraw hraws, ?_⟩
      rw [tidyItems, List.reverse_cons, List.append_assoc, List.singleton_append]

theorem membersSpelled_succ (hvalues : ValuesSpelled fuel) (hmembers : MembersSpelled fuel) :
    MembersSpelled (fuel + 1) := by
  intro depth first members text value rest h
  rw [readMembers] at h
  split at h
  next => cases h
  next hclose =>
    cases h
    exact ⟨[], .noMembers (close_of_memberTurn hclose), rfl⟩
  next part hpart =>
    split at h
    next => cases h
    next name valued hname =>
      split at h
      next => cases h
      next item behind hitem =>
        obtain ⟨named, hstring, hcolon⟩ := split_of_readName hname
        obtain ⟨raw, hraw, rfl⟩ := hvalues hitem
        obtain ⟨raws, hraws, rfl⟩ := hmembers (members.insert name raw.tidy) h
        exact ⟨(name, raw) :: raws,
          .member (leads_of_memberTurn hpart) hstring hcolon hraw hraws, rfl⟩

theorem read_spelled (fuel : Nat) :
    ValuesSpelled fuel ∧ ItemsSpelled fuel ∧ MembersSpelled fuel := by
  induction fuel with
  | zero =>
    refine ⟨?_, ?_, ?_⟩
    · intro depth text value rest h
      cases h
    · intro depth first items text value rest h
      cases h
    · intro depth first members text value rest h
      cases h
  | succ fuel ih =>
    obtain ⟨hvalues, hitems, hmembers⟩ := ih
    exact ⟨valuesSpelled_succ hitems hmembers, itemsSpelled_succ hvalues hitems,
      membersSpelled_succ hvalues hmembers⟩

/-- Whatever is read off a text is the one tree that the text spells, tidied up. -/
theorem isText_of_parse {text : Bytes} {value : Json} (h : parse text = .ok value) :
    ∃ raw, (∀ raw', IsText text raw' ↔ raw' = raw) ∧ value = raw.tidy := by
  obtain ⟨⟨value', rest⟩, hread, hrest⟩ := bind_eq_ok_iff.1 h
  obtain ⟨raw, hraw, rfl⟩ := (read_spelled _).1 hread
  cases hspace : skipSpace rest with
  | nil =>
    simp only [hspace] at hrest
    cases hrest
    have htext : IsText text raw := ⟨rest, hraw, hspace⟩
    exact ⟨raw, fun raw' => ⟨fun htext' => htext'.unique htext, fun heq => heq ▸ htext⟩, rfl⟩
  | cons b behind =>
    simp only [hspace] at hrest
    cases hrest

theorem exists_members_of_parse {text : Bytes} {tree : List (String × Json)}
    (h : parse text = .ok (object tree)) :
    ∃ members, (∀ raw, IsText text raw ↔ raw = object members) ∧
      tree = (tidied members).entries := by
  obtain ⟨raw, htext, htree⟩ := isText_of_parse h
  obtain ⟨members, rfl, htidied⟩ := tidy_eq_object_iff.1 htree.symm
  exact ⟨members, htext, htidied⟩

end Courier.Json
