import Courier.Proofs.FailureNames
import Courier.Proofs.Lossless
import Courier.Proofs.SpelledTrees
/-!
# Which JSON objects are metadata

Metadata are read off a JSON object whatever the order of its members and whatever else it holds.
Of each field the last value counts, and one that does not occur is empty (`Metadata.IsTold`); the
object is refused only if the last value of a field is of another type
(`Codec.json_load_of_object`).

The tree that is read has its members in the order of their names, each name once.  There each
field is set once at most, so that the fields can be told apart
(`Metadata.foldlM_setField_eq_ok_iff`).
-/

namespace Courier

namespace Metadata

/-! ## Fields one by one -/

/-- The field is what is read off the value under its name, or is as it was if there is none. -/
def FieldUnder {α : Type} (read : Json → Except Json.Mismatch α) (fields : List (String × Json))
    (name : String) (old new : α) : Prop :=
  (∃ value, (name, value) ∈ fields ∧ read value = .ok new) ∨
    (∀ value, (name, value) ∉ fields) ∧ new = old

section

variable {α : Type} {read : Json → Except Json.Mismatch α} {fields : List (String × Json)}
  {name name' : String} {value : Json} {old new : α}

theorem fieldUnder_nil : FieldUnder read [] name old new ↔ new = old := by
  simp [FieldUnder]

theorem fieldUnder_of_absent (habsent : ∀ value, (name, value) ∉ fields) :
    FieldUnder read fields name old new ↔ new = old := by
  simp [FieldUnder, habsent]

theorem fieldUnder_cons_self (habsent : ∀ value, (name, value) ∉ fields) :
    FieldUnder read ((name, value) :: fields) name old new ↔ read value = .ok new := by
  simp [FieldUnder, habsent]

theorem fieldUnder_cons_of_ne (hname : name ≠ name') :
    FieldUnder read ((name', value) :: fields) name old new ↔
      FieldUnder read fields name old new := by
  simp [FieldUnder, hname]

end

theorem absent_of_ascending_cons {name : String} {value : Json} {fields : List (String × Json)}
    (h : Ascending ((name, value) :: fields)) : ∀ value', (name, value') ∉ fields :=
  fun _ hmem => ByteKey.Before.irrefl name ((List.pairwise_cons.1 h).1 _ hmem)

theorem setField_of_not_mem {name : String} (hname : name ∉ fieldNames) (m : Metadata)
    (value : Json) :
    m.setField name value = .ok m := by
  simp only [fieldNames, List.mem_cons, List.not_mem_nil, or_false, not_or] at hname
  obtain ⟨hservice, hmethod, herror, hextra⟩ := hname
  rw [setField, if_neg hservice, if_neg hmethod, if_neg herror, if_neg hextra]

theorem foldlM_setField_eq_ok_iff {fields : List (String × Json)} (hfields : Ascending fields)
    {old m : Metadata} :
    fields.foldlM (fun (m : Metadata) f => m.setField f.1 f.2) old = .ok m ↔
      FieldUnder Json.asText fields "serviceName" old.serviceName m.serviceName ∧
      FieldUnder Json.asText fields "methodName" old.methodName m.methodName ∧
      FieldUnder Json.asText fields "error" old.error m.error ∧
      FieldUnder extraOfTree fields "extra" old.extra m.extra := by
  induction fields generalizing old with
  | nil =>
    simp only [fieldUnder_nil]
    constructor
    · rintro ⟨⟩
      exact ⟨rfl, rfl, rfl, rfl⟩
    · obtain ⟨_, _, _, _⟩ := m
      rintro ⟨rfl, rfl, rfl, rfl⟩
      rfl
  | cons field fields ih =>
    obtain ⟨name, value⟩ := field
    have habsent := absent_of_ascending_cons hfields
    simp only [List.foldlM_cons, bind_eq_ok_iff, ih (List.pairwise_cons.1 hfields).2]
    by_cases hname : name ∈ fieldNames
    · -- One field is read off the value, and no value behind it has the same name.
      simp only [fieldNames, List.mem_cons, List.not_mem_nil, or_false] at hname
      rcases hname with rfl | rfl | rfl | rfl <;>
        simp [setField, map_eq_ok_iff, fieldUnder_cons_self habsent, fieldUnder_cons_of_ne,
          fieldUnder_of_absent habsent] <;>
        tauto
    · have hother {field : String} (hfield : field ∈ fieldNames) : field ≠ name := by
        rintro rfl
        exact hname hfield
      have hservice : "serviceName" ≠ name := hother (by decide)
      have hmethod : "methodName" ≠ name := hother (by decide)
      have herror : "error" ≠ name := hother (by decide)
      have hextra : "extra" ≠ name := hother (by decide)
      simp [setField_of_not_mem hname, fieldUnder_cons_of_ne, hservice, hmethod, herror, hextra]

theorem setFields_filter (fields : List (String × Json)) :
    setFields (fields.filter (·.1 ∈ fieldNames)) = setFields fields := by
  have hfold (old : Metadata) :
      (fields.filter (·.1 ∈ fieldNames)).foldlM (fun (m : Metadata) f => m.setField f.1 f.2) old =
        fields.foldlM (fun (m : Metadata) f => m.setField f.1 f.2) old := by
    induction fields generalizing old with
    | nil => rfl
    | cons field fields ih =>
      by_cases hname : field.1 ∈ fieldNames
      · rw [List.filter_cons_of_pos (by simpa using hname), List.foldlM_cons, List.foldlM_cons]
        simp only [ih]
      · rw [List.filter_cons_of_neg (by simpa using hname), List.foldlM_cons,
          setField_of_not_mem hname, ih]
        rfl
  exact hfold {}

/-! ## Texts and maps of texts -/

section

variable {members : List (String × Json)} {extra : SortedMap String String}

theorem asText_eq_ok_iff {value : Json} {s : String} :
    Json.asText value = .ok s ↔ value = .string s := by
  cases value <;> simp [Json.asText]

theorem mapM_asText_eq_ok_iff {texts : List (String × String)} :
    members.mapM (fun m => do return (m.1, ← Json.asText m.2)) = Except.ok texts ↔
      members = texts.map fun e => (e.1, .string e.2) := by
  constructor
  · intro h
    induction members generalizing texts with
    | nil =>
      cases h
      rfl
    | cons member members ih =>
      rw [List.mapM_cons] at h
      obtain ⟨text, htext, h⟩ := bind_eq_ok_iff.1 h
      obtain ⟨rest, hrest, h⟩ := bind_eq_ok_iff.1 h
      obtain ⟨s, hs, htext⟩ := bind_eq_ok_iff.1 htext
      cases h
      cases htext
      rw [List.map_cons, ← ih hrest, ← asText_eq_ok_iff.1 hs]
  · rintro rfl
    exact mapM_asText texts

theorem extraOfTree_eq_ok_iff (hmembers : Ascending members) :
    extraOfTree (.object members) = .ok extra ↔
      members = extra.entries.map fun e => (e.1, .string e.2) := by
  constructor
  · intro h
    obtain ⟨texts, htexts, rfl⟩ := map_eq_ok_iff.1 h
    obtain rfl := mapM_asText_eq_ok_iff.1 htexts
    have hmap := SortedMap.insertAll_empty_entries ⟨texts, ascending_map.1 hmembers⟩
    rw [hmap]
  · rintro rfl
    exact extraOfTree_object extra

theorem exists_extraOfTree_iff (hmembers : Ascending members) :
    (∃ extra, extraOfTree (.object members) = .ok extra) ↔ ∀ m ∈ members, ∃ s, m.2 = .string s := by
  constructor
  · rintro ⟨extra, h⟩ m hm
    rw [(extraOfTree_eq_ok_iff hmembers).1 h] at hm
    obtain ⟨e, -, rfl⟩ := List.mem_map.1 hm
    exact ⟨e.2, rfl⟩
  · intro htexts
    have hrange :
        members ∈ Set.range (List.map fun e : String × String => (e.1, Json.string e.2)) := by
      rw [Set.range_list_map]
      intro m hm
      obtain ⟨s, hs⟩ := htexts m hm
      exact ⟨(m.1, s), Prod.ext rfl hs.symm⟩
    obtain ⟨texts, rfl⟩ := hrange
    exact ⟨⟨texts, ascending_map.1 hmembers⟩, (extraOfTree_eq_ok_iff hmembers).2 rfl⟩

end

/-! ## Members as they stand in a text -/

def HoldsTexts (members : List (String × Json)) : Prop :=
  ∀ name value, IsLast members name value → ∃ s, value = .string s

def HasLast (extra : SortedMap String String) (members : List (String × Json)) : Prop :=
  ∀ name s, extra.get? name = some s ↔ IsLast members name (.string s)

/-- The text is the last under its name; or the name does not occur, and the text is empty. -/
def TextUnder (members : List (String × Json)) (name text : String) : Prop :=
  IsLast members name (.string text) ∨ (∀ m ∈ members, m.1 ≠ name) ∧ text = ""

def EntriesUnder (members : List (String × Json)) (name : String)
    (extra : SortedMap String String) :
    Prop :=
  (∃ entries, IsLast members name (.object entries) ∧ HasLast extra entries) ∨
    (∀ m ∈ members, m.1 ≠ name) ∧ extra = .empty

/-- Of every field that occurs, the last value is of its type. -/
structure IsReadable (members : List (String × Json)) : Prop where
  texts : ∀ name ∈ ["serviceName", "methodName", "error"], ∀ value, IsLast members name value →
    ∃ s, value = .string s
  extra : ∀ value, IsLast members "extra" value → ∃ entries, value = .object entries ∧
    HoldsTexts entries

/-- The metadata have the last values of the fields, and are empty where there are none. -/
structure IsTold (m : Metadata) (members : List (String × Json)) : Prop where
  serviceName : TextUnder members "serviceName" m.serviceName
  methodName : TextUnder members "methodName" m.methodName
  error : TextUnder members "error" m.error
  extra : EntriesUnder members "extra" m.extra

section

open Json (tidied mem_tidied_iff)

variable {members entries : List (String × Json)} {name s : String} {value : Json}
  {extra : SortedMap String String} {m : Metadata}

theorem absent_iff :
    (∀ value, (name, value) ∉ (tidied members).entries) ↔ ∀ m ∈ members, m.1 ≠ name := by
  constructor
  · intro habsent m hm hname
    obtain ⟨raw, hraw⟩ := exists_isLast_iff.2 ⟨m, hm, hname⟩
    exact habsent raw.tidy (mem_tidied_iff.2 ⟨raw, hraw, rfl⟩)
  · intro habsent value hvalue
    obtain ⟨raw, hraw, -⟩ := mem_tidied_iff.1 hvalue
    obtain ⟨m, hm, hname⟩ := exists_isLast_iff.1 ⟨raw, hraw⟩
    exact habsent m hm hname

theorem holdsTexts_iff :
    HoldsTexts entries ↔ ∀ m ∈ (tidied entries).entries, ∃ s, m.2 = .string s := by
  constructor
  · rintro htexts ⟨name, value⟩ hm
    obtain ⟨raw, hraw, rfl⟩ := mem_tidied_iff.1 hm
    obtain ⟨s, rfl⟩ := htexts name raw hraw
    exact ⟨s, rfl⟩
  · intro htexts name raw hraw
    obtain ⟨s, hs⟩ := htexts (name, raw.tidy) (mem_tidied_iff.2 ⟨raw, hraw, rfl⟩)
    exact ⟨s, Json.tidy_eq_string_iff.1 hs⟩

theorem mem_tidied_string_iff :
    (name, .string s) ∈ (tidied members).entries ↔ IsLast members name (.string s) := by
  rw [mem_tidied_iff]
  constructor
  · rintro ⟨raw, hraw, hs⟩
    rwa [← Json.tidy_eq_string_iff.1 hs.symm]
  · intro hs
    exact ⟨_, hs, rfl⟩

theorem mem_texts_iff :
    (name, value) ∈ extra.entries.map (fun e => (e.1, Json.string e.2)) ↔
      ∃ s, extra.get? name = some s ∧ value = .string s := by
  simp only [SortedMap.get?_eq_some_iff, List.mem_map, Prod.mk.injEq, Prod.exists]
  constructor
  · rintro ⟨_, s, hmem, rfl, rfl⟩
    exact ⟨s, hmem, rfl⟩
  · rintro ⟨s, hmem, rfl⟩
    exact ⟨name, s, hmem, rfl, rfl⟩

theorem extraOfTree_tidy_eq_ok_iff :
    extraOfTree value.tidy = .ok extra ↔
      ∃ entries, value = .object entries ∧ HoldsTexts entries ∧ HasLast extra entries := by
  cases value with
  | object entries =>
    have htree : (Json.object entries).tidy = .object (tidied entries).entries := rfl
    rw [htree, extraOfTree_eq_ok_iff (tidied entries).ascending]
    constructor
    · intro heq
      refine ⟨entries, rfl, holdsTexts_iff.2 ?_, fun key s => ?_⟩
      · rw [heq]
        rintro ⟨key, value⟩ hm
        obtain ⟨s, -, hs⟩ := mem_texts_iff.1 hm
        exact ⟨s, hs⟩
      · rw [← mem_tidied_string_iff, heq, mem_texts_iff]
        simp
    · rintro ⟨_, ⟨⟩, htexts, hlast⟩
      refine (tidied entries).ascending.eq_of_mem_iff (ascending_map.2 extra.ascending) ?_
      rintro ⟨key, value⟩
      rw [mem_texts_iff]
      constructor
      · intro hm
        obtain ⟨s, rfl⟩ := holdsTexts_iff.1 htexts _ hm
        exact ⟨s, (hlast key s).2 (mem_tidied_string_iff.1 hm), rfl⟩
      · rintro ⟨s, hs, rfl⟩
        exact mem_tidied_string_iff.2 ((hlast key s).1 hs)
  | _ => simp [Json.tidy, extraOfTree, Json.asMembers, Except.map]

theorem exists_hasLast (htexts : HoldsTexts entries) :
    ∃ extra : SortedMap String String, HasLast extra entries := by
  obtain ⟨extra, hextra⟩ :=
    (exists_extraOfTree_iff (tidied entries).ascending).2 (holdsTexts_iff.1 htexts)
  obtain ⟨_, ⟨⟩, -, hlast⟩ := extraOfTree_tidy_eq_ok_iff.1
    (show extraOfTree (Json.object entries).tidy = .ok extra from hextra)
  exact ⟨extra, hlast⟩

/-! ## All fields -/

theorem textUnder_iff :
    FieldUnder Json.asText (tidied members).entries name "" s ↔ TextUnder members name s := by
  refine or_congr ?_ (and_congr_left' absent_iff)
  constructor
  · rintro ⟨value, hvalue, hs⟩
    obtain rfl := asText_eq_ok_iff.1 hs
    exact mem_tidied_string_iff.1 hvalue
  · intro hlast
    exact ⟨_, mem_tidied_string_iff.2 hlast, rfl⟩

theorem exists_textUnder_iff :
    (∃ s, TextUnder members name s) ↔
      ∀ value, IsLast members name value → ∃ s, value = .string s := by
  constructor
  · rintro ⟨s, hlast | ⟨habsent, -⟩⟩ value hvalue
    · exact ⟨s, isLast_unique hvalue hlast⟩
    · exact absurd hvalue (not_isLast_of_absent habsent)
  · intro htext
    rcases isLast_or_absent members name with ⟨value, hvalue⟩ | habsent
    · obtain ⟨s, rfl⟩ := htext value hvalue
      exact ⟨s, .inl hvalue⟩
    · exact ⟨"", .inr ⟨habsent, rfl⟩⟩

theorem entriesUnder_iff :
    FieldUnder extraOfTree (tidied members).entries name .empty extra ↔
      (∀ value, IsLast members name value →
        ∃ entries, value = .object entries ∧ HoldsTexts entries) ∧
        EntriesUnder members name extra := by
  constructor
  · rintro (⟨_, hvalue, hextra⟩ | ⟨habsent, rfl⟩)
    · obtain ⟨raw, hraw, rfl⟩ := mem_tidied_iff.1 hvalue
      obtain ⟨entries, rfl, htexts, hlast⟩ := extraOfTree_tidy_eq_ok_iff.1 hextra
      exact ⟨fun value hvalue => ⟨entries, isLast_unique hvalue hraw, htexts⟩,
        .inl ⟨entries, hraw, hlast⟩⟩
    · have habsent := absent_iff.1 habsent
      exact ⟨fun value hvalue => absurd hvalue (not_isLast_of_absent habsent),
        .inr ⟨habsent, rfl⟩⟩
  · rintro ⟨htexts, ⟨entries, hraw, hlast⟩ | ⟨habsent, rfl⟩⟩
    · obtain ⟨_, ⟨⟩, htexts⟩ := htexts _ hraw
      exact .inl ⟨_, mem_tidied_iff.2 ⟨_, hraw, rfl⟩,
        extraOfTree_tidy_eq_ok_iff.2 ⟨entries, rfl, htexts, hlast⟩⟩
    · exact .inr ⟨absent_iff.2 habsent, rfl⟩

theorem exists_entriesUnder
    (htexts : ∀ value, IsLast members name value → ∃ entries, value = .object entries ∧
      HoldsTexts entries) : ∃ extra, EntriesUnder members name extra := by
  rcases isLast_or_absent members name with ⟨value, hvalue⟩ | habsent
  · obtain ⟨entries, rfl, hentries⟩ := htexts value hvalue
    obtain ⟨extra, hlast⟩ := exists_hasLast hentries
    exact ⟨extra, .inl ⟨entries, hvalue, hlast⟩⟩
  · exact ⟨.empty, .inr ⟨habsent, rfl⟩⟩

theorem setFields_tidied_eq_ok_iff :
    setFields (tidied members).entries = .ok m ↔ IsReadable members ∧ m.IsTold members := by
  rw [setFields, foldlM_setField_eq_ok_iff (tidied members).ascending]
  simp only [textUnder_iff, entriesUnder_iff]
  constructor
  · rintro ⟨hservice, hmethod, herror, htexts, hextra⟩
    refine ⟨⟨?_, htexts⟩, ⟨hservice, hmethod, herror, hextra⟩⟩
    intro name hname
    simp only [List.mem_cons, List.not_mem_nil, or_false] at hname
    rcases hname with rfl | rfl | rfl
    · exact exists_textUnder_iff.1 ⟨_, hservice⟩
    · exact exists_textUnder_iff.1 ⟨_, hmethod⟩
    · exact exists_textUnder_iff.1 ⟨_, herror⟩
  · rintro ⟨hreadable, htold⟩
    exact ⟨htold.serviceName, htold.methodName, htold.error, hreadable.extra, htold.extra⟩

theorem IsReadable.exists_isTold (h : IsReadable members) : ∃ m : Metadata, m.IsTold members := by
  obtain ⟨serviceName, hservice⟩ := exists_textUnder_iff.2 (h.texts "serviceName" (by simp))
  obtain ⟨methodName, hmethod⟩ := exists_textUnder_iff.2 (h.texts "methodName" (by simp))
  obtain ⟨error, herror⟩ := exists_textUnder_iff.2 (h.texts "error" (by simp))
  obtain ⟨extra, hextra⟩ := exists_entriesUnder h.extra
  exact ⟨⟨serviceName, methodName, error, extra⟩, hservice, hmethod, herror, hextra⟩

theorem setFields_tidied_congr {members' : List (String × Json)}
    (hsame : ∀ name ∈ fieldNames, ∀ value, IsLast members name value ↔ IsLast members' name value) :
    setFields (tidied members).entries = setFields (tidied members').entries := by
  rw [← setFields_filter, ← setFields_filter (tidied members').entries]
  congr 1
  apply Ascending.eq_of_mem_iff
  · exact (tidied members).ascending.filter _
  · exact (tidied members').ascending.filter _
  · rintro ⟨name, value⟩
    simp only [List.mem_filter, decide_eq_true_eq, mem_tidied_iff]
    refine and_congr_left fun hname => ?_
    simp only [hsame name hname]

end

end Metadata

/-! ## The codec -/

namespace Codec

variable {text text' : Bytes} {tree tree' : List (String × Json)} {m : Metadata}

theorem decode_json_of_object (hparse : Json.parse text = .ok (.object tree)) :
    json.decode Metadata.capabilities text =
      (Metadata.setFields tree).mapError fun e => .malformed Metadata.formName e.message := by
  simp only [json, decodeText, Metadata.capabilities, hparse]
  rfl

theorem load_json_of_object (hparse : Json.parse text = .ok (.object tree)) (target : Metadata) :
    json.load Metadata.capabilities text target = (m, none) ↔ Metadata.setFields tree = .ok m := by
  rw [load_eq_iff, decode_json_of_object hparse]
  cases Metadata.setFields tree <;> simp [Except.mapError]

/-- A text that is an object has its members once and for all, in their order and with those that
stand there again.  The object is read as metadata just if the last value of every field that
occurs is of its type, a text or an object whose last values are texts.  The metadata have those
last values, and are empty where there are none; nothing stays of what the target held before.  No
other member makes a difference, not even to the failure, and a failure leaves the target alone.
-/
theorem json_load_of_object (hparse : Json.parse text = .ok (.object tree)) :
    ∃ members, (∀ raw, Json.IsText text raw ↔ raw = .object members) ∧
      (∀ target m, json.load Metadata.capabilities text target = (m, none) ↔
        Metadata.IsReadable members ∧ m.IsTold members) ∧
      (∀ target, (∃ m, json.load Metadata.capabilities text target = (m, none)) ↔
        Metadata.IsReadable members) ∧
      (∀ target kept e, json.load Metadata.capabilities text target = (kept, some e) →
        kept = target) ∧
      ∀ text' tree' members', Json.parse text' = .ok (.object tree') →
        Json.IsText text' (.object members') →
        (∀ name ∈ Metadata.fieldNames, ∀ value,
          IsLast members name value ↔ IsLast members' name value) →
        ∀ target, json.load Metadata.capabilities text target =
          json.load Metadata.capabilities text' target := by
  obtain ⟨members, htext, rfl⟩ := Json.exists_members_of_parse hparse
  refine ⟨members, htext, ?_, ?_, ?_, ?_⟩
  · intro target m
    rw [load_json_of_object hparse, Metadata.setFields_tidied_eq_ok_iff]
  · intro target
    simp only [load_json_of_object hparse, Metadata.setFields_tidied_eq_ok_iff]
    constructor
    · rintro ⟨m, hreadable, -⟩
      exact hreadable
    · intro hreadable
      obtain ⟨m, htold⟩ := hreadable.exists_isTold
      exact ⟨m, hreadable, htold⟩
  · intro target kept e hfailed
    exact (load_eq_some_iff.1 hfailed).1
  · intro text' tree' members' hparse' htext' hsame target
    obtain ⟨_, hunique, rfl⟩ := Json.exists_members_of_parse hparse'
    obtain ⟨⟩ := (hunique _).1 htext'
    have hdecode : json.decode Metadata.capabilities text =
        json.decode Metadata.capabilities text' := by
      rw [decode_json_of_object hparse, decode_json_of_object hparse',
        Metadata.setFields_tidied_congr hsame]
    rw [load, load, hdecode]

def repetitive : Bytes :=
  Text.bytes " \x7b\"extra\": \x7b\"k\": 1, \"k\": \"v\"\x7d, \"later\": [\x7b\x7d],
    \"error\": 1, \"error\": \"late\"\x7d "

theorem json_load_of_object_repetitive :
    ∃ tree, Json.parse repetitive = .ok (.object tree) ∧
      ∃ members, Json.IsText repetitive (.object members) ∧ Metadata.IsReadable members ∧
        Metadata.IsTold { error := "late", extra := .insert .empty "k" "v" } members := by
  obtain ⟨tree, hparse⟩ : ∃ tree, Json.parse repetitive = .ok (.object tree) := ⟨_, rfl⟩
  obtain ⟨members, htext, hload, -⟩ := json_load_of_object hparse
  exact ⟨tree, hparse, members, (htext _).2 rfl, (hload { serviceName := "before" } _).1 rfl⟩

end Codec

end Courier
