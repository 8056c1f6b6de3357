import Courier.SortedMap
import Mathlib
/-!
# Inserting entries in key order

An entry whose key comes after all others goes to the end of a list of entries, so that a map is
rebuilt from its own entries.  Of entries inserted one after another, the last under each key stays
(`SortedMap.mem_entries_insertAll_empty`).
-/

namespace Courier

open ByteKey

universe u

section

variable {κ : Type} {α : Type u} {entries : List (κ × α)} {key key' : κ} {value value' : α}

/-! ## The last entry under a key -/

/-- The entries go on behind the last one under the key, which has the given value. -/
def IsLast (entries : List (κ × α)) (key : κ) (value : α) : Prop :=
  ∃ before behind, entries = before ++ (key, value) :: behind ∧ ∀ e ∈ behind, e.1 ≠ key

theorem not_isLast_nil : ¬ IsLast [] key value := by
  rintro ⟨before, behind, hnil, -⟩
  simp at hnil

theorem isLast_append_singleton_iff :
    IsLast (entries ++ [(key', value')]) key value ↔
      key = key' ∧ value = value' ∨ key ≠ key' ∧ IsLast entries key value := by
  constructor
  · rintro ⟨before, behind, hentries, hbehind⟩
    rcases List.eq_nil_or_concat behind with rfl | ⟨behind, e, rfl⟩
    · obtain ⟨-, hlast⟩ := List.append_inj' hentries rfl
      simp only [List.cons.injEq, Prod.mk.injEq, and_true] at hlast
      exact .inl ⟨hlast.1.symm, hlast.2.symm⟩
    · rw [List.concat_eq_append, ← List.cons_append, ← List.append_assoc] at hentries
      obtain ⟨hfront, hlast⟩ := List.append_inj' hentries rfl
      obtain rfl : (key', value') = e := List.head_eq_of_cons_eq hlast
      have hkey : key' ≠ key := hbehind (key', value') (by simp)
      exact .inr ⟨hkey.symm, before, behind, hfront, fun e he => hbehind e (by simp [he])⟩
  · rintro (⟨rfl, rfl⟩ | ⟨hkey, before, behind, rfl, hbehind⟩)
    · exact ⟨entries, [], rfl, by simp⟩
    · refine ⟨before, behind ++ [(key', value')], by simp, ?_⟩
      intro e he
      rcases List.mem_append.1 he with he | he
      · exact hbehind e he
      · rw [List.mem_singleton.1 he]
        exact hkey.symm

theorem isLast_append_iff {entries' : List (κ × α)} :
    IsLast (entries ++ entries') key value ↔
      IsLast entries' key value ∨ (∀ e ∈ entries', e.1 ≠ key) ∧ IsLast entries key value := by
  induction entries' using List.reverseRecOn with
  | nil => simp [not_isLast_nil]
  | append_singleton entries' e ih =>
    obtain ⟨key', value'⟩ := e
    rw [← List.append_assoc]
    simp only [isLast_append_singleton_iff, ih, List.mem_append, List.mem_singleton, or_imp,
      forall_and, forall_eq]
    by_cases hkey : key = key'
    · simp [hkey]
    · simp [hkey, Ne.symm hkey]

theorem isLast_unique (h : IsLast entries key value) (h' : IsLast entries key value') :
    value = value' := by
  induction entries using List.reverseRecOn with
  | nil => exact absurd h not_isLast_nil
  | append_singleton entries e ih =>
    rcases isLast_append_singleton_iff.1 h with ⟨hkey, rfl⟩ | ⟨hkey, h⟩ <;>
      rcases isLast_append_singleton_iff.1 h' with ⟨hkey', rfl⟩ | ⟨hkey', h'⟩
    · rfl
    · exact absurd hkey hkey'
    · exact absurd hkey' hkey
    · exact ih h h'

theorem exists_isLast_iff : (∃ value, IsLast entries key value) ↔ ∃ e ∈ entries, e.1 = key := by
  induction entries using List.reverseRecOn with
  | nil => simp [not_isLast_nil]
  | append_singleton entries e ih =>
    obtain ⟨key', value'⟩ := e
    simp only [isLast_append_singleton_iff, List.mem_append, List.mem_singleton, or_and_right,
      exists_or, ← ih, exists_eq_left]
    by_cases hkey : key = key'
    · simp [hkey]
    · simp [hkey, Ne.symm hkey]

theorem not_isLast_of_absent (habsent : ∀ e ∈ entries, e.1 ≠ key) : ¬ IsLast entries key value := by
  intro hlast
  obtain ⟨e, he, hkey⟩ := exists_isLast_iff.1 ⟨value, hlast⟩
  exact habsent e he hkey

theorem absent_iff_not_isLast :
    (∀ e ∈ entries, e.1 ≠ key) ↔ ∀ value, ¬ IsLast entries key value := by
  constructor
  · intro habsent value
    exact not_isLast_of_absent habsent
  · rintro hnever e he hkey
    obtain ⟨value, hlast⟩ := exists_isLast_iff.2 ⟨e, he, hkey⟩
    exact hnever value hlast

theorem isLast_append_congr {entries' : List (κ × α)}
    (hsame : ∀ key value, IsLast entries key value ↔ IsLast entries' key value)
    (before : List (κ × α)) (key : κ) (value : α) :
    IsLast (before ++ entries) key value ↔ IsLast (before ++ entries') key value := by
  simp only [isLast_append_iff, absent_iff_not_isLast, hsame]

theorem isLast_or_absent (entries : List (κ × α)) (key : κ) :
    (∃ value, IsLast entries key value) ∨ ∀ e ∈ entries, e.1 ≠ key := by
  rw [exists_isLast_iff]
  by_contra! hneither
  obtain ⟨habsent, e, he, hkey⟩ := hneither
  exact habsent e he hkey

theorem isLast_map_iff {β : Type u} {f : α → β} {value : β} :
    IsLast (entries.map fun e => (e.1, f e.2)) key value ↔
      ∃ value', IsLast entries key value' ∧ value = f value' := by
  induction entries using List.reverseRecOn with
  | nil => simp [not_isLast_nil]
  | append_singleton entries e ih =>
    obtain ⟨key', value'⟩ := e
    simp only [List.map_append, List.map_cons, List.map_nil, isLast_append_singleton_iff, ih]
    by_cases hkey : key = key' <;> simp [hkey]

end

variable {κ : Type} [ByteKey κ] {α : Type u} {entries entries' : List (κ × α)} {key : κ}
  {value value' : α}

/-! ## Ascending entries -/

theorem insertEntry_of_forall_before {entries : List (κ × α)} {key : κ} (value : α)
    (hbefore : ∀ e ∈ entries, Before e.1 key) :
    insertEntry key value entries = entries ++ [(key, value)] := by
  induction entries with
  | nil => rfl
  | cons e entries ih =>
    have he : Before e.1 key := hbefore e List.mem_cons_self
    have hnot : ¬ Before key e.1 := fun h => Before.irrefl key (h.trans he)
    rw [insertEntry, if_neg hnot, if_pos he, ih fun e he => hbefore e (List.mem_cons_of_mem _ he),
      List.cons_append]

theorem foldl_insertEntry {front back : List (κ × α)} (hascending : Ascending (front ++ back)) :
    back.foldl (fun entries e => insertEntry e.1 e.2 entries) front = front ++ back := by
  induction back generalizing front with
  | nil => simp
  | cons e back ih =>
    have hbefore : ∀ f ∈ front, Before f.1 e.1 := fun f hf =>
      (List.pairwise_append.1 hascending).2.2 f hf e List.mem_cons_self
    rw [List.foldl_cons, insertEntry_of_forall_before e.2 hbefore, ih]
    · simp
    · simpa using hascending

theorem mem_insertEntry_iff (hentries : Ascending entries) {e : κ × α} :
    e ∈ insertEntry key value entries ↔ e = (key, value) ∨ e.1 ≠ key ∧ e ∈ entries := by
  induction entries with
  | nil => simp [insertEntry]
  | cons entry rest ih =>
    obtain ⟨hhead, hrest⟩ := List.pairwise_cons.1 hentries
    have hne {f : κ × α} (hbefore : Before key f.1) : f.1 ≠ key :=
      fun heq => Before.irrefl key (heq ▸ hbefore)
    unfold insertEntry
    split
    case isTrue hlt =>
      have hall : ∀ f ∈ entry :: rest, f.1 ≠ key := by
        intro f hf
        rcases List.mem_cons.1 hf with rfl | hf
        · exact hne hlt
        · exact hne (hlt.trans (hhead f hf))
      rw [List.mem_cons]
      exact or_congr_right ⟨fun he => ⟨hall e he, he⟩, And.right⟩
    case isFalse hlt =>
      split
      case isTrue hgt =>
        have hentry : entry.1 ≠ key := fun heq => Before.irrefl key (heq ▸ hgt)
        rw [List.mem_cons, ih hrest, List.mem_cons]
        constructor
        · rintro (rfl | rfl | ⟨hkey, he⟩)
          · exact .inr ⟨hentry, .inl rfl⟩
          · exact .inl rfl
          · exact .inr ⟨hkey, .inr he⟩
        · rintro (rfl | ⟨hkey, rfl | he⟩)
          · exact .inr (.inl rfl)
          · exact .inl rfl
          · exact .inr (.inr ⟨hkey, he⟩)
      case isFalse hgt =>
        have hkey : entry.1 = key := eq_of_not_before hgt hlt
        have hall : ∀ f ∈ rest, f.1 ≠ key := fun f hf => hne (hkey ▸ hhead f hf)
        rw [List.mem_cons, List.mem_cons]
        constructor
        · rintro (rfl | he)
          · exact .inl rfl
          · exact .inr ⟨hall e he, .inr he⟩
        · rintro (rfl | ⟨hne, rfl | he⟩)
          · exact .inl rfl
          · exact absurd hkey hne
          · exact .inr he

theorem Ascending.nodup_keys (h : Ascending entries) : (entries.map Prod.fst).Nodup := by
  refine (List.pairwise_map.2 h).imp ?_
  rintro a _ hbefore rfl
  exact Before.irrefl a hbefore

theorem Ascending.eq_of_mem_iff (h : Ascending entries) (h' : Ascending entries')
    (hsame : ∀ e, e ∈ entries ↔ e ∈ entries') : entries = entries' := by
  refine List.Perm.eq_of_pairwise (fun a b _ _ hab hba => ?_) h h'
    ((List.perm_ext_iff_of_nodup (h.nodup_keys.of_map _) (h'.nodup_keys.of_map _)).2 hsame)
  exact absurd (hab.trans hba) (Before.irrefl _)

namespace SortedMap

theorem entries_insertAll (m : SortedMap κ α) (entries : List (κ × α)) :
    (m.insertAll entries).entries =
      entries.foldl (fun old e => insertEntry e.1 e.2 old) m.entries := by
  induction entries generalizing m with
  | nil => rfl
  | cons e entries ih => exact ih (m.insert e.1 e.2)

theorem insertAll_empty_entries (m : SortedMap κ α) : insertAll .empty m.entries = m := by
  apply ext
  rw [entries_insertAll]
  have hrebuilt := foldl_insertEntry (show Ascending ([] ++ m.entries) from m.ascending)
  rwa [List.nil_append] at hrebuilt

theorem insertAll_append_singleton (m : SortedMap κ α) (entries : List (κ × α)) (e : κ × α) :
    m.insertAll (entries ++ [e]) = (m.insertAll entries).insert e.1 e.2 := by
  rw [insertAll, List.foldl_append]
  rfl

theorem mem_entries_insertAll_empty :
    (key, value) ∈ (insertAll .empty entries).entries ↔ IsLast entries key value := by
  induction entries using List.reverseRecOn with
  | nil => exact iff_of_false List.not_mem_nil not_isLast_nil
  | append_singleton entries e ih =>
    rw [insertAll_append_singleton, isLast_append_singleton_iff, ← ih]
    refine (mem_insertEntry_iff (insertAll .empty entries).ascending).trans (or_congr_left ?_)
    exact Prod.mk.injEq .. ▸ Iff.rfl

theorem isLast_entries_iff {m : SortedMap κ α} :
    IsLast m.entries key value ↔ (key, value) ∈ m.entries := by
  rw [← mem_entries_insertAll_empty, insertAll_empty_entries]

theorem get?_eq_some_iff {m : SortedMap κ α} :
    m.get? key = some value ↔ (key, value) ∈ m.entries := by
  have hget (value' : α) (h : m.get? key = some value') : (key, value') ∈ m.entries := by
    obtain ⟨e, hfound, rfl⟩ := Option.map_eq_some_iff.1 h
    have hkey : e.1 = key := bytes_inj (by simpa using List.find?_some hfound)
    exact hkey ▸ List.mem_of_find?_eq_some hfound
  constructor
  · exact hget value
  · intro hmem
    cases hvalue : m.get? key with
    | none =>
      have hnone := List.find?_eq_none.1 (Option.map_eq_none_iff.1 hvalue) _ hmem
      simp at hnone
    | some value' =>
      have hlast := isLast_entries_iff.2 (hget value' hvalue)
      rw [isLast_unique hlast (isLast_entries_iff.2 hmem)]

theorem insertAll_append (m : SortedMap κ α) (entries entries' : List (κ × α)) :
    m.insertAll (entries ++ entries') = (m.insertAll entries).insertAll entries' :=
  List.foldl_append

/-- A map forgets in which order its entries were inserted, but for the last under each key. -/
theorem mem_entries_insertAll {m : SortedMap κ α} :
    (key, value) ∈ (m.insertAll entries).entries ↔ IsLast (m.entries ++ entries) key value := by
  rw [← mem_entries_insertAll_empty, insertAll_append, insertAll_empty_entries]

theorem get?_insertAll_eq_some_iff {m : SortedMap κ α} :
    (m.insertAll entries).get? key = some value ↔ IsLast (m.entries ++ entries) key value := by
  rw [get?_eq_some_iff, mem_entries_insertAll]

theorem eq_of_mem_entries_iff {m n : SortedMap κ α} (hsame : ∀ e, e ∈ m.entries ↔ e ∈ n.entries) :
    m = n :=
  ext (m.ascending.eq_of_mem_iff n.ascending hsame)

theorem keys_pairwise (m : SortedMap κ α) : m.keys.Pairwise Before :=
  List.pairwise_map.2 m.ascending

theorem mem_keys_iff {m : SortedMap κ α} : key ∈ m.keys ↔ ∃ value, m.get? key = some value := by
  simp [keys, get?_eq_some_iff]

theorem isEmpty_iff {m : SortedMap κ α} : m.isEmpty = true ↔ m = .empty := by
  constructor
  · intro hempty
    exact ext (List.isEmpty_iff.1 hempty)
  · rintro rfl
    rfl

end SortedMap

end Courier
