import Courier.Text
/-!
# Finite maps in key order

Keys are ordered by a byte form (`ByteKey`): a string by its UTF-8 bytes, a byte by itself. A
`SortedMap` is the list of its entries, strictly ascending in that order, so two maps with the
same entries are equal and the order in which entries were inserted leaves no trace.
-/

namespace Courier

universe u

/-- A type of keys with a byte form that tells any two of them apart. -/
class ByteKey (κ : Type) where
  bytes : κ → Bytes
  bytes_inj : ∀ {a b : κ}, bytes a = bytes b → a = b

instance : ByteKey String where
  bytes := Text.bytes
  bytes_inj := Text.bytes_inj

instance : ByteKey UInt8 where
  bytes b := [b]
  bytes_inj h := List.head_eq_of_cons_eq h

instance : ByteKey Bytes where
  bytes b := b
  bytes_inj h := h

namespace ByteKey

variable {κ : Type} [ByteKey κ]

def Before (a b : κ) : Prop :=
  bytes a < bytes b

instance (a b : κ) : Decidable (Before a b) :=
  inferInstanceAs (Decidable (bytes a < bytes b))

theorem Before.trans {a b c : κ} (hab : Before a b) (hbc : Before b c) : Before a c :=
  List.lt_trans hab hbc

theorem Before.irrefl (a : κ) : ¬ Before a a :=
  List.lt_irrefl (bytes a)

theorem eq_of_not_before {a b : κ} (hab : ¬ Before a b) (hba : ¬ Before b a) : a = b :=
  bytes_inj (List.le_antisymm hba hab)

end ByteKey

open ByteKey

/-- A list of entries with the entry for `key` put in its place, in place of one that is there
already. -/
def insertEntry {κ : Type} [ByteKey κ] {α : Type u} (key : κ) (value : α) :
    List (κ × α) → List (κ × α)
  | [] => [(key, value)]
  | entry :: rest =>
    if Before key entry.1 then (key, value) :: entry :: rest
    else if Before entry.1 key then entry :: insertEntry key value rest
    else (key, value) :: rest

def Ascending {κ : Type} [ByteKey κ] {α : Type u} (entries : List (κ × α)) : Prop :=
  entries.Pairwise fun a b => Before a.1 b.1

section Entries

variable {κ : Type} [ByteKey κ] {α : Type u}

theorem mem_insertEntry {key : κ} {value : α} {entries : List (κ × α)} {e : κ × α}
    (h : e ∈ insertEntry key value entries) : e = (key, value) ∨ e ∈ entries := by
  induction entries with
  | nil => simpa [insertEntry] using h
  | cons entry rest ih =>
    unfold insertEntry at h
    split at h
    · simpa using h
    · split at h
      · rcases List.mem_cons.1 h with h | h
        · exact .inr (h ▸ List.mem_cons_self)
        · exact (ih h).imp_right (List.mem_cons_of_mem _)
      · rcases List.mem_cons.1 h with h | h
        · exact .inl h
        · exact .inr (List.mem_cons_of_mem _ h)

theorem Ascending.insertEntry {entries : List (κ × α)} (h : Ascending entries) (key : κ)
    (value : α) :
    Ascending (insertEntry key value entries) := by
  induction entries with
  | nil => simp [Ascending, Courier.insertEntry]
  | cons entry rest ih =>
    obtain ⟨hhead, hrest⟩ := List.pairwise_cons.1 h
    unfold Courier.insertEntry
    split
    case isTrue hlt =>
      exact List.pairwise_cons.2 ⟨fun e he => (List.mem_cons.1 he).elim (fun h => h ▸ hlt)
        (fun h => hlt.trans (hhead e h)), h⟩
    case isFalse hlt =>
      split
      case isTrue hgt =>
        refine List.pairwise_cons.2 ⟨fun e he => ?_, ih hrest⟩
        rcases mem_insertEntry he with rfl | he
        · exact hgt
        · exact hhead e he
      case isFalse hgt =>
        have hkey : entry.1 = key := eq_of_not_before hgt hlt
        exact List.pairwise_cons.2 ⟨fun e he => hkey ▸ hhead e he, hrest⟩

end Entries

/-- A finite map, kept as its entries in key order. -/
structure SortedMap (κ : Type) [ByteKey κ] (α : Type u) where
  entries : List (κ × α)
  ascending : Ascending entries

namespace SortedMap

variable {κ : Type} [ByteKey κ] {α : Type u}

theorem ext {m n : SortedMap κ α} (h : m.entries = n.entries) : m = n := by
  cases m
  cases n
  cases h
  rfl

def empty : SortedMap κ α :=
  ⟨[], List.Pairwise.nil⟩

instance : Inhabited (SortedMap κ α) :=
  ⟨empty⟩

instance [DecidableEq κ] [DecidableEq α] : DecidableEq (SortedMap κ α) := fun m n =>
  decidable_of_iff (m.entries = n.entries) ⟨ext, fun h => h ▸ rfl⟩

def insert (m : SortedMap κ α) (key : κ) (value : α) : SortedMap κ α :=
  ⟨insertEntry key value m.entries, m.ascending.insertEntry key value⟩

def get? (m : SortedMap κ α) (key : κ) : Option α :=
  (m.entries.find? fun e => bytes e.1 = bytes key).map Prod.snd

/-- The map with all the entries inserted in order, a later one winning over an earlier one. -/
def insertAll (m : SortedMap κ α) (entries : List (κ × α)) : SortedMap κ α :=
  entries.foldl (fun m e => m.insert e.1 e.2) m

def keys (m : SortedMap κ α) : List κ :=
  m.entries.map Prod.fst

def size (m : SortedMap κ α) : Nat :=
  m.entries.length

def isEmpty (m : SortedMap κ α) : Bool :=
  m.entries.isEmpty

end SortedMap

end Courier
