import Courier.Proofs.Framings
import Courier.Proofs.MetadataForms
/-!
# Extra entries, in whatever order they come

Of entries that are put into metadata one after another only the last under each key is left, and
they are listed in the order of their keys.  So metadata are equal just if they have the same last
entries, and what is written of them on the wire tells exactly that
(`Metadata.withExtras_eq_iff_sameLast`).
-/

namespace Courier

namespace Metadata

/-! ## Entries one after another -/

def withExtras (m : Metadata) (entries : List (String × String)) : Metadata :=
  entries.foldl (fun m e => m.withExtra e.1 e.2) m

/-- The same entries are the last under their keys, be they of the metadata or put there. -/
def SameLast (m : Metadata) (entries entries' : List (String × String)) : Prop :=
  ∀ key value, IsLast (m.extra.entries ++ entries) key value ↔
    IsLast (m.extra.entries ++ entries') key value

/-- The metadata have the entries of others and some that were put there behind them: the last under
each key, once, in the order of the bytes of the keys.  All else is as it was. -/
structure HoldsLast (m before : Metadata) (entries : List (String × String)) : Prop where
  serviceName : m.serviceName = before.serviceName
  methodName : m.methodName = before.methodName
  error : m.error = before.error
  ascending : m.extra.entries.Pairwise fun e e' => Text.bytes e.1 < Text.bytes e'.1
  mem_entries : ∀ key value, (key, value) ∈ m.extra.entries ↔
    IsLast (before.extra.entries ++ entries) key value
  count_keys : ∀ key, m.extra.keys.count key =
    if ∃ e ∈ before.extra.entries ++ entries, e.1 = key then 1 else 0

variable {m : Metadata} {entries entries' : List (String × String)}

theorem withExtras_eq (m : Metadata) (entries : List (String × String)) :
    m.withExtras entries = { m with extra := m.extra.insertAll entries } := by
  induction entries generalizing m with
  | nil => rfl
  | cons e entries ih => exact ih (m.withExtra e.1 e.2)

theorem withExtras_holdsLast (m : Metadata) (entries : List (String × String)) :
    (m.withExtras entries).HoldsLast m entries := by
  rw [withExtras_eq]
  refine ⟨rfl, rfl, rfl, (m.extra.insertAll entries).ascending,
    fun key value => SortedMap.mem_entries_insertAll, fun key => ?_⟩
  have hnodup : (m.extra.insertAll entries).keys.Nodup :=
    (m.extra.insertAll entries).ascending.nodup_keys
  have hmem : key ∈ (m.extra.insertAll entries).keys ↔
      ∃ e ∈ m.extra.entries ++ entries, e.1 = key := by
    simp only [SortedMap.mem_keys_iff, SortedMap.get?_insertAll_eq_some_iff, exists_isLast_iff]
  rw [hnodup.count]
  simp only [hmem]

theorem withExtras_eq_iff :
    m.withExtras entries = m.withExtras entries' ↔ m.SameLast entries entries' := by
  constructor
  · intro hsame key value
    rw [← (m.withExtras_holdsLast entries).mem_entries, hsame,
      (m.withExtras_holdsLast entries').mem_entries]
  · intro hlast
    have hextra : m.extra.insertAll entries = m.extra.insertAll entries' := by
      apply SortedMap.eq_of_mem_entries_iff
      rintro ⟨key, value⟩
      rw [SortedMap.mem_entries_insertAll, SortedMap.mem_entries_insertAll]
      exact hlast key value
    rw [withExtras_eq, withExtras_eq, hextra]

end Metadata

/-! ## On the wire -/

def Message.withMetadata (t : Message) (m : Metadata) : Message :=
  { t with metadata := some m }

theorem Frame.metadata_eq_of_bytes_eq {f : Framing} {frame frame' : Frame} (hframe : frame.IsSound)
    (hframe' : frame'.IsSound) (hbytes : frame.bytes f = frame'.bytes f) :
    frame.metadata = frame'.metadata := by
  have hsame : frame.bytes f ++ [] = frame'.bytes f ++ [] := by rw [hbytes]
  obtain ⟨-, hread, -⟩ := f.frameIntake_follows.form_unique (Frame.bytes_form hframe f)
    (Frame.bytes_form hframe' f) hsame
  injection hread

namespace Framing

variable {f : Framing} {registry : Registry} {m m' : Message} {codec : Codec} {own : Bytes}
  {wire : Bytes} {nonces nonces' : Nonces} {pieces pieces' : List Delivery}

theorem encodeInPieces_eq_ok_iff :
    (f.bare registry).encodeInPieces nonces m pieces = (.ok (), wire) ↔
      ∃ frame, Frame.ofMessage registry m = .ok frame ∧ wire = frame.bytes f := by
  cases hframe : Frame.ofMessage registry m with
  | error e =>
    rw [Stack.encodeInPieces_of_frameOf_error ((f.frameOf_bare registry nonces m).trans hframe)]
    simp
  | ok frame =>
    rw [Stack.encodeInPieces_of_frameOf ((f.frameOf_bare registry nonces m).trans hframe)]
    simp [bare, eq_comm]

theorem encodeInPieces_congr (f : Framing) (registry : Registry) (nonces nonces' : Nonces)
    (m : Message)
    (pieces pieces' : List Delivery) :
    (f.bare registry).encodeInPieces nonces m pieces =
      (f.bare registry).encodeInPieces nonces' m pieces' := by
  cases hframe : Frame.ofMessage registry m with
  | error e =>
    rw [Stack.encodeInPieces_of_frameOf_error ((f.frameOf_bare registry nonces m).trans hframe),
      Stack.encodeInPieces_of_frameOf_error ((f.frameOf_bare registry nonces' m).trans hframe)]
  | ok frame =>
    rw [Stack.encodeInPieces_of_frameOf ((f.frameOf_bare registry nonces m).trans hframe),
      Stack.encodeInPieces_of_frameOf ((f.frameOf_bare registry nonces' m).trans hframe)]

theorem metadata_eq_of_encodeInPieces
    (hwire : (f.bare registry).encodeInPieces nonces m pieces = (.ok (), wire))
    (hwire' : (f.bare registry).encodeInPieces nonces' m' pieces' = (.ok (), wire))
    (hlookup : registry.lookup m.header.serialization = some codec)
    (hlookup' : registry.lookup m'.header.serialization = some codec)
    (hcodec : codec = .json ∨ codec = .binary) :
    m.metadata = m'.metadata := by
  obtain ⟨frame, hframe, rfl⟩ := encodeInPieces_eq_ok_iff.1 hwire
  obtain ⟨frame', hframe', hbytes⟩ := encodeInPieces_eq_ok_iff.1 hwire'
  have hsegments := Frame.metadata_eq_of_bytes_eq (Frame.ofMessage_isSound hframe)
    (Frame.ofMessage_isSound hframe') hbytes
  obtain ⟨_, own, hfound, hown, hfits, -, rfl⟩ := Frame.ofMessage_eq_ok_iff.1 hframe
  obtain ⟨_, own', hfound', hown', -, -, rfl⟩ := Frame.ofMessage_eq_ok_iff.1 hframe'
  obtain rfl : own = own' := hsegments
  obtain ⟨⟩ := hlookup.symm.trans hfound
  obtain ⟨⟩ := hlookup'.symm.trans hfound'
  have hread := Codec.decodeMetadata_of_json_or_binary hcodec hown hfits
  have hread' := Codec.decodeMetadata_of_json_or_binary hcodec hown' hfits
  exact Except.ok.inj (hread.symm.trans hread')

theorem exists_encodeInPieces (hlookup : registry.lookup m.header.serialization = some codec)
    (hown : codec.encodeMetadata m.metadata = .ok own) (hfits : own.length < UInt32.size)
    (hpayload : m.payload.length < UInt32.size) (nonces : Nonces) (pieces : List Delivery) :
    ∃ wire, (f.bare registry).encodeInPieces nonces m pieces = (.ok (), wire) :=
  ⟨_, encodeInPieces_eq_ok_iff.2
    ⟨_, Frame.ofMessage_eq_ok_iff.2 ⟨codec, own, hlookup, hown, hfits, hpayload, rfl⟩, rfl⟩⟩

end Framing

namespace Metadata

/-- Entries that are put into metadata one after another leave the last under each key, once, in
the order of the keys; and metadata with two sequences of entries are equal just if the same
entries are the last, which is so if it is so of the sequences by themselves.  Then both codecs
write the same, and both framings, however a sink takes the bytes; and what is written of a
message with other last entries is not the same.  -/
theorem withExtras_eq_iff_sameLast (m : Metadata) (entries entries' : List (String × String)) :
    (m.withExtras entries).HoldsLast m entries ∧
    ((∀ key value, IsLast entries key value ↔ IsLast entries' key value) →
      m.SameLast entries entries') ∧
    (m.withExtras entries = m.withExtras entries' ↔ m.SameLast entries entries') ∧
    ∀ (f : Framing) (registry : Registry) (t : Message) (codec : Codec),
      registry.lookup t.header.serialization = some codec → codec = .json ∨ codec = .binary →
      ∃ own, codec.encode capabilities (m.withExtras entries) = .ok own ∧
        (m.SameLast entries entries' →
          codec.encode capabilities (m.withExtras entries') = .ok own) ∧
        ∀ (nonces nonces' : Nonces) (pieces pieces' : List Delivery),
          (m.SameLast entries entries' →
            (f.bare registry).encodeInPieces nonces'
                (t.withMetadata (m.withExtras entries')) pieces' =
              (f.bare registry).encodeInPieces nonces
                (t.withMetadata (m.withExtras entries)) pieces) ∧
          (own.length < UInt32.size → t.payload.length < UInt32.size → ∃ wire,
            (f.bare registry).encodeInPieces nonces (t.withMetadata (m.withExtras entries)) pieces =
              (.ok (), wire) ∧
            ((f.bare registry).encodeInPieces nonces' (t.withMetadata (m.withExtras entries'))
              pieces' =
              (.ok (), wire) ↔ m.SameLast entries entries')) := by
  refine ⟨withExtras_holdsLast m entries,
    fun hsame key value => isLast_append_congr hsame m.extra.entries key value,
    withExtras_eq_iff, ?_⟩
  intro f registry t codec hlookup hcodec
  -- There are no metadata that either of the codecs refuses.
  obtain ⟨own, hown⟩ : ∃ own, codec.encode capabilities (m.withExtras entries) = .ok own := by
    rcases hcodec with rfl | rfl
    · exact ⟨_, rfl⟩
    · exact ⟨_, rfl⟩
  refine ⟨own, hown, fun hlast => withExtras_eq_iff.2 hlast ▸ hown, ?_⟩
  intro nonces nonces' pieces pieces'
  have halike (hlast : m.SameLast entries entries') :
      (f.bare registry).encodeInPieces nonces' (t.withMetadata (m.withExtras entries')) pieces' =
        (f.bare registry).encodeInPieces nonces (t.withMetadata (m.withExtras entries)) pieces := by
    rw [withExtras_eq_iff.2 hlast]
    exact f.encodeInPieces_congr registry nonces' nonces _ pieces' pieces
  refine ⟨halike, fun hfits hpayload => ?_⟩
  have hsegment : codec.encodeMetadata (some (m.withExtras entries)) = .ok own := by
    rw [Codec.encodeMetadata, hown]
    rfl
  obtain ⟨wire, hwire⟩ : ∃ wire, (f.bare registry).encodeInPieces nonces
      (t.withMetadata (m.withExtras entries)) pieces = (.ok (), wire) :=
    Framing.exists_encodeInPieces (m := t.withMetadata (m.withExtras entries)) hlookup hsegment
      hfits
      hpayload nonces pieces
  refine ⟨wire, hwire, fun hwire' => ?_, fun hlast => (halike hlast).trans hwire⟩
  have hmetadata := Framing.metadata_eq_of_encodeInPieces hwire hwire' hlookup hlookup hcodec
  exact withExtras_eq_iff.1 (Option.some.inj hmetadata)

/-- Metadata with an entry, which is put there anew in both of these sequences. -/
def labelled : Metadata where
  serviceName := "Sum"
  extra := SortedMap.empty.insert "b" "0"

def repeating : List (String × String) := [("k", "1"), ("é", ""), ("b", "2"), ("k", "3")]

def plain : List (String × String) := [("b", "2"), ("k", "3"), ("é", "")]

theorem withExtras_eq_iff_sameLast_repeating :
    (∀ key value, IsLast repeating key value ↔ IsLast plain key value) ∧
      labelled.SameLast repeating plain ∧
      Registry.builtin.lookup Message.sample.header.serialization = some .binary ∧
      ∃ wire,
        (Framing.compact.bare .builtin).encodeInPieces .ofCounter
          (Message.sample.withMetadata (labelled.withExtras repeating)) [] = (.ok (), wire) ∧
        (Framing.compact.bare .builtin).encodeInPieces .ofCounter
          (Message.sample.withMetadata (labelled.withExtras plain)) [.upTo 1] = (.ok (), wire) := by
  have hequal : ({} : Metadata).withExtras repeating = ({} : Metadata).withExtras plain := by decide
  obtain ⟨-, -, hiff, -⟩ := withExtras_eq_iff_sameLast {} repeating plain
  have hsame : ∀ key value, IsLast repeating key value ↔ IsLast plain key value := hiff.1 hequal
  obtain ⟨-, hlast, -, hwire⟩ := withExtras_eq_iff_sameLast labelled repeating plain
  have hlookup : Registry.builtin.lookup Message.sample.header.serialization = some .binary := rfl
  obtain ⟨own, hown, -, hframed⟩ := hwire .compact .builtin .sample .binary hlookup (.inr rfl)
  have hfits : own.length < UInt32.size := by
    cases hown
    decide +kernel
  obtain ⟨wire, hrepeating, hplain⟩ :=
    (hframed .ofCounter .ofCounter [] [.upTo 1]).2 hfits (by decide)
  exact ⟨hsame, hlast hsame, hlookup, wire, hrepeating, hplain.2 (hlast hsame)⟩

end Metadata

end Courier
