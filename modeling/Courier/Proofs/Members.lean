import Courier.Gzip
import Courier.Proofs.Compression
/-!
# Well-formed members

A member is a header, compressed data and the trailer for what these stand for (`Gzip.IsMember`).
The reader of headers takes off exactly the headers (`Gzip.exists_skipHeader_eq_ok_iff`).  So a
member at the front of the input gives its content within the limit and is refused past it,
whatever stands behind it (`Gzip.decompress_of_startsWithMember`); and nothing else gives any
content (`Gzip.startsWithMember_of_decompress`).  What is written is a member
(`Gzip.isMember_compress`), so it is read back as its content just if the content fits the limit.
-/

namespace Courier

namespace Bytes

theorem littleEndian_ofLittleEndian (bytes : Bytes) :
    littleEndian bytes.length (ofLittleEndian bytes) = bytes := by
  induction bytes with
  | nil => rfl
  | cons b rest ih =>
    have hb : b.toNat < 256 := b.toNat_lt
    have hlow : UInt8.ofNat (b.toNat + 256 * ofLittleEndian rest) = b := by
      apply UInt8.toNat_inj.1
      rw [UInt8.toNat_ofNat']
      omega
    have hhigh : (b.toNat + 256 * ofLittleEndian rest) / 256 = ofLittleEndian rest := by omega
    rw [ofLittleEndian, List.length_cons, littleEndian, hlow, hhigh, ih]

theorem ofLittleEndian_lt (bytes : Bytes) : ofLittleEndian bytes < 256 ^ bytes.length := by
  rw [← littleEndian_ofLittleEndian bytes, ofLittleEndian_littleEndian, length_littleEndian]
  exact Nat.mod_lt _ (by positivity)

theorem ofNat_ofLittleEndian_eq_iff {bytes : Bytes} (hlength : bytes.length = 2) {n : UInt16} :
    UInt16.ofNat (ofLittleEndian bytes) = n ↔ bytes = littleEndian 2 n.toNat := by
  have hlt := ofLittleEndian_lt bytes
  rw [hlength] at hlt
  constructor
  · rintro rfl
    rw [UInt16.toNat_ofNat_of_lt' hlt, ← hlength, littleEndian_ofLittleEndian]
  · rintro rfl
    have hn : n.toNat % 256 ^ 2 = n.toNat := Nat.mod_eq_of_lt n.toNat_lt
    rw [ofLittleEndian_littleEndian, hn, UInt16.ofNat_toNat]

theorem takeExactly_eq_some_iff {n : Nat} {bytes front rest : Bytes} :
    takeExactly n bytes = some (front, rest) ↔ front.length = n ∧ bytes = front ++ rest := by
  constructor
  · intro h
    unfold takeExactly at h
    dsimp only at h
    split at h
    · next hlength =>
      cases h
      exact ⟨hlength, (List.take_append_drop n bytes).symm⟩
    · cases h
  · rintro ⟨hlength, rfl⟩
    exact takeExactly_append hlength rest

end Bytes

namespace Gzip

/-! ## What a member is -/

inductive IsExtra : (announced : Bool) → Bytes → Prop
  | absent : IsExtra false []
  | present {data : Bytes} (hlength : data.length < 65536) :
      IsExtra true (Bytes.littleEndian 2 data.length ++ data)

inductive IsText : (announced : Bool) → Bytes → Prop
  | absent : IsText false []
  | present {text : Bytes} (hzero : 0 ∉ text) (hlength : text.length ≤ longestField) :
      IsText true (text ++ [0])

inductive IsCheck (before : Bytes) : (announced : Bool) → Bytes → Prop
  | absent : IsCheck before false []
  | present : IsCheck before true (Bytes.littleEndian 2 (Crc32.checksum before).toUInt16.toNat)

/-- The lead, the flags, six bytes about the content, and the parts that the flags announce. -/
inductive IsHeader : Bytes → Prop
  | intro {flagByte : UInt8} {flags : Flags} {about extra name comment check : Bytes}
      (hflags : Flags.ofByte? flagByte = some flags) (habout : about.length = 6)
      (hextra : IsExtra flags.extra extra) (hname : IsText flags.name name)
      (hcomment : IsText flags.comment comment)
      (hcheck :
        IsCheck (lead ++ flagByte :: about ++ extra ++ name ++ comment) flags.checksum check) :
      IsHeader (lead ++ flagByte :: about ++ extra ++ name ++ comment ++ check)

/-- A well-formed member with the given content. -/
def IsMember (member content : Bytes) : Prop :=
  ∃ header data, IsHeader header ∧ Deflate.Deflated data content ∧
    member = header ++ data ++ trailer content

/-- The input starts with a well-formed member with the given content. -/
def StartsWithMember (input content : Bytes) : Prop :=
  ∃ member rest, IsMember member content ∧ input = member ++ rest

/-! ## Headers are read -/

theorem take_eq_ok_iff {n : Nat} {input front rest : Bytes} :
    take n input = .ok (front, rest) ↔ front.length = n ∧ input = front ++ rest := by
  rw [← Bytes.takeExactly_eq_some_iff]
  unfold take
  cases Bytes.takeExactly n input <;> simp

theorem skipText_zero (room : Nat) (rest : Bytes) : skipText room (0 :: rest) = .ok rest := by
  cases room <;> rfl

theorem skipText_succ {b : UInt8} (hb : b ≠ 0) (room : Nat) (rest : Bytes) :
    skipText (room + 1) (b :: rest) = skipText room rest := by
  rw [skipText, if_neg hb]

theorem skipText_eq_ok_iff {room : Nat} {input rest : Bytes} :
    skipText room input = .ok rest ↔
      ∃ text, 0 ∉ text ∧ text.length ≤ room ∧ input = text ++ 0 :: rest := by
  induction input generalizing room with
  | nil => simp [skipText]
  | cons b input ih =>
    by_cases hb : b = 0
    · subst hb
      rw [skipText_zero]
      constructor
      · rintro ⟨⟩
        exact ⟨[], List.not_mem_nil, Nat.zero_le _, rfl⟩
      · rintro ⟨text, hzero, -, htext⟩
        cases text with
        | nil =>
          cases htext
          rfl
        | cons first text =>
          cases htext
          exact absurd List.mem_cons_self hzero
    · constructor
      · intro h
        cases room with
        | zero =>
          rw [skipText, if_neg hb] at h
          cases h
        | succ room =>
          rw [skipText_succ hb] at h
          obtain ⟨text, hzero, hlength, rfl⟩ := ih.1 h
          exact ⟨b :: text, by simp [hzero, Ne.symm hb], Nat.succ_le_succ hlength, rfl⟩
      · rintro ⟨text, hzero, hlength, htext⟩
        cases text with
        | nil => exact absurd (List.cons.inj htext).1 hb
        | cons first text =>
          obtain ⟨rfl, rfl⟩ := List.cons.inj htext
          obtain ⟨room, rfl⟩ :=
            Nat.exists_eq_add_of_le' ((Nat.succ_le_succ (Nat.zero_le _)).trans hlength)
          rw [skipText_succ hb]
          exact ih.2 ⟨text, fun h => hzero (List.mem_cons_of_mem _ h),
            Nat.le_of_succ_le_succ hlength, rfl⟩

def skipTextIf (announced : Bool) (input : Bytes) : Except Fault Bytes :=
  if announced then skipText longestField input else .ok input

theorem skipTextIf_eq_ok_iff {announced : Bool} {input rest : Bytes} :
    skipTextIf announced input = .ok rest ↔
      ∃ text, IsText announced text ∧ input = text ++ rest := by
  constructor
  · intro h
    cases announced with
    | false =>
      cases h
      exact ⟨[], .absent, rfl⟩
    | true =>
      obtain ⟨text, hzero, hlength, rfl⟩ := skipText_eq_ok_iff.1 h
      exact ⟨_, .present hzero hlength, by simp⟩
  · rintro ⟨_, _ | ⟨hzero, hlength⟩, rfl⟩
    · rfl
    · exact skipText_eq_ok_iff.2 ⟨_, hzero, hlength, by simp⟩

def skipExtraIf (announced : Bool) (input : Bytes) : Except Fault (Nat × Bytes) :=
  if announced then do
    let (size, rest) ← take 2 input
    let (_, rest) ← take (Bytes.ofLittleEndian size) rest
    .ok (segmentOrigin (12 + Bytes.ofLittleEndian size), rest)
  else .ok (0, input)

theorem exists_skipExtraIf_eq_ok_iff {announced : Bool} {input rest : Bytes} :
    (∃ origin, skipExtraIf announced input = .ok (origin, rest)) ↔
      ∃ extra, IsExtra announced extra ∧ input = extra ++ rest := by
  constructor
  · rintro ⟨origin, h⟩
    cases announced with
    | false =>
      cases h
      exact ⟨[], .absent, rfl⟩
    | true =>
      obtain ⟨⟨size, rest₁⟩, hsize, h⟩ := bind_eq_ok_iff.1 h
      obtain ⟨⟨data, rest₂⟩, hdata, h⟩ := bind_eq_ok_iff.1 h
      cases h
      obtain ⟨hwidth, rfl⟩ := take_eq_ok_iff.1 hsize
      obtain ⟨hlength, rfl⟩ := take_eq_ok_iff.1 hdata
      have hsmall : data.length < 65536 := by
        have hlt := Bytes.ofLittleEndian_lt size
        rw [hwidth] at hlt
        omega
      have hbytes : Bytes.littleEndian 2 data.length = size := by
        rw [hlength, ← hwidth, Bytes.littleEndian_ofLittleEndian]
      refine ⟨_, .present hsmall, ?_⟩
      rw [hbytes, List.append_assoc]
  · rintro ⟨_, _ | @⟨data, hlength⟩, rfl⟩
    · exact ⟨0, rfl⟩
    · have hsize : Bytes.ofLittleEndian (Bytes.littleEndian 2 data.length) = data.length := by
        rw [Bytes.ofLittleEndian_littleEndian]
        exact Nat.mod_eq_of_lt hlength
      refine ⟨segmentOrigin (12 + data.length), bind_eq_ok_iff.2
        ⟨(Bytes.littleEndian 2 data.length, data ++ rest), ?_, ?_⟩⟩
      · exact take_eq_ok_iff.2 ⟨Bytes.length_littleEndian _ _, List.append_assoc _ _ _⟩
      · dsimp only
        rw [hsize]
        exact bind_eq_ok_iff.2 ⟨(data, rest), take_eq_ok_iff.2 ⟨rfl, rfl⟩, rfl⟩

def skipCheckIf (announced : Bool) (before input : Bytes) : Except Fault Bytes :=
  if announced then do
    let (stored, rest) ← take 2 input
    if UInt16.ofNat (Bytes.ofLittleEndian stored) ≠ (Crc32.checksum before).toUInt16 then
      .error .mismatch
    else .ok rest
  else .ok input

theorem skipCheckIf_eq_ok_iff {announced : Bool} {before input rest : Bytes} :
    skipCheckIf announced before input = .ok rest ↔
      ∃ check, IsCheck before announced check ∧ input = check ++ rest := by
  constructor
  · intro h
    cases announced with
    | false =>
      cases h
      exact ⟨[], .absent, rfl⟩
    | true =>
      obtain ⟨⟨stored, rest₁⟩, hstored, hcompare⟩ := bind_eq_ok_iff.1 h
      obtain ⟨hwidth, rfl⟩ := take_eq_ok_iff.1 hstored
      dsimp only at hcompare
      split at hcompare
      · cases hcompare
      next hsame =>
        cases hcompare
        obtain rfl := (Bytes.ofNat_ofLittleEndian_eq_iff hwidth).1 (not_not.1 hsame)
        exact ⟨_, .present, rfl⟩
  · rintro ⟨_, _ | _, rfl⟩
    · rfl
    · have hwidth : (Bytes.littleEndian 2 (Crc32.checksum before).toUInt16.toNat).length = 2 :=
        Bytes.length_littleEndian _ _
      refine bind_eq_ok_iff.2 ⟨_, take_eq_ok_iff.2 ⟨hwidth, rfl⟩, ?_⟩
      exact if_neg (not_not.2 ((Bytes.ofNat_ofLittleEndian_eq_iff hwidth).2 rfl))

theorem skipHeader_eq (input : Bytes) :
    skipHeader input = (do
      let (fixed, rest) ← take 10 input
      if fixed.take 3 ≠ lead then .error .invalidHeader
      else
        match Flags.ofByte? (fixed.getD 3 0) with
        | none => .error .invalidHeader
        | some flags => do
          let (origin, rest) ← skipExtraIf flags.extra rest
          let rest ← skipTextIf flags.name rest
          let rest ← skipTextIf flags.comment rest
          let rest ← skipCheckIf flags.checksum (input.take (input.length - rest.length)) rest
          .ok ⟨origin, rest⟩) := by
  unfold skipHeader
  congr 1
  funext ⟨fixed, rest⟩
  dsimp only
  split
  · rfl
  cases Flags.ofByte? (fixed.getD 3 0) with
  | none => rfl
  | some flags =>
    -- Both sides take the same steps; these laws bring them into one nesting.
    have hite {α β : Type} (c : Prop) [Decidable c] (x y : Except Fault α)
        (f : α → Except Fault β) :
        (if c then x else y) >>= f = if c then x >>= f else y >>= f := by
      split <;> rfl
    have hok {α β : Type} (a : α) (f : α → Except Fault β) : Except.ok a >>= f = f a := rfl
    have herror {α β : Type} (e : Fault) (f : α → Except Fault β) :
        Except.error e >>= f = Except.error e := rfl
    have hthrow {α β : Type} (e : Fault) (f : α → Except Fault β) :
        throw e >>= f = Except.error e := rfl
    simp only [skipExtraIf, skipTextIf, skipCheckIf, hite, hok, herror, hthrow, bind_assoc, pure,
      Except.pure]

theorem eq_append_of_take_eq_lead {fixed : Bytes} (hlength : fixed.length = 10)
    (hlead : fixed.take 3 = lead) :
    ∃ about, about.length = 6 ∧ fixed = lead ++ fixed.getD 3 0 :: about := by
  refine ⟨fixed.drop 4, by rw [List.length_drop, hlength], ?_⟩
  have hthird : 3 < fixed.length := by omega
  calc fixed = fixed.take 3 ++ fixed.drop 3 := (List.take_append_drop 3 fixed).symm
    _ = lead ++ fixed.getD 3 0 :: fixed.drop 4 := by
      rw [hlead, List.drop_eq_getElem_cons hthird, List.getD_eq_getElem _ _ hthird]

theorem take_sub_length (front rest : Bytes) :
    (front ++ rest).take ((front ++ rest).length - rest.length) = front := by
  apply List.take_left'
  rw [List.length_append, Nat.add_sub_cancel]

/-- The reader of headers takes off exactly a header. -/
theorem exists_skipHeader_eq_ok_iff {input rest : Bytes} :
    (∃ origin, skipHeader input = .ok ⟨origin, rest⟩) ↔
      ∃ header, IsHeader header ∧ input = header ++ rest := by
  constructor
  · rintro ⟨origin, h⟩
    rw [skipHeader_eq] at h
    obtain ⟨⟨fixed, rest₁⟩, hfixed, h⟩ := bind_eq_ok_iff.1 h
    obtain ⟨hlength, rfl⟩ := take_eq_ok_iff.1 hfixed
    dsimp only at h
    split at h
    · cases h
    next hlead =>
    split at h
    · cases h
    next flags hflags =>
    obtain ⟨⟨_, rest₂⟩, hskipExtra, h⟩ := bind_eq_ok_iff.1 h
    obtain ⟨rest₃, hskipName, h⟩ := bind_eq_ok_iff.1 h
    obtain ⟨rest₄, hskipComment, h⟩ := bind_eq_ok_iff.1 h
    obtain ⟨rest₅, hskipCheck, h⟩ := bind_eq_ok_iff.1 h
    cases h
    obtain ⟨extra, hextra, rfl⟩ := exists_skipExtraIf_eq_ok_iff.1 ⟨_, hskipExtra⟩
    obtain ⟨name, hname, rfl⟩ := skipTextIf_eq_ok_iff.1 hskipName
    obtain ⟨comment, hcomment, rfl⟩ := skipTextIf_eq_ok_iff.1 hskipComment
    have hinput : fixed ++ (extra ++ (name ++ (comment ++ rest₄))) =
        fixed ++ extra ++ name ++ comment ++ rest₄ := by
      simp only [List.append_assoc]
    rw [hinput, take_sub_length] at hskipCheck
    obtain ⟨check, hcheck, rfl⟩ := skipCheckIf_eq_ok_iff.1 hskipCheck
    obtain ⟨about, habout, hfixed'⟩ := eq_append_of_take_eq_lead hlength (not_not.1 hlead)
    rw [hfixed'] at hcheck
    rw [hinput, hfixed', ← List.append_assoc]
    exact ⟨_, .intro hflags habout hextra hname hcomment hcheck, rfl⟩
  · rintro ⟨_, @⟨flagByte, flags, about, extra, name, comment, check, hflags, habout, hextra, hname,
      hcomment, hcheck⟩, rfl⟩
    obtain ⟨origin, hskipExtra⟩ := exists_skipExtraIf_eq_ok_iff.2
      ⟨extra, hextra, (rfl : _ = extra ++ (name ++ (comment ++ (check ++ rest))))⟩
    have hfixed : (lead ++ flagByte :: about).length = 10 := by
      simp [lead, habout]
    have hlead : (lead ++ flagByte :: about).take 3 = lead := rfl
    have hbyte : (lead ++ flagByte :: about).getD 3 0 = flagByte := rfl
    have hinput : lead ++ flagByte :: about ++ extra ++ name ++ comment ++ (check ++ rest) =
        lead ++ flagByte :: about ++ (extra ++ (name ++ (comment ++ (check ++ rest)))) := by
      simp only [List.append_assoc]
    refine ⟨origin, ?_⟩
    rw [skipHeader_eq, List.append_assoc _ check]
    refine bind_eq_ok_iff.2 ⟨_, take_eq_ok_iff.2 ⟨hfixed, hinput⟩, ?_⟩
    dsimp only
    rw [if_neg (not_not.2 hlead), hbyte, hflags]
    refine bind_eq_ok_iff.2 ⟨_, hskipExtra, ?_⟩
    refine bind_eq_ok_iff.2 ⟨_, skipTextIf_eq_ok_iff.2 ⟨name, hname, rfl⟩, ?_⟩
    refine bind_eq_ok_iff.2 ⟨_, skipTextIf_eq_ok_iff.2 ⟨comment, hcomment, rfl⟩, ?_⟩
    rw [take_sub_length]
    exact bind_eq_ok_iff.2 ⟨_, skipCheckIf_eq_ok_iff.2 ⟨check, hcheck, rfl⟩, rfl⟩

/-! ## Members are read -/

theorem checkTrailer_eq_ok_iff {content input : Bytes} :
    checkTrailer content input = .ok () ↔ ∃ rest, input = trailer content ++ rest := by
  have hwidth : (trailer content).length = 8 := by simp [trailer]
  constructor
  · intro h
    obtain ⟨⟨stored, rest⟩, hstored, hcompare⟩ := bind_eq_ok_iff.1 h
    obtain ⟨-, rfl⟩ := take_eq_ok_iff.1 hstored
    dsimp only at hcompare
    split at hcompare
    · cases hcompare
    next hsame =>
      rw [not_not.1 hsame]
      exact ⟨rest, rfl⟩
  · rintro ⟨rest, rfl⟩
    refine bind_eq_ok_iff.2 ⟨_, take_eq_ok_iff.2 ⟨hwidth, rfl⟩, ?_⟩
    exact if_neg (not_not.2 rfl)

theorem decompress_of_startsWithMember {input content : Bytes}
    (h : StartsWithMember input content) (limit : Nat) :
    decompress limit input =
      if content.length ≤ limit then .ok content else .error (.overLimit (limit + 1)) := by
  obtain ⟨member, rest, ⟨header, data, hheader, hdata, rfl⟩, rfl⟩ := h
  rw [List.append_assoc, List.append_assoc]
  obtain ⟨origin, hskip⟩ := exists_skipHeader_eq_ok_iff.2
    ⟨header, hheader, (rfl : _ = header ++ (data ++ (trailer content ++ rest)))⟩
  have htrailer : checkTrailer content (trailer content ++ rest) = .ok () :=
    checkTrailer_eq_ok_iff.2 ⟨rest, rfl⟩
  unfold decompress
  simp only [hskip, Deflate.inflate_of_deflated hdata]
  by_cases hlimit : content.length ≤ limit
  · simp only [if_pos hlimit, htrailer]
  · simp only [if_neg hlimit]

theorem startsWithMember_of_decompress {limit : Nat} {input content : Bytes}
    (h : decompress limit input = .ok content) :
    content.length ≤ limit ∧ StartsWithMember input content := by
  unfold decompress at h
  split at h
  · cases h
  next body hbody =>
  split at h
  · cases h
  · cases h
  · cases h
  next content' behind hinflate =>
  split at h
  · cases h
  next htrailer =>
  cases h
  obtain ⟨header, hheader, rfl⟩ := exists_skipHeader_eq_ok_iff.1 ⟨_, hbody⟩
  obtain ⟨hle, data, hdata, hdeflated⟩ := Deflate.exists_deflated_of_inflate hinflate
  obtain ⟨rest, rfl⟩ := checkTrailer_eq_ok_iff.1 htrailer
  refine ⟨hle, _, rest, ⟨header, data, hheader, hdeflated, rfl⟩, ?_⟩
  rw [hdata]
  simp only [List.append_assoc]

theorem size_of_decompress {limit size : Nat} {input : Bytes}
    (h : decompress limit input = .error (.overLimit size)) : size = limit + 1 := by
  unfold decompress at h
  split at h
  · cases h
  split at h
  · cases h
  · cases h
  next hinflate =>
    cases h
    exact Deflate.size_of_inflate hinflate
  · split at h <;> cases h

/-! ## Members that are written -/

theorem isHeader_header (level : Nat) : IsHeader (header level) := by
  have hflags : Flags.ofByte? 0 = some ⟨false, false, false, false⟩ := by
    simp [Flags.ofByte?]
  have habout : ([0, 0, 0, 0, levelHint level, 0xFF] : Bytes).length = 6 := rfl
  exact .intro hflags habout .absent .absent .absent .absent

theorem isMember_compress (level : Nat) (content : Bytes) :
    IsMember (compress level content) content :=
  ⟨header level, Deflate.deflate level content, isHeader_header level,
    Deflate.deflated_deflate level content, rfl⟩

/-- A member is read back just if its content fits the limit. -/
theorem decompress_compress (level limit : Nat) (content : Bytes) :
    decompress limit (compress level content) =
      if content.length ≤ limit then .ok content else .error (.overLimit (limit + 1)) := by
  apply decompress_of_startsWithMember
  exact ⟨_, [], isMember_compress level content, (List.append_nil _).symm⟩

theorem length_compress_zero {content : Bytes} (hcontent : content.length < Deflate.storedShare) :
    (compress 0 content).length = content.length + 23 := by
  have hlevel : Deflate.deflate 0 content = Deflate.storedBlock true content := by
    rw [Deflate.deflate, if_pos rfl, Deflate.deflateStored, dif_pos hcontent]
  have hheader : (header 0).length = 10 := rfl
  simp only [compress, hlevel, List.length_append, hheader, Deflate.storedBlock_length, trailer,
    Bytes.length_littleEndian]
  omega

end Gzip

end Courier
