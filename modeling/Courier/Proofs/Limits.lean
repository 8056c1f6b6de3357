import Courier.Proofs.Layers
/-!
# The limit of a decompression

A compressing layer hands up exactly the content of the member at the front of a payload, if the
content fits the layer's limit (`Layer.decompressed_exactly`).  A payload that does not start with a
well-formed member, with the right checksum and length at its end, has no content to hand up.
-/

namespace Courier

namespace Layer

section

variable {m : Message} {content : Bytes}

theorem decompressed_of_startsWithMember (limit : UInt32)
    (hgzip : m.header.compression.normalized = .gzip)
    (hmember : Gzip.StartsWithMember m.payload content) :
    decompressed limit m =
      if content.length ≤ limit.toNat then .ok (some content)
      else .error (.sizeOverflow .payload (limit.toNat + 1)) := by
  simp only [decompressed, hgzip, Gzip.decompress_of_startsWithMember hmember]
  by_cases hlimit : content.length ≤ limit.toNat
  · simp only [if_pos hlimit]
  · simp only [if_neg hlimit]

theorem decompressed_cases (limit : UInt32) (hgzip : m.header.compression.normalized = .gzip) :
    (∃ content, decompressed limit m = .ok (some content) ∧
        Gzip.StartsWithMember m.payload content) ∨
      decompressed limit m = .error (.sizeOverflow .payload (limit.toNat + 1)) ∨
      ∃ cause, decompressed limit m = .error (.compression cause) := by
  cases hread : Gzip.decompress limit.toNat m.payload with
  | ok content =>
    refine .inl ⟨content, ?_, (Gzip.startsWithMember_of_decompress hread).2⟩
    simp only [decompressed, hgzip, hread]
  | error refusal =>
    right
    cases refusal with
    | overLimit size =>
      left
      simp only [decompressed, hgzip, hread, Gzip.size_of_decompress hread]
    | damaged fault =>
      right
      refine ⟨fault.transportError, ?_⟩
      simp only [decompressed, hgzip, hread]

end

/-- A decompression gives the content of the member at the front of the payload if the content fits
the limit; past the limit the payload is refused as one byte too long.  Without such a member, the
trailer included, there is no content, whatever the limit.  And what a layer compresses is such a
member, at any level. -/
theorem decompressed_exactly (limit : UInt32) (m : Message)
    (hgzip : m.header.compression.normalized = .gzip) :
    (∀ content, Gzip.StartsWithMember m.payload content →
      decompressed limit m =
        if content.length ≤ limit.toNat then .ok (some content)
        else .error (.sizeOverflow .payload (limit.toNat + 1))) ∧
    ((∀ content, ¬ Gzip.StartsWithMember m.payload content) →
      decompressed limit m = .error (.sizeOverflow .payload (limit.toNat + 1)) ∨
        ∃ cause, decompressed limit m = .error (.compression cause)) ∧
    (∀ content, decompressed limit m = .ok (some content) →
      Gzip.StartsWithMember m.payload content) ∧
    ∀ level limit' nonce, ∃ compressed,
      ((compress level limit').wrap nonce m).result = .ok compressed ∧
        Gzip.IsMember compressed.payload m.payload ∧
        decompressed limit compressed =
          if m.payload.length ≤ limit.toNat then .ok (some m.payload)
          else .error (.sizeOverflow .payload (limit.toNat + 1)) := by
  refine ⟨fun content => decompressed_of_startsWithMember limit hgzip, ?_, ?_, ?_⟩
  · intro hnone
    rcases decompressed_cases limit hgzip with ⟨content, -, hmember⟩ | hrefused
    · exact absurd hmember (hnone content)
    · exact hrefused
  · intro content hread
    rcases decompressed_cases limit hgzip with
      ⟨content', hread', hmember⟩ | hrefused | ⟨cause, hrefused⟩
    · rw [hread] at hread'
      cases hread'
      exact hmember
    · rw [hread] at hrefused
      cases hrefused
    · rw [hread] at hrefused
      cases hrefused
  · intro level limit' nonce
    have hmember := Gzip.isMember_compress level m.payload
    have hwrap : ((compress level limit').wrap nonce m).result =
        .ok { m with payload := Gzip.compress level m.payload } := by
      rw [wrap, hgzip]
    exact ⟨_, hwrap, hmember, decompressed_of_startsWithMember limit hgzip
      ⟨_, [], hmember, (List.append_nil _).symm⟩⟩

def trailed : Message where
  header := { Header.new .request .json 7 with compression := .other 1 }
  metadata := none
  payload := Gzip.compress 0 [1, 2, 3] ++ [9]

theorem decompressed_exactly_trailed :
    decompressed 2 trailed = .error (.sizeOverflow .payload 3) ∧
      decompressed 3 trailed = .ok (some [1, 2, 3]) ∧
      ∃ cause, decompressed 3 { trailed with payload := [] } = .error (.compression cause) := by
  have hmember : Gzip.StartsWithMember trailed.payload [1, 2, 3] :=
    ⟨_, [9], Gzip.isMember_compress 0 [1, 2, 3], rfl⟩
  have hnone : ∀ content, ¬ Gzip.StartsWithMember [] content := by
    rintro content ⟨member, rest, ⟨header, data, ⟨hheader⟩, -, rfl⟩, hnil⟩
    simp [Gzip.lead] at hnil
  have hempty :
      decompressed 3 { trailed with payload := [] } ≠ .error (.sizeOverflow .payload 4) := by
    decide +kernel
  refine ⟨?_, ?_, ?_⟩
  · exact (decompressed_exactly 2 trailed rfl).1 _ hmember
  · exact (decompressed_exactly 3 trailed rfl).1 _ hmember
  · have hrefused := (decompressed_exactly 3 { trailed with payload := [] } rfl).2.1 hnone
    exact hrefused.resolve_left hempty

end Layer

end Courier
