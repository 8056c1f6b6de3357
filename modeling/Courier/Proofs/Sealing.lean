import Courier.Cipher.Sealed
import Courier.Proofs.Basics
/-!
# Sealed payloads open

A payload opens to a content just if sealing that content makes it
(`Cipher.openPayload?_eq_some_iff`).  So a nonce and a ciphertext have one tag that is accepted,
and in another message a payload opens only if the tag there is the same
(`Cipher.openPayload?_sealPayload_eq_some_iff`).
-/

namespace Courier

namespace Cipher

variable {key : Key} {nonce : Nonce} {id : UInt64} {sealedForm content : Bytes}

theorem length_tagOf (key nonce associated ciphertext : Bytes) :
    (tagOf key nonce associated ciphertext).length = tagSize :=
  Poly1305.length_tag _ _

theorem openPayload?_append (key : Key) (nonce : Nonce) (id : UInt64) (ciphertext : Bytes)
    {tag : Bytes} (htag : tag.length = tagSize) :
    openPayload? key id (nonce.bytes ++ ciphertext ++ tag) =
      if tag = tagOf key.bytes nonce.bytes (associatedData id) ciphertext then
        some (ChaCha20.crypt key.bytes nonce.bytes ciphertext)
      else none := by
  have hlong : ¬ (nonce.bytes ++ ciphertext ++ tag).length < nonceSize + tagSize := by
    rw [List.length_append, List.length_append, nonce.length_eq, htag]
    omega
  have hlength : (ciphertext ++ tag).length - tagSize = ciphertext.length := by
    rw [List.length_append, htag, Nat.add_sub_cancel]
  unfold openPayload?
  rw [if_neg hlong, List.append_assoc]
  simp only [List.take_left' nonce.length_eq, List.drop_left' nonce.length_eq, hlength,
    List.take_left, List.drop_left]

theorem openPayload?_of_length_lt (hshort : sealedForm.length < nonceSize + tagSize) :
    openPayload? key id sealedForm = none := by
  unfold openPayload?
  rw [if_pos hshort]

theorem exists_parts (hlong : nonceSize + tagSize ≤ sealedForm.length) :
    ∃ (nonce : Nonce) (ciphertext tag : Bytes), tag.length = tagSize ∧
      sealedForm = nonce.bytes ++ ciphertext ++ tag := by
  refine ⟨⟨sealedForm.take nonceSize, List.length_take_of_le (by omega)⟩,
    (sealedForm.drop nonceSize).take (sealedForm.length - nonceSize - tagSize),
    (sealedForm.drop nonceSize).drop (sealedForm.length - nonceSize - tagSize), ?_, ?_⟩
  · rw [List.length_drop, List.length_drop]
    omega
  · rw [List.append_assoc, List.take_append_drop, List.take_append_drop]

theorem length_sealPayload (key : Key) (nonce : Nonce) (id : UInt64) (content : Bytes) :
    (sealPayload key nonce id content).length = content.length + (nonceSize + tagSize) := by
  have hnonce := nonce.length_eq
  simp only [sealPayload, encrypt, List.length_append, ChaCha20.length_crypt, length_tagOf]
  omega

/-- A payload that was sealed in one message opens in another just if the tags there are the same.
-/
theorem openPayload?_sealPayload_eq_some_iff {sealedIn openedIn : UInt64} {opened : Bytes} :
    openPayload? key openedIn (sealPayload key nonce sealedIn content) = some opened ↔
      opened = content ∧
        tagOf key.bytes nonce.bytes (associatedData sealedIn)
            (ChaCha20.crypt key.bytes nonce.bytes content) =
          tagOf key.bytes nonce.bytes (associatedData openedIn)
            (ChaCha20.crypt key.bytes nonce.bytes content) := by
  simp only [sealPayload, encrypt]
  rw [← List.append_assoc, openPayload?_append key nonce openedIn _ (length_tagOf _ _ _ _),
    ChaCha20.crypt_crypt]
  split
  · next hsame => simp [hsame, eq_comm]
  · next hother => simp [hother]

theorem openPayload?_sealPayload (key : Key) (nonce : Nonce) (id : UInt64) (content : Bytes) :
    openPayload? key id (sealPayload key nonce id content) = some content :=
  openPayload?_sealPayload_eq_some_iff.2 ⟨rfl, rfl⟩

theorem openPayload?_eq_some_iff :
    openPayload? key id sealedForm = some content ↔
      ∃ nonce, sealedForm = sealPayload key nonce id content := by
  constructor
  · intro h
    have hlong : nonceSize + tagSize ≤ sealedForm.length := by
      by_contra hshort
      rw [openPayload?_of_length_lt (not_le.1 hshort)] at h
      cases h
    obtain ⟨nonce, ciphertext, tag, htag, rfl⟩ := exists_parts hlong
    rw [openPayload?_append key nonce id ciphertext htag] at h
    split at h
    · next hright =>
      cases h
      refine ⟨nonce, ?_⟩
      simp only [sealPayload, encrypt, ChaCha20.crypt_crypt, ← hright, List.append_assoc]
    · cases h
  · rintro ⟨nonce, rfl⟩
    exact openPayload?_sealPayload key nonce id content

theorem length_of_openPayload? (h : openPayload? key id sealedForm = some content) :
    sealedForm.length = content.length + (nonceSize + tagSize) := by
  obtain ⟨nonce, rfl⟩ := openPayload?_eq_some_iff.1 h
  exact length_sealPayload key nonce id content

end Cipher

end Courier
