import Courier.Proofs.Precedence
/-!
# What a sealing layer opens

A sealing layer opens what the layers below it hand up, under the id that stands in the frame
(`Stack.decode_sealing`), and accepts exactly what sealing can have made
(`Stack.opens_exactly_sealed`).
-/

namespace Courier

namespace Traced

theorem andThen_assoc {α β γ : Type} (t : Traced (Except WireError α))
    (f : α → Traced (Except WireError β)) (g : β → Traced (Except WireError γ)) :
    (t.andThen f).andThen g = t.andThen fun a => (f a).andThen g := by
  obtain ⟨result, log⟩ := t
  cases result with
  | error e => rfl
  | ok a =>
    cases hresult : (f a).result with
    | error e => simp [andThen, hresult]
    | ok b => simp [andThen, hresult]

end Traced

namespace Cipher

theorem eq_sealPayload_iff {key : Key} {id : UInt64} {sealedForm content : Bytes} :
    (∃ nonce, sealedForm = sealPayload key nonce id content) ↔
      nonceSize + tagSize ≤ sealedForm.length ∧
        sealedForm = sealedForm.take nonceSize ++
          encrypt key.bytes (sealedForm.take nonceSize) (associatedData id) content := by
  constructor
  · rintro ⟨nonce, rfl⟩
    constructor
    · rw [length_sealPayload]
      exact Nat.le_add_left _ _
    · rw [sealPayload, List.take_left' nonce.length_eq]
  · rintro ⟨hlong, hsealed⟩
    have hnonce : (sealedForm.take nonceSize).length = nonceSize :=
      List.length_take_of_le (by omega)
    exact ⟨⟨_, hnonce⟩, hsealed⟩

/-- Under a nonce every ciphertext has one tag with which it opens. -/
theorem existsUnique_tag (key : Key) (nonce : Nonce) (id : UInt64) (ciphertext : Bytes) :
    ∃! tag : Bytes, tag.length = tagSize ∧
      (openPayload? key id (nonce.bytes ++ ciphertext ++ tag)).isSome := by
  refine ⟨tagOf key.bytes nonce.bytes (associatedData id) ciphertext, ⟨length_tagOf _ _ _ _, ?_⟩,
    ?_⟩
  · rw [openPayload?_append key nonce id ciphertext (length_tagOf _ _ _ _), if_pos rfl]
    rfl
  · rintro tag ⟨htag, hopens⟩
    rw [openPayload?_append key nonce id ciphertext htag] at hopens
    by_contra hother
    rw [if_neg hother] at hopens
    cases hopens

end Cipher

namespace Stack

def sealing (key : Cipher.Key) (t : Stack) : Stack :=
  { t with layers := t.layers ++ [.encrypt key] }

theorem unwrapAll_append (below above : List Layer) (m : Message) :
    unwrapAll (below ++ above) m = (unwrapAll below m).andThen (unwrapAll above) := by
  induction below generalizing m with
  | nil =>
    simp [unwrapAll, Traced.andThen]
  | cons layer below ih =>
    rw [List.cons_append, unwrapAll, unwrapAll, Traced.andThen_assoc]
    congr 1
    funext handed
    exact ih handed

theorem decode_sealing (key : Cipher.Key) (t : Stack) (source : Source) :
    (t.sealing key).decode source =
      ((t.decode source).1.andThen (Layer.encrypt key).unwrap, (t.decode source).2) := by
  have hlast : unwrapAll [.encrypt key] = (Layer.encrypt key).unwrap := by
    funext m
    exact Traced.andThen_eq_self fun _ _ => rfl
  have hlayers : unwrapAll (t.layers ++ [.encrypt key]) = fun m =>
      (unwrapAll t.layers m).andThen (Layer.encrypt key).unwrap := by
    funext m
    rw [unwrapAll_append, hlast]
  unfold decode finish sealing
  simp only [hlayers, Traced.andThen_assoc]

theorem id_of_unwrapAll {layers : List Layer} {m up : Message}
    (h : (unwrapAll layers m).result = .ok up) : up.id = m.id := by
  rcases unwrapAll_eq_ok h with rfl | ⟨_, -, rfl⟩
  · rfl
  · rfl

open Cipher in
/-- Exactly what sealing makes of a content opens to it.  So sealing adds a nonce and a tag and
can be undone, every nonce and ciphertext have one tag with which they open, nothing shorter than
a nonce and a tag opens, and in another message a payload opens just if the tag there is the same.
A stack with a sealing layer on top opens what the stack below decodes, under the id in the frame.
-/
theorem opens_exactly_sealed (key : Key) :
    (∀ id sealedForm content, openPayload? key id sealedForm = some content ↔
      28 ≤ sealedForm.length ∧ sealedForm = sealedForm.take 12 ++
        encrypt key.bytes (sealedForm.take 12) (Bytes.bigEndian 8 id.toNat) content) ∧
    (∀ nonce id content, (sealPayload key nonce id content).length = content.length + 28 ∧
      openPayload? key id (sealPayload key nonce id content) = some content) ∧
    (∀ (nonce : Nonce) id ciphertext, ∃! tag : Bytes, tag.length = 16 ∧
      (openPayload? key id (nonce.bytes ++ ciphertext ++ tag)).isSome) ∧
    (∀ id (sealedForm : Bytes), sealedForm.length < 28 → openPayload? key id sealedForm = none) ∧
    (∀ nonce sealedIn openedIn content opened,
      openPayload? key openedIn (sealPayload key nonce sealedIn content) = some opened ↔
        opened = content ∧
          tagOf key.bytes nonce.bytes (Bytes.bigEndian 8 sealedIn.toNat)
              (ChaCha20.crypt key.bytes nonce.bytes content) =
            tagOf key.bytes nonce.bytes (Bytes.bigEndian 8 openedIn.toNat)
              (ChaCha20.crypt key.bytes nonce.bytes content)) ∧
    ∀ (t : Stack) (source : Source),
      (∀ e, (t.decode source).1.result = .error e →
        ((t.sealing key).decode source).1.result = .error e) ∧
      ∀ m, (t.decode source).1.result = .ok m →
        ∃ front frame, source.pending = front ++ (t.decode source).2.pending ∧
          t.framing.frameLayout.Form front frame ∧ m.id = frame.header.messageId ∧
          ((t.sealing key).decode source).1.result =
            match openPayload? key frame.header.messageId m.payload with
            | none => .error .decryption
            | some content => .ok (Layer.withPayload m content) := by
  refine ⟨?_, ?_, ?_, ?_, ?_, ?_⟩
  · intro id sealedForm content
    rw [openPayload?_eq_some_iff, eq_sealPayload_iff]
    rfl
  · intro nonce id content
    exact ⟨length_sealPayload key nonce id content, openPayload?_sealPayload key nonce id content⟩
  · intro nonce id ciphertext
    exact existsUnique_tag key nonce id ciphertext
  · intro id sealedForm hshort
    exact openPayload?_of_length_lt hshort
  · intro nonce sealedIn openedIn content opened
    exact openPayload?_sealPayload_eq_some_iff
  · intro t source
    rw [decode_sealing]
    constructor
    · intro e he
      simp only [Traced.andThen, he]
    · intro m hm
      obtain ⟨front, frame, framed, hsplit, hframe, hmessage, hlayers⟩ := frame_of_decode hm
      have hsized := isSized_of_unwrapAll (isSized_of_toMessage hframe hmessage) hlayers
      obtain ⟨_, _, -, -, rfl⟩ := Frame.toMessage_eq_ok_iff.1 hmessage
      have hid : m.id = frame.header.messageId := id_of_unwrapAll hlayers
      refine ⟨front, frame, hsplit, hframe, hid, ?_⟩
      rw [← hid]
      simp only [Traced.andThen, hm]
      cases hopened : openPayload? key m.id m.payload with
      | none => rw [Layer.unwrap_encrypt_of_sealed hopened]
      | some content => rw [Layer.unwrap_encrypt_of_open hsized hopened]

def unsealed : Source where
  pending := [0x3F, 0x3F, 1, 1, 0, 2, 7, 0, 3, 1, 2, 3]

theorem opens_exactly_sealed_unsealed :
    (((Stack.mk .compact .builtin []).sealing sampleKey).decode unsealed).1.result =
        .error .decryption ∧
      ∃ e, ((Stack.mk .compact .builtin []).decode { pending := [0x3F] }).1.result = .error e ∧
        (((Stack.mk .compact .builtin []).sealing sampleKey).decode
          { pending := [0x3F] }).1.result = .error e := by
  obtain ⟨-, -, -, hshort, -, hdecode⟩ := opens_exactly_sealed sampleKey
  constructor
  · have hread : ((Stack.mk .compact .builtin []).decode unsealed).1.result.map Message.payload =
        .ok [1, 2, 3] := by decide +kernel
    cases hm : ((Stack.mk .compact .builtin []).decode unsealed).1.result with
    | error e =>
      rw [hm] at hread
      cases hread
    | ok m =>
      rw [hm] at hread
      have hpayload : m.payload = [1, 2, 3] := Except.ok.inj hread
      obtain ⟨front, frame, -, -, -, hresult⟩ := (hdecode _ unsealed).2 m hm
      rw [hresult, hpayload, hshort _ _ (by decide)]
  · exact ⟨_, rfl, (hdecode _ _).1 _ rfl⟩

end Stack

end Courier
