import Courier.Stack
import Courier.Proofs.Members
import Courier.Proofs.Sealing
/-!
# Layers that face each other

The layers of two ends agree if they are of the same kinds in the same order, under the same keys.
What the layers of one end make of a message the layers of the other end bring back just if the
compressing ones are not handed more than the limits over there (`Stack.unwrapAll_wrapAll_iff`).
-/

namespace Courier

/-! ## One layer -/

namespace Layer

/-- Layers of one kind, and under one key if they seal. -/
inductive Agrees : Layer → Layer → Prop
  | compress (level level' : Nat) (limit limit' : UInt32) :
      Agrees (.compress level limit) (.compress level' limit')
  | encrypt (key : Cipher.Key) : Agrees (.encrypt key) (.encrypt key)

def isCompressing : Layer → Bool
  | compress _ _ => true
  | encrypt _ => false

/-- What is compressed at the other end fits the limit of the layer. -/
def Accepts (receiver : Layer) (handed : Message) : Prop :=
  match receiver with
  | compress _ limit =>
    handed.header.compression.normalized = .gzip → handed.payload.length ≤ limit.toNat
  | encrypt _ => True

variable {layer receiver : Layer} {nonce : Cipher.Nonce} {m inner r read : Message}

theorem wrap_eq_ok (hwrap : (layer.wrap nonce m).result = .ok inner) :
    inner.header = m.header ∧ inner.metadata = m.metadata := by
  cases layer with
  | compress level limit =>
    simp only [wrap] at hwrap
    split at hwrap
    · cases hwrap
      exact ⟨rfl, rfl⟩
    · cases hwrap
      exact ⟨rfl, rfl⟩
    · cases hwrap
  | encrypt key =>
    cases hwrap
    exact ⟨rfl, rfl⟩

theorem wrap_eq_error {e : WireError} (hwrap : (layer.wrap nonce m).result = .error e) :
    ∃ code, e = .unsupportedCompression code := by
  cases layer with
  | compress level limit =>
    simp only [wrap] at hwrap
    split at hwrap
    · cases hwrap
    · cases hwrap
    next code _ =>
      cases hwrap
      exact ⟨code, rfl⟩
  | encrypt key => cases hwrap

theorem normalized_of_code_other {compression : Compression} (hplain : compression.code ≠ 0)
    (hgzip : compression.code ≠ 1) : compression.normalized = .other compression.code := by
  rw [Compression.normalized, Compression.ofCode, if_neg hplain, if_neg hgzip]

theorem exists_wrap_eq_ok (nonce : Cipher.Nonce)
    (hm : layer.isCompressing = true →
      m.header.compression.code = 0 ∨ m.header.compression.code = 1) :
    ∃ inner, (layer.wrap nonce m).result = .ok inner := by
  cases layer with
  | compress level limit =>
    simp only [wrap, Compression.normalized]
    rcases hm rfl with hcode | hcode
    · rw [hcode]
      exact ⟨_, rfl⟩
    · rw [hcode]
      exact ⟨_, rfl⟩
  | encrypt key => exact ⟨_, rfl⟩

@[simp] theorem payload_withPayload (m : Message) (payload : Bytes) :
    (withPayload m payload).payload = payload := rfl

@[simp] theorem withPayload_withPayload (m : Message) (payload payload' : Bytes) :
    withPayload (withPayload m payload) payload' = withPayload m payload' := rfl

theorem unwrap_wrap_iff (hagrees : layer.Agrees receiver)
    (hwrap : (layer.wrap nonce m).result = .ok inner)
    (hcompression : r.header.compression.normalized = m.header.compression.normalized)
    (hid : r.id = m.id) (hsize : inner.payload.length < UInt32.size) :
    (receiver.unwrap (withPayload r inner.payload)).result = .ok read ↔
      read = withPayload r m.payload ∧ receiver.Accepts m := by
  cases hagrees with
  | compress level level' limit limit' =>
    have hsame : (withPayload r inner.payload).header.compression.normalized =
        m.header.compression.normalized := hcompression
    simp only [wrap] at hwrap
    simp only [unwrap, decompressed, hsame, Accepts]
    cases hkind : m.header.compression.normalized with
    | none =>
      rw [hkind] at hwrap
      cases hwrap
      simp [eq_comm]
    | gzip =>
      rw [hkind] at hwrap
      cases hwrap
      simp only [payload_withPayload, true_implies]
      by_cases hlimit : m.payload.length ≤ limit'.toNat
      · simp [Gzip.decompress_compress, hlimit, eq_comm]
      · simp [Gzip.decompress_compress, hlimit]
    | other code =>
      rw [hkind] at hwrap
      cases hwrap
  | encrypt key =>
    cases hwrap
    have hid' (payload : Bytes) : (withPayload r payload).id = m.id := hid
    have hfits : m.payload.length < UInt32.size := by
      rw [Cipher.length_sealPayload] at hsize
      omega
    simp only [unwrap, hid', payload_withPayload, Cipher.openPayload?_sealPayload, sizeField, hfits,
      if_true, withPayload_withPayload, Except.ok.injEq, Accepts, and_true]
    exact eq_comm

theorem length_lt_of_accepts (hagrees : layer.Agrees receiver)
    (hwrap : (layer.wrap nonce m).result = .ok inner) (hsize : inner.payload.length < UInt32.size)
    (haccepts : receiver.Accepts m) : m.payload.length < UInt32.size := by
  cases hagrees with
  | compress level level' limit limit' =>
    simp only [wrap] at hwrap
    split at hwrap
    · cases hwrap
      exact hsize
    · next hkind => exact (haccepts hkind).trans_lt limit'.toNat_lt
    · cases hwrap
  | encrypt key =>
    cases hwrap
    rw [Cipher.length_sealPayload] at hsize
    omega

end Layer

/-! ## All layers -/

namespace Traced

variable {α β : Type}

theorem andThen_eq_ok_iff {t : Traced (Except WireError α)}
    {f : α → Traced (Except WireError β)} {b : β} :
    (t.andThen f).result = .ok b ↔ ∃ a, t.result = .ok a ∧ (f a).result = .ok b := by
  unfold andThen
  cases t.result with
  | error e => simp
  | ok a => simp

theorem andThen_eq_error_iff {t : Traced (Except WireError α)}
    {f : α → Traced (Except WireError β)} {e : WireError} :
    (t.andThen f).result = .error e ↔
      t.result = .error e ∨ ∃ a, t.result = .ok a ∧ (f a).result = .error e := by
  unfold andThen
  cases t.result with
  | error e => simp
  | ok a => simp

end Traced

namespace Stack

open Layer

variable {nonces : Nonces} {seals : Nat} {layers receivers : List Layer} {m inner r read : Message}

/-- Every layer of the receiving end accepts what the layer that faces it is handed. -/
def WithinLimits (nonces : Nonces) :
    (seals : Nat) → (senders receivers : List Layer) → Message → Prop
  | seals, sender :: outer, receiver :: outer', m =>
    let seals' := if sender.isSealing then seals + 1 else seals
    (∀ handed, (wrapAll nonces seals' outer m).result = .ok handed → receiver.Accepts handed) ∧
      WithinLimits nonces seals' outer outer' m
  | _, _, _, _ => True

theorem wrapAll_eq_ok (hwrap : (wrapAll nonces seals layers m).result = .ok inner) :
    inner.header = m.header ∧ inner.metadata = m.metadata := by
  induction layers generalizing seals inner with
  | nil =>
    cases hwrap
    exact ⟨rfl, rfl⟩
  | cons layer outer ih =>
    obtain ⟨handed, houter, hlayer⟩ := Traced.andThen_eq_ok_iff.1 hwrap
    obtain ⟨hheader, hmetadata⟩ := wrap_eq_ok hlayer
    obtain ⟨hheader', hmetadata'⟩ := ih houter
    exact ⟨hheader.trans hheader', hmetadata.trans hmetadata'⟩

theorem wrapAll_eq_error {e : WireError}
    (hwrap : (wrapAll nonces seals layers m).result = .error e) :
    ∃ code, e = .unsupportedCompression code := by
  induction layers generalizing seals with
  | nil => cases hwrap
  | cons layer outer ih =>
    rcases Traced.andThen_eq_error_iff.1 hwrap with houter | ⟨handed, -, hlayer⟩
    · exact ih houter
    · exact wrap_eq_error hlayer

theorem exists_wrapAll_eq_ok (nonces : Nonces) (seals : Nat)
    (hm : layers.any isCompressing = true →
      m.header.compression.code = 0 ∨ m.header.compression.code = 1) :
    ∃ inner, (wrapAll nonces seals layers m).result = .ok inner := by
  induction layers generalizing seals with
  | nil => exact ⟨m, rfl⟩
  | cons layer outer ih =>
    have houter : outer.any isCompressing = true →
        m.header.compression.code = 0 ∨ m.header.compression.code = 1 :=
      fun h => hm (by simp [h])
    obtain ⟨handed, hhanded⟩ := ih (if layer.isSealing then seals + 1 else seals) houter
    have hlayer : layer.isCompressing = true →
        handed.header.compression.code = 0 ∨ handed.header.compression.code = 1 := by
      rw [(wrapAll_eq_ok hhanded).1]
      exact fun h => hm (by simp [h])
    obtain ⟨inner, hinner⟩ := exists_wrap_eq_ok (nonces seals) hlayer
    exact ⟨inner, Traced.andThen_eq_ok_iff.2 ⟨handed, hhanded, hinner⟩⟩

theorem wrapAll_of_code_other (hany : layers.any isCompressing = true)
    (hplain : m.header.compression.code ≠ 0) (hgzip : m.header.compression.code ≠ 1) :
    (wrapAll nonces seals layers m).result =
      .error (.unsupportedCompression m.header.compression.code) := by
  induction layers generalizing seals with
  | nil => cases hany
  | cons layer outer ih =>
    refine Traced.andThen_eq_error_iff.2 ?_
    by_cases houter : outer.any isCompressing = true
    · exact Or.inl (ih houter)
    · obtain ⟨handed, hhanded⟩ := exists_wrapAll_eq_ok (m := m) nonces
        (if layer.isSealing then seals + 1 else seals) fun h => absurd h houter
      have hheader := (wrapAll_eq_ok hhanded).1
      refine Or.inr ⟨handed, hhanded, ?_⟩
      cases layer with
      | compress level limit =>
        rw [← hheader] at hplain hgzip ⊢
        simp only [wrap, normalized_of_code_other hplain hgzip]
      | encrypt key => exact absurd hany houter

theorem length_lt_of_withinLimits (hagree : List.Forall₂ Agrees layers receivers)
    (hwrap : (wrapAll nonces seals layers m).result = .ok inner)
    (hsize : inner.payload.length < UInt32.size)
    (hlimits : WithinLimits nonces seals layers receivers m) :
    m.payload.length < UInt32.size := by
  induction hagree generalizing seals inner with
  | nil =>
    cases hwrap
    exact hsize
  | cons hlayer _ ih =>
    obtain ⟨handed, houter, hwrap⟩ := Traced.andThen_eq_ok_iff.1 hwrap
    exact ih houter (length_lt_of_accepts hlayer hwrap hsize (hlimits.1 handed houter)) hlimits.2

/-- Agreeing layers bring a message back just if it keeps within their limits.  What is brought
back is the framed message with the payload that was sent. -/
theorem unwrapAll_wrapAll_iff (hagree : List.Forall₂ Agrees layers receivers)
    (hwrap : (wrapAll nonces seals layers m).result = .ok inner)
    (hcompression : r.header.compression.normalized = m.header.compression.normalized)
    (hid : r.id = m.id) (hsize : inner.payload.length < UInt32.size) :
    (unwrapAll receivers (withPayload r inner.payload)).result = .ok read ↔
      read = withPayload r m.payload ∧ WithinLimits nonces seals layers receivers m := by
  induction hagree generalizing seals inner read with
  | nil =>
    cases hwrap
    simp [unwrapAll, WithinLimits, eq_comm]
  | @cons layer receiver outer outer' hlayer _ ih =>
    obtain ⟨handed, houter, hwrap⟩ := Traced.andThen_eq_ok_iff.1 hwrap
    obtain ⟨hheader, -⟩ := wrapAll_eq_ok houter
    have hcompression' :
        r.header.compression.normalized = handed.header.compression.normalized := by
      rw [hheader]
      exact hcompression
    have hid' : r.id = handed.id := by
      rw [hid, Message.id, Message.id, hheader]
    have hstep {up : Message} : (receiver.unwrap (withPayload r inner.payload)).result = .ok up ↔
        up = withPayload r handed.payload ∧ receiver.Accepts handed :=
      unwrap_wrap_iff hlayer hwrap hcompression' hid' hsize
    simp only [unwrapAll, Traced.andThen_eq_ok_iff]
    constructor
    · rintro ⟨up, hup, hread⟩
      obtain ⟨rfl, haccepts⟩ := hstep.1 hup
      have hsize' := length_lt_of_accepts hlayer hwrap hsize haccepts
      obtain ⟨rfl, hlimits⟩ := (ih houter hsize').1 hread
      refine ⟨rfl, ?_, hlimits⟩
      intro handed' hhanded'
      rw [houter] at hhanded'
      cases hhanded'
      exact haccepts
    · rintro ⟨rfl, haccepts, hlimits⟩
      have haccepts := haccepts handed houter
      have hsize' := length_lt_of_accepts hlayer hwrap hsize haccepts
      exact ⟨_, hstep.2 ⟨rfl, haccepts⟩, (ih houter hsize').2 ⟨rfl, hlimits⟩⟩

end Stack

end Courier
