import Courier.Proofs.BitReaders
/-!
# What compressed data stand for

Data expand token by token and block by block, whatever limit a decompression has (`Expands`), and
`Deflated data content` says that some data are just as much as the content takes.  A copy may
reach back behind the first byte, where there are zeros.

A decompression follows the expansion.  Within the limit it gives all of it; past the limit it may
see a front of the stream alone, and then it stops without finding anything wrong
(`inflate_of_deflated`).  What it gives is always an expansion of a front of the input
(`exists_deflated_of_inflate`).
-/

namespace Courier.Deflate

/-! ## The output -/

theorem size_copyBack (output : Array UInt8) (distance length : Nat) :
    (copyBack output distance length).size = output.size + length := by
  induction length generalizing output with
  | zero => rfl
  | succ length ih =>
    rw [copyBack, ih, Array.size_push]
    omega

theorem Token.size_apply (t : Token) (output : Array UInt8) :
    (t.apply output).size = output.size + t.length := by
  cases t with
  | literal b => exact Array.size_push b
  | copy length distance => exact size_copyBack output distance length

theorem Token.size_le_apply (t : Token) (output : Array UInt8) :
    output.size ≤ (t.apply output).size := by
  rw [t.size_apply]
  exact Nat.le_add_right _ _

/-! ## Trees that take a bit -/

def Tree.Forks : Tree → Prop
  | fork _ _ => True
  | _ => False

theorem Tree.forks_insert (symbol : Nat) (b : Bool) (word : List Bool) (tree : Tree) :
    (tree.insert symbol (b :: word)).Forks := by
  cases tree <;> cases b <;> trivial

theorem ne_nil_of_mem_assignWords {start : Nat} {used : List (Nat × Nat)}
    (hused : ∀ e ∈ used, e.1 ≠ 0) : ∀ w ∈ assignWords start used, w.2 ≠ [] := by
  induction used generalizing start with
  | nil => simp [assignWords]
  | cons e used ih =>
    obtain ⟨length, symbol⟩ := e
    intro w hw
    rcases List.mem_cons.1 hw with rfl | hw
    · obtain ⟨n, rfl⟩ := Nat.exists_eq_succ_of_ne_zero (hused (length, symbol) List.mem_cons_self)
      simp [wordBits, lowBits]
    · exact ih (fun e he => hused e (List.mem_cons_of_mem _ he)) w hw

theorem ne_nil_of_mem_words (lengths : List Nat) : ∀ w ∈ words lengths, w.2 ≠ [] := by
  apply ne_nil_of_mem_assignWords
  intro e he
  simpa using (List.mem_filter.1 (List.mem_mergeSort.1 he)).2

theorem Tree.forks_ofLengths (lengths : List Nat) : (ofLengths lengths).Forks := by
  have hwords := ne_nil_of_mem_words lengths
  unfold ofLengths
  generalize words lengths = inserted at hwords
  have htree : (fork unassigned unassigned).Forks := trivial
  generalize fork unassigned unassigned = tree at htree
  induction inserted generalizing tree with
  | nil => exact htree
  | cons w inserted ih =>
    obtain ⟨b, word, hword⟩ := List.exists_cons_of_ne_nil (hwords w List.mem_cons_self)
    apply ih fun w hw => hwords w (List.mem_cons_of_mem _ hw)
    change (tree.insert w.1 w.2).Forks
    rw [hword]
    exact forks_insert w.1 b word tree

theorem size_lt_of_decodeSymbol {tree : Tree} (htree : tree.Forks) {s s' : BitSource} {symbol : Nat}
    (h : decodeSymbol tree s = .ok (symbol, s')) : s'.size < s.size := by
  cases tree with
  | unassigned => exact htree.elim
  | leaf symbol => exact htree.elim
  | fork zero one =>
    rw [decodeSymbol_fork] at h
    obtain ⟨⟨b, s₁⟩, hbit, h⟩ := bind_eq_ok_iff.1 h
    have hsize := size_of_readBit hbit
    have hle : s'.size ≤ s₁.size := (decodeSymbol_isReader _).size_le h
    omega

theorem size_lt_of_readStep {literals distances : Tree} (hliterals : literals.Forks) {s : BitSource}
    {step : Step} (h : readStep literals distances s = .ok step) :
    (Leaves.left step).size < s.size := by
  rw [readStep_eq] at h
  obtain ⟨⟨symbol, s₁⟩, hsymbol, h⟩ := bind_eq_ok_iff.1 h
  have hsize := size_lt_of_decodeSymbol hliterals hsymbol
  dsimp only at h
  split at h
  · cases h
    exact hsize
  · split at h
    · cases h
      exact hsize
    · exact ((readCopy_isReader distances symbol).size_le h).trans_lt hsize

theorem Tree.forks_of_readTrees {s s' : BitSource} {literals distances : Tree}
    (h : readTrees s = .ok (literals, distances, s')) : literals.Forks := by
  obtain ⟨⟨literalCount, s₁⟩, -, h⟩ := bind_eq_ok_iff.1 h
  obtain ⟨⟨distanceCount, s₂⟩, -, h⟩ := bind_eq_ok_iff.1 h
  obtain ⟨⟨orderCount, s₃⟩, -, h⟩ := bind_eq_ok_iff.1 h
  dsimp only at h
  split at h
  · cases h
  obtain ⟨⟨triples, s₄⟩, -, h⟩ := bind_eq_ok_iff.1 h
  dsimp only at h
  split at h
  · cases h
  obtain ⟨⟨lengths, s₅⟩, -, h⟩ := bind_eq_ok_iff.1 h
  dsimp only at h
  split at h
  · cases h
  · cases h
    exact forks_ofLengths _

theorem held_of_readStoredLength {s s' : BitSource} {length : Nat}
    (h : readStoredLength s = .ok (length, s')) : s'.held = [] := by
  rw [readStoredLength_eq] at h
  obtain ⟨⟨front, s₁⟩, hfront, h⟩ := bind_eq_ok_iff.1 h
  have hwhole : s₁.held = [] := by
    by_cases hcount : 4 ≤ s.bytes.length
    · rw [readWhole_of_le hcount] at hfront
      cases hfront
      rfl
    · rw [readWhole_of_lt (not_le.1 hcount)] at hfront
      cases hfront
  dsimp only at h
  split at h
  · cases h
  · cases h
    exact hwhole

def Content.Starts : Content → BitSource → Prop
  | .stored _, s => s.held = []
  | .coded literals _, _ => literals.Forks

theorem readHead_cases {s s' : BitSource} {last : Bool} {content : Content}
    (h : readHead s = .ok (last, content, s')) : s'.size < s.size ∧ content.Starts s' := by
  obtain ⟨⟨mark, s₁⟩, hmark, h⟩ := bind_eq_ok_iff.1 h
  obtain ⟨⟨kind, s₂⟩, hkind, h⟩ := bind_eq_ok_iff.1 h
  have hlt := size_lt_of_readNumber hmark
  have hle : s₂.size ≤ s₁.size := (readNumber_isReader 2).size_le hkind
  dsimp only at h
  split at h
  · obtain ⟨⟨length, s₃⟩, hlength, h⟩ := bind_eq_ok_iff.1 h
    have hle' : s₃.size ≤ s₂.size := readStoredLength_isReader.size_le hlength
    cases h
    exact ⟨hle'.trans_lt (by omega), held_of_readStoredLength hlength⟩
  split at h
  · cases h
    exact ⟨by omega, Tree.forks_ofLengths _⟩
  split at h
  · obtain ⟨⟨literals, distances, s₃⟩, htrees, h⟩ := bind_eq_ok_iff.1 h
    have hle' : s₃.size ≤ s₂.size := readTrees_isReader.size_le htrees
    cases h
    exact ⟨hle'.trans_lt (by omega), Tree.forks_of_readTrees htrees⟩
  · cases h

/-! ## Expansion -/

/-- The tokens at the front of a stream, up to the end of their block, take an output to another
one. -/
inductive TokensExpand (literals distances : Tree) :
    BitSource → Array UInt8 → BitSource → Array UInt8 → Prop
  | blockEnd {s s' : BitSource} {output : Array UInt8}
      (hstep : readStep literals distances s = .ok (.blockEnd s')) :
      TokensExpand literals distances s output s' output
  | token {s s₁ s' : BitSource} {output output' : Array UInt8} {t : Token}
      (hstep : readStep literals distances s = .ok (.token t s₁))
      (hrest : TokensExpand literals distances s₁ (t.apply output) s' output') :
      TokensExpand literals distances s output s' output'

inductive ContentExpands :
    Content → BitSource → Array UInt8 → BitSource → Array UInt8 → Prop
  | stored (content rest : Bytes) (output : Array UInt8) :
      ContentExpands (.stored content.length) (.ofBytes (content ++ rest)) output (.ofBytes rest)
        (output ++ content.toArray)
  | coded {literals distances : Tree} {s s' : BitSource} {output output' : Array UInt8}
      (htokens : TokensExpand literals distances s output s' output') :
      ContentExpands (.coded literals distances) s output s' output'

inductive Expands : BitSource → Array UInt8 → BitSource → Array UInt8 → Prop
  | last {s s₁ s' : BitSource} {content : Content} {output output' : Array UInt8}
      (hhead : readHead s = .ok (true, content, s₁))
      (hcontent : ContentExpands content s₁ output s' output') : Expands s output s' output'
  | more {s s₁ s₂ s' : BitSource} {content : Content} {output output₂ output' : Array UInt8}
      (hhead : readHead s = .ok (false, content, s₁))
      (hcontent : ContentExpands content s₁ output s₂ output₂)
      (hrest : Expands s₂ output₂ s' output') : Expands s output s' output'

/-- Compressed data, to the last byte, and the content that they stand for. -/
def Deflated (data content : Bytes) : Prop :=
  ∃ s, Expands (.ofBytes data) #[] s content.toArray ∧ s.bytes = []

section

variable {literals distances : Tree} {content : Content} {s s' : BitSource}
  {output output' : Array UInt8}

/-! ### Sizes -/

theorem TokensExpand.sizes (h : TokensExpand literals distances s output s' output') :
    output.size ≤ output'.size ∧ s'.size ≤ s.size := by
  induction h with
  | blockEnd hstep => exact ⟨Nat.le_refl _, (readStep_isReader _ _).size_le hstep⟩
  | @token s s₁ _ output _ t hstep _ ih =>
    have hsize : s₁.size ≤ s.size := (readStep_isReader _ _).size_le hstep
    exact ⟨(t.size_le_apply output).trans ih.1, ih.2.trans hsize⟩

theorem ContentExpands.sizes (h : ContentExpands content s output s' output') :
    output.size ≤ output'.size ∧ s'.size ≤ s.size := by
  cases h with
  | stored content rest =>
    simp only [Array.size_append, BitSource.size_ofBytes, List.length_append]
    omega
  | coded htokens => exact htokens.sizes

theorem Expands.sizes (h : Expands s output s' output') :
    output.size ≤ output'.size ∧ s'.size ≤ s.size := by
  induction h with
  | last hhead hcontent =>
    have hsize := (readHead_cases hhead).1
    have hcontent := hcontent.sizes
    omega
  | more hhead hcontent _ ih =>
    have hsize := (readHead_cases hhead).1
    have hcontent := hcontent.sizes
    omega

/-! ### Bytes behind -/

theorem TokensExpand.followedBy (h : TokensExpand literals distances s output s' output')
    (more : Bytes) :
    TokensExpand literals distances (s.followedBy more) output (s'.followedBy more) output' := by
  induction h with
  | blockEnd hstep => exact .blockEnd ((readStep_isReader _ _).ok hstep more)
  | token hstep _ ih => exact .token ((readStep_isReader _ _).ok hstep more) ih

theorem ContentExpands.followedBy (h : ContentExpands content s output s' output') (more : Bytes) :
    ContentExpands content (s.followedBy more) output (s'.followedBy more) output' := by
  cases h with
  | stored content rest =>
    have hstored := ContentExpands.stored content (rest ++ more) output
    rwa [← List.append_assoc] at hstored
  | coded htokens => exact .coded (htokens.followedBy more)

theorem Expands.followedBy (h : Expands s output s' output') (more : Bytes) :
    Expands (s.followedBy more) output (s'.followedBy more) output' := by
  induction h with
  | last hhead hcontent =>
    exact .last (readHead_isReader.ok hhead more) (hcontent.followedBy more)
  | more hhead hcontent _ ih =>
    exact .more (readHead_isReader.ok hhead more) (hcontent.followedBy more) ih

theorem TokensExpand.of_followedBy {more : Bytes}
    (h : TokensExpand literals distances (s.followedBy more) output s' output')
    (hleft : 8 * more.length ≤ s'.size) :
    ∃ t, s' = t.followedBy more ∧ TokensExpand literals distances s output t output' := by
  generalize hs : s.followedBy more = all at h
  induction h generalizing s with
  | blockEnd hstep =>
    subst hs
    rcases (readStep_isReader _ _).cases_of_followedBy hstep with
      ⟨step, hstep', hsame⟩ | ⟨-, hshort⟩
    · cases step with
      | token t s₁ => cases hsame
      | blockEnd s₁ =>
        cases hsame
        exact ⟨s₁, rfl, .blockEnd hstep'⟩
    · exact absurd hleft (not_le.2 hshort)
  | token hstep hrest ih =>
    subst hs
    rcases (readStep_isReader _ _).cases_of_followedBy hstep with
      ⟨step, hstep', hsame⟩ | ⟨-, hshort⟩
    · cases step with
      | blockEnd s₁ => cases hsame
      | token t s₁ =>
        cases hsame
        obtain ⟨t, rfl, hrest'⟩ := ih hleft rfl
        exact ⟨t, rfl, .token hstep' hrest'⟩
    · exact absurd (hleft.trans hrest.sizes.2) (not_le.2 hshort)

theorem ContentExpands.of_followedBy {more : Bytes}
    (h : ContentExpands content (s.followedBy more) output s' output')
    (hleft : 8 * more.length ≤ s'.size) :
    ∃ t, s' = t.followedBy more ∧ ContentExpands content s output t output' := by
  generalize hs : s.followedBy more = all at h
  cases h with
  | stored content rest =>
    obtain ⟨held, bytes⟩ := s
    obtain rfl : held = [] := congrArg BitSource.held hs
    have hbytes : bytes ++ more = content ++ rest := congrArg BitSource.bytes hs
    rw [BitSource.size_ofBytes] at hleft
    -- The bytes behind are the end of those that are left.
    obtain ⟨left, rfl, rfl⟩ : ∃ left, bytes = content ++ left ∧ rest = left ++ more := by
      rcases List.append_eq_append_iff.1 hbytes with ⟨left, rfl, hrest⟩ | ⟨left, rfl, rfl⟩
      · have hlength := congrArg List.length hrest
        rw [List.length_append] at hlength
        obtain rfl : left = [] := List.length_eq_zero_iff.1 (by omega)
        exact ⟨[], by simp, by simpa using hrest.symm⟩
      · exact ⟨left, rfl, rfl⟩
    exact ⟨.ofBytes left, rfl, .stored content left output⟩
  | coded htokens =>
    subst hs
    obtain ⟨t, rfl, htokens'⟩ := htokens.of_followedBy hleft
    exact ⟨t, rfl, .coded htokens'⟩

theorem Expands.of_followedBy {more : Bytes} (h : Expands (s.followedBy more) output s' output')
    (hleft : 8 * more.length ≤ s'.size) :
    ∃ t, s' = t.followedBy more ∧ Expands s output t output' := by
  generalize hs : s.followedBy more = all at h
  induction h generalizing s with
  | last hhead hcontent =>
    subst hs
    rcases readHead_isReader.cases_of_followedBy hhead with
      ⟨⟨last, content, s₁⟩, hhead', hsame⟩ | ⟨-, hshort⟩
    · cases hsame
      obtain ⟨t, rfl, hcontent'⟩ := hcontent.of_followedBy hleft
      exact ⟨t, rfl, .last hhead' hcontent'⟩
    · exact absurd (hleft.trans hcontent.sizes.2) (not_le.2 hshort)
  | more hhead hcontent hrest ih =>
    subst hs
    have hleft' := hleft.trans hrest.sizes.2
    rcases readHead_isReader.cases_of_followedBy hhead with
      ⟨⟨last, content, s₁⟩, hhead', hsame⟩ | ⟨-, hshort⟩
    · cases hsame
      obtain ⟨t, rfl, hcontent'⟩ := hcontent.of_followedBy hleft'
      obtain ⟨t', rfl, hrest'⟩ := ih hleft rfl
      exact ⟨t', rfl, .more hhead' hcontent' hrest'⟩
    · exact absurd (hleft'.trans hcontent.sizes.2) (not_le.2 hshort)

end

/-! ## Decompression -/

namespace Allowance

theorem emit_of_le {a : Allowance} {t : Token} {output : Array UInt8}
    (hlimit : (t.apply output).size ≤ a.limit) (s : BitSource) :
    a.emit t s output = some (s, t.apply output) := by
  have hsize := t.size_apply output
  have hreach : a.limit < a.reach := by
    unfold reach windowSize farthestCopy
    omega
  unfold emit
  rw [if_neg (by omega)]
  exact if_neg (by omega)

theorem passed_eq_of_lt {a : Allowance} {outputSize : Nat} (hlimit : a.limit < outputSize) :
    a.passed outputSize = .overLimit (a.limit + 1) := by
  rw [passed, Nat.min_eq_left hlimit]

theorem stop_ended_of_lt {a : Allowance} {outputSize : Nat} (hlimit : a.limit < outputSize) :
    a.stop outputSize .ended = .overLimit (a.limit + 1) := by
  rw [stop, if_pos hlimit, passed_eq_of_lt hlimit]

theorem size_of_stop {a : Allowance} {outputSize size : Nat} {fault : Fault}
    (h : a.stop outputSize fault = .overLimit size) : size = a.limit + 1 := by
  cases fault with
  | corrupt => cases h
  | ended =>
    by_cases hlimit : a.limit < outputSize
    · rw [stop_ended_of_lt hlimit] at h
      cases h
      rfl
    · rw [stop, if_neg hlimit] at h
      cases h

theorem passed_of_emit_eq_none {a : Allowance} {t : Token} {s : BitSource} {output : Array UInt8}
    (h : a.emit t s output = none) :
    a.passed (t.apply output).size = .overLimit (a.limit + 1) := by
  apply passed_eq_of_lt
  by_contra hlimit
  rw [emit_of_le (not_lt.1 hlimit)] at h
  cases h

theorem held_and_apply_of_emit {a : Allowance} {t : Token} {s s' : BitSource}
    {output output' : Array UInt8} (h : a.emit t s output = some (s', output')) :
    s'.held = s.held ∧ output' = t.apply output := by
  unfold emit at h
  split at h
  · cases h
  · dsimp only at h
    split at h <;> cases h <;> exact ⟨rfl, rfl⟩

theorem eq_of_emit {a : Allowance} {t : Token} {s s' : BitSource} {output output' : Array UInt8}
    (h : a.emit t s output = some (s', output')) (hlimit : output'.size ≤ a.limit) :
    s' = s ∧ output' = t.apply output := by
  have happly := (held_and_apply_of_emit h).2
  rw [emit_of_le (happly ▸ hlimit)] at h
  cases h
  exact ⟨rfl, rfl⟩

/-- What a decompression sees of the stream: all that is left, or, behind the limit, a front of
it. -/
def Sees (a : Allowance) (s : BitSource) (output : Array UInt8) (seen : BitSource) : Prop :=
  ∃ more, s = seen.followedBy more ∧ (more = [] ∨ a.limit < output.size)

variable {a : Allowance} {s seen : BitSource} {output : Array UInt8}

theorem Sees.mono {output' : Array UInt8} (h : a.Sees s output seen)
    (hsize : output.size ≤ output'.size) : a.Sees s output' seen := by
  obtain ⟨more, hs, hmore⟩ := h
  exact ⟨more, hs, hmore.imp_right fun hlimit => hlimit.trans_le hsize⟩

theorem Sees.emit (h : a.Sees s output seen) (t : Token) :
    (∃ seen', a.emit t seen output = some (seen', t.apply output) ∧
        a.Sees s (t.apply output) seen') ∨
      a.emit t seen output = none ∧ a.limit < (t.apply output).size := by
  have hsize := t.size_apply output
  have hreach : a.limit < a.reach := by
    unfold reach windowSize farthestCopy
    omega
  unfold Allowance.emit
  split
  · exact .inr ⟨rfl, by omega⟩
  dsimp only
  split
  next hpassed =>
    obtain ⟨more, rfl, -⟩ := h
    refine .inl ⟨_, rfl, seen.bytes.drop (a.leftOfSegment seen) ++ more, ?_, .inr hpassed.1⟩
    simp [BitSource.followedBy, BitSource.cutAfter, ← List.append_assoc]
  · exact .inl ⟨_, rfl, h.mono (t.size_le_apply output)⟩

theorem Sees.read {β : Type} [Leaves β] {read : BitSource → Except Fault β} (hread : IsReader read)
    (h : a.Sees s output seen) {b : β} (hs : read s = .ok b) :
    (∃ b' more, read seen = .ok b' ∧ b = Leaves.followedBy b' more ∧
        (more = [] ∨ a.limit < output.size)) ∨
      ∃ fault, read seen = .error fault ∧ a.stop output.size fault = .overLimit (a.limit + 1) ∧
        a.limit < output.size := by
  obtain ⟨more, rfl, hmore⟩ := h
  rcases hread.cases_of_followedBy hs with ⟨b', hseen, hb⟩ | ⟨hended, hshort⟩
  · exact .inl ⟨b', more, hseen, hb, hmore⟩
  · rcases hmore with rfl | hlimit
    · exact absurd hshort (Nat.not_lt_zero _)
    · exact .inr ⟨.ended, hended, stop_ended_of_lt hlimit, hlimit⟩

/-- A result that goes on as the stream does, or stops behind the limit. -/
def Follows (a : Allowance) (result : Except Stop (BitSource × Array UInt8)) (s : BitSource)
    (output : Array UInt8) : Prop :=
  (∃ seen, result = .ok (seen, output) ∧ a.Sees s output seen) ∨
    result = .error (.overLimit (a.limit + 1)) ∧ a.limit < output.size

end Allowance

open Allowance

section

variable {a : Allowance} {literals distances : Tree} {content : Content} {s s' seen : BitSource}
  {output output' : Array UInt8}

/-! ### One step of each loop -/

theorem inflateTokens_fault {fault : Fault} (hstep : readStep literals distances s = .error fault)
    (fuel : Nat) :
    inflateTokens a literals distances (fuel + 1) s output = .error (a.stop output.size fault) := by
  rw [inflateTokens, hstep]

theorem inflateTokens_blockEnd {s₁ : BitSource}
    (hstep : readStep literals distances s = .ok (.blockEnd s₁)) (fuel : Nat) :
    inflateTokens a literals distances (fuel + 1) s output = .ok (s₁, output) := by
  rw [inflateTokens, hstep]

theorem inflateTokens_token {t : Token} {s₁ : BitSource}
    {emitted : Option (BitSource × Array UInt8)}
    (hstep : readStep literals distances s = .ok (.token t s₁))
    (hemit : a.emit t s₁ output = emitted) (fuel : Nat) :
    inflateTokens a literals distances (fuel + 1) s output =
      emitted.elim (.error (a.passed (t.apply output).size)) fun p =>
        inflateTokens a literals distances fuel p.1 p.2 := by
  rw [inflateTokens]
  simp only [hstep, hemit, t.size_apply]
  cases emitted <;> rfl

theorem copyStored_nil {held : List Bool} (length : Nat) :
    copyStored a (length + 1) ⟨held, []⟩ output = .error (a.stop output.size .ended) :=
  rfl

theorem copyStored_cons {held : List Bool} {b : UInt8} {bytes : Bytes}
    {emitted : Option (BitSource × Array UInt8)}
    (hemit : a.emit (.literal b) (.ofBytes bytes) output = emitted) (length : Nat) :
    copyStored a (length + 1) ⟨held, b :: bytes⟩ output =
      emitted.elim (.error (a.passed ((Token.literal b).apply output).size)) fun p =>
        copyStored a length p.1 p.2 := by
  rw [copyStored]
  simp only [hemit, Token.size_apply, Token.length]
  cases emitted <;> rfl

/-! ### What is expanded is followed -/

theorem TokensExpand.follows (h : TokensExpand literals distances s output s' output')
    (hliterals : literals.Forks) (hseen : a.Sees s output seen) {fuel : Nat}
    (hfuel : s.size < fuel) :
    a.Follows (inflateTokens a literals distances fuel seen output) s' output' := by
  induction h generalizing seen fuel with
  | blockEnd hstep =>
    obtain ⟨fuel, rfl⟩ : ∃ k, fuel = k + 1 := ⟨fuel - 1, by omega⟩
    rcases hseen.read (readStep_isReader _ _) hstep with
      ⟨step, more, hread, hsame, hmore⟩ | ⟨fault, hread, hstop, hlimit⟩
    · cases step with
      | token t s₁ => cases hsame
      | blockEnd s₁ =>
        cases hsame
        rw [inflateTokens_blockEnd hread]
        exact .inl ⟨s₁, rfl, more, rfl, hmore⟩
    · rw [inflateTokens_fault hread, hstop]
      exact .inr ⟨rfl, hlimit⟩
  | @token s s₁ s' output output' t hstep hrest ih =>
    obtain ⟨fuel, rfl⟩ : ∃ k, fuel = k + 1 := ⟨fuel - 1, by omega⟩
    have hless : s₁.size < s.size := size_lt_of_readStep hliterals hstep
    have happly := t.size_le_apply output
    have hsize := hrest.sizes.1
    rcases hseen.read (readStep_isReader _ _) hstep with
      ⟨step, more, hread, hsame, hmore⟩ | ⟨fault, hread, hstop, hlimit⟩
    · cases step with
      | blockEnd s₁ => cases hsame
      | token t s₂ =>
        cases hsame
        have hsees : a.Sees (s₂.followedBy more) output s₂ := ⟨more, rfl, hmore⟩
        rcases hsees.emit t with ⟨seen', hemit, hsees'⟩ | ⟨hemit, hlimit⟩
        · rw [inflateTokens_token hread hemit]
          exact ih hsees' (by omega)
        · rw [inflateTokens_token hread hemit]
          exact .inr ⟨congrArg Except.error (passed_eq_of_lt hlimit), by omega⟩
    · rw [inflateTokens_fault hread, hstop]
      exact .inr ⟨rfl, by omega⟩

theorem copyStored_follows (content rest : Bytes)
    (hseen : a.Sees (.ofBytes (content ++ rest)) output seen) :
    a.Follows (copyStored a content.length seen output) (.ofBytes rest)
      (output ++ content.toArray) := by
  induction content generalizing output seen with
  | nil =>
    rw [Array.append_empty]
    exact .inl ⟨seen, rfl, hseen⟩
  | cons b content ih =>
    have hpush : output ++ (b :: content).toArray = output.push b ++ content.toArray := by simp
    rw [hpush]
    obtain ⟨held, bytes⟩ := seen
    obtain ⟨more, hsame, hmore⟩ := hseen
    have hbytes : b :: (content ++ rest) = bytes ++ more := congrArg BitSource.bytes hsame
    rw [List.length_cons]
    rcases bytes with _ | ⟨b', bytes⟩
    · -- What is seen has ended, which it only does behind the limit.
      rw [List.nil_append] at hbytes
      have hlimit : a.limit < output.size := hmore.resolve_left (hbytes ▸ List.cons_ne_nil _ _)
      rw [copyStored_nil]
      refine .inr ⟨congrArg Except.error (stop_ended_of_lt hlimit), ?_⟩
      simp only [Array.size_append, Array.size_push]
      omega
    · obtain ⟨rfl, hbehind⟩ := List.cons.inj hbytes
      have hsees : a.Sees (.ofBytes (content ++ rest)) output (.ofBytes bytes) :=
        ⟨more, congrArg (BitSource.mk []) hbehind, hmore⟩
      rcases hsees.emit (.literal b) with ⟨seen', hemit, hsees'⟩ | ⟨hemit, hlimit⟩
      · rw [copyStored_cons hemit]
        exact ih hsees'
      · rw [copyStored_cons hemit]
        refine .inr ⟨congrArg Except.error (passed_eq_of_lt hlimit), ?_⟩
        rw [Array.size_append]
        exact hlimit.trans_le (Nat.le_add_right _ _)

theorem ContentExpands.follows (h : ContentExpands content s output s' output')
    (hstarts : content.Starts s)
    (hseen : a.Sees s output seen) {bound : Nat} (hbound : s.size < bound) :
    a.Follows (inflateContent a bound seen output content) s' output' := by
  cases h with
  | stored content rest => exact copyStored_follows content rest hseen
  | coded htokens => exact htokens.follows hstarts hseen hbound

theorem inflateBlocks_block {last : Bool} {s₁ : BitSource}
    (hhead : readHead s = .ok (last, content, s₁))
    (hcontent : ContentExpands content s₁ output s' output') (hseen : a.Sees s output seen)
    {bound : Nat} (hbound : s.size < bound) (fuel : Nat) :
    (∃ seen', a.Sees s' output' seen' ∧ inflateBlocks a bound (fuel + 1) seen output =
        if last then .ok (seen', output') else inflateBlocks a bound fuel seen' output') ∨
      inflateBlocks a bound (fuel + 1) seen output = .error (.overLimit (a.limit + 1)) ∧
        a.limit < output'.size := by
  obtain ⟨hless, hstarts⟩ := readHead_cases hhead
  rw [inflateBlocks]
  rcases hseen.read readHead_isReader hhead with
    ⟨⟨last, content, seen₁⟩, more, hread, hsame, hmore⟩ | ⟨fault, hread, hstop, hlimit⟩
  · cases hsame
    have hfollows : a.Follows (inflateContent a bound seen₁ output content) s' output' :=
      hcontent.follows hstarts ⟨more, rfl, hmore⟩ (hless.trans hbound)
    rcases hfollows with ⟨seen₂, hok, hsees⟩ | ⟨hstop, hlimit⟩
    · refine .inl ⟨seen₂, hsees, ?_⟩
      simp only [hread, hok]
    · refine .inr ⟨?_, hlimit⟩
      simp only [hread, hstop]
  · refine .inr ⟨?_, hlimit.trans_le hcontent.sizes.1⟩
    simp only [hread, hstop]

theorem Expands.follows (h : Expands s output s' output') (hseen : a.Sees s output seen)
    {bound fuel : Nat} (hbound : s.size < bound) (hfuel : s.size < fuel) :
    a.Follows (inflateBlocks a bound fuel seen output) s' output' := by
  induction h generalizing seen fuel with
  | last hhead hcontent =>
    obtain ⟨fuel, rfl⟩ : ∃ k, fuel = k + 1 := ⟨fuel - 1, by omega⟩
    rcases inflateBlocks_block hhead hcontent hseen hbound fuel with ⟨seen', hsees, hok⟩ | hstop
    · exact .inl ⟨seen', hok, hsees⟩
    · exact .inr hstop
  | more hhead hcontent hrest ih =>
    obtain ⟨fuel, rfl⟩ : ∃ k, fuel = k + 1 := ⟨fuel - 1, by omega⟩
    have hless := (readHead_cases hhead).1
    have hsizes := hcontent.sizes
    rcases inflateBlocks_block hhead hcontent hseen hbound fuel with
      ⟨seen', hsees, hok⟩ | ⟨hstop, hlimit⟩
    · rw [hok]
      exact ih hsees (by omega) (by omega)
    · exact .inr ⟨hstop, hlimit.trans_le hrest.sizes.1⟩

/-! ### The way back -/

theorem TokensExpand.of_inflateTokens {fuel : Nat}
    (h : inflateTokens a literals distances fuel s output = .ok (s', output'))
    (hlimit : output'.size ≤ a.limit) :
    TokensExpand literals distances s output s' output' := by
  induction fuel generalizing s output with
  | zero => cases h
  | succ fuel ih =>
    cases hstep : readStep literals distances s with
    | error fault =>
      rw [inflateTokens_fault hstep] at h
      cases h
    | ok step =>
      cases step with
      | blockEnd s₁ =>
        rw [inflateTokens_blockEnd hstep] at h
        cases h
        exact .blockEnd hstep
      | token t s₁ =>
        cases hemit : a.emit t s₁ output with
        | none =>
          rw [inflateTokens_token hstep hemit] at h
          cases h
        | some emitted =>
          rw [inflateTokens_token hstep hemit] at h
          have hrest := ih h
          obtain ⟨hs, houtput⟩ := Allowance.eq_of_emit hemit (hrest.sizes.1.trans hlimit)
          rw [hs, houtput] at hrest
          exact .token hstep hrest

theorem ContentExpands.of_copyStored {length : Nat}
    (h : copyStored a length s output = .ok (s', output')) (hlimit : output'.size ≤ a.limit)
    (hstarts : s.held = []) : ContentExpands (.stored length) s output s' output' := by
  induction length generalizing s output with
  | zero =>
    obtain ⟨held, bytes⟩ := s
    obtain rfl : held = [] := hstarts
    have hempty : output ++ [].toArray = output := Array.append_empty
    have hstored := ContentExpands.stored [] bytes output
    rw [hempty] at hstored
    cases h
    exact hstored
  | succ length ih =>
    obtain ⟨held, bytes⟩ := s
    obtain rfl : held = [] := hstarts
    cases bytes with
    | nil => cases h
    | cons b bytes =>
      cases hemit : a.emit (.literal b) (.ofBytes bytes) output with
      | none =>
        rw [copyStored_cons hemit] at h
        cases h
      | some emitted =>
        rw [copyStored_cons hemit] at h
        have hrest := ih h (Allowance.held_and_apply_of_emit hemit).1
        obtain ⟨hs, houtput⟩ := Allowance.eq_of_emit hemit (hrest.sizes.1.trans hlimit)
        rw [hs, houtput] at hrest
        generalize hbytes : BitSource.ofBytes bytes = behind at hrest
        cases hrest with
        | stored content rest =>
          obtain rfl : bytes = content ++ rest := congrArg BitSource.bytes hbytes
          have hpush : output ++ (b :: content).toArray =
              (Token.literal b).apply output ++ content.toArray := by
            simp [Token.apply]
          have hstored := ContentExpands.stored (b :: content) rest output
          rwa [hpush] at hstored

theorem ContentExpands.of_inflateContent {bound : Nat}
    (h : inflateContent a bound s output content = .ok (s', output'))
    (hlimit : output'.size ≤ a.limit) (hstarts : content.Starts s) :
    ContentExpands content s output s' output' := by
  cases content with
  | stored length => exact of_copyStored h hlimit hstarts
  | coded literals distances => exact .coded (.of_inflateTokens h hlimit)

theorem Expands.of_inflateBlocks {bound fuel : Nat}
    (h : inflateBlocks a bound fuel s output = .ok (s', output'))
    (hlimit : output'.size ≤ a.limit) :
    Expands s output s' output' := by
  induction fuel generalizing s output with
  | zero => cases h
  | succ fuel ih =>
    rw [inflateBlocks] at h
    cases hhead : readHead s with
    | error fault => simp [hhead] at h
    | ok head =>
      obtain ⟨last, content, s₁⟩ := head
      have hstarts := (readHead_cases hhead).2
      simp only [hhead] at h
      cases hcontent : inflateContent a bound s₁ output content with
      | error stop => simp [hcontent] at h
      | ok after =>
        obtain ⟨s₂, output₂⟩ := after
        simp only [hcontent] at h
        cases last with
        | true =>
          cases h
          exact .last hhead (.of_inflateContent hcontent hlimit hstarts)
        | false =>
          have hrest := ih h
          have hle := hrest.sizes.1.trans hlimit
          exact .more hhead (.of_inflateContent hcontent hle hstarts) hrest

/-! ### How much is handed over -/

theorem size_of_inflateTokens {fuel size : Nat}
    (h : inflateTokens a literals distances fuel s output = .error (.overLimit size)) :
    size = a.limit + 1 := by
  induction fuel generalizing s output with
  | zero => cases h
  | succ fuel ih =>
    cases hstep : readStep literals distances s with
    | error fault =>
      rw [inflateTokens_fault hstep] at h
      exact size_of_stop (Except.error.inj h)
    | ok step =>
      cases step with
      | blockEnd s₁ =>
        rw [inflateTokens_blockEnd hstep] at h
        cases h
      | token t s₁ =>
        cases hemit : a.emit t s₁ output with
        | none =>
          rw [inflateTokens_token hstep hemit, Option.elim_none, passed_of_emit_eq_none hemit] at h
          cases h
          rfl
        | some emitted =>
          rw [inflateTokens_token hstep hemit] at h
          exact ih h

theorem size_of_copyStored {length size : Nat}
    (h : copyStored a length s output = .error (.overLimit size)) : size = a.limit + 1 := by
  induction length generalizing s output with
  | zero => cases h
  | succ length ih =>
    obtain ⟨held, bytes⟩ := s
    cases bytes with
    | nil =>
      rw [copyStored_nil] at h
      exact size_of_stop (Except.error.inj h)
    | cons b bytes =>
      cases hemit : a.emit (.literal b) (.ofBytes bytes) output with
      | none =>
        rw [copyStored_cons hemit, Option.elim_none, passed_of_emit_eq_none hemit] at h
        cases h
        rfl
      | some emitted =>
        rw [copyStored_cons hemit] at h
        exact ih h

theorem size_of_inflateContent {bound size : Nat}
    (h : inflateContent a bound s output content = .error (.overLimit size)) :
    size = a.limit + 1 := by
  cases content with
  | stored length => exact size_of_copyStored h
  | coded literals distances => exact size_of_inflateTokens h

theorem size_of_inflateBlocks {bound fuel size : Nat}
    (h : inflateBlocks a bound fuel s output = .error (.overLimit size)) : size = a.limit + 1 := by
  induction fuel generalizing s output with
  | zero => cases h
  | succ fuel ih =>
    rw [inflateBlocks] at h
    cases hhead : readHead s with
    | error fault =>
      simp only [hhead] at h
      exact size_of_stop (Except.error.inj h)
    | ok head =>
      obtain ⟨last, content, s₁⟩ := head
      simp only [hhead] at h
      cases hcontent : inflateContent a bound s₁ output content with
      | error stop =>
        simp only [hcontent] at h
        cases h
        exact size_of_inflateContent hcontent
      | ok after =>
        simp only [hcontent] at h
        cases last with
        | true => cases h
        | false => exact ih h

end

/-! ## Whole decompressions -/

/-- Within the limit, and only there, all of the content is given, with what follows the data. -/
theorem inflate_of_deflated {data content : Bytes} (h : Deflated data content)
    (limit start : Nat) (rest : Bytes) :
    inflate limit start (data ++ rest) =
      if content.length ≤ limit then .ok (content, rest) else .error (.overLimit (limit + 1)) := by
  obtain ⟨s, hexpands, hs⟩ := h
  let a : Allowance := ⟨limit, start + (data ++ rest).length⟩
  have hsees : a.Sees (.ofBytes (data ++ rest)) #[] (.ofBytes (data ++ rest)) :=
    ⟨[], (BitSource.followedBy_nil _).symm, .inl rfl⟩
  have hbound : (BitSource.ofBytes (data ++ rest)).size < 8 * (data ++ rest).length + 1 := by
    rw [BitSource.size_ofBytes]
    exact Nat.lt_succ_self _
  unfold inflate
  rcases (hexpands.followedBy rest).follows hsees hbound hbound with
    ⟨seen, hok, more, hsame, hmore⟩ | ⟨hstop, hlimit⟩
  · simp only [a] at hok
    simp only [hok, List.size_toArray]
    by_cases hlimit : limit < content.length
    · rw [if_pos hlimit, if_neg (not_le.2 hlimit)]
      exact congrArg Except.error (passed_eq_of_lt (a := a) hlimit)
    · obtain rfl : more = [] := hmore.resolve_right (by simpa using hlimit)
      have hleft : seen.bytes = rest := by
        rw [← BitSource.followedBy_nil seen, ← hsame, BitSource.followedBy, hs, List.nil_append]
      rw [if_neg hlimit, if_pos (not_lt.1 hlimit), hleft]
  · have hlimit' : limit < content.length := by simpa using hlimit
    simp only [a] at hstop
    simp only [hstop]
    rw [if_neg (not_le.2 hlimit')]

theorem Expands.exists_deflated {input : Bytes} {s : BitSource} {output : Array UInt8}
    (h : Expands (.ofBytes input) #[] s output) :
    ∃ data, input = data ++ s.bytes ∧ Deflated data output.toList := by
  have hshort : s.size ≤ 8 * input.length := by
    rw [← BitSource.size_ofBytes]
    exact h.sizes.2
  have hleft : 8 * s.bytes.length ≤ s.size := Nat.le_add_left _ _
  obtain ⟨front, behind, rfl, hlength⟩ :
      ∃ front behind, input = front ++ behind ∧ behind.length = s.bytes.length := by
    refine ⟨_, _, (List.take_append_drop (input.length - s.bytes.length) input).symm, ?_⟩
    rw [List.length_drop]
    omega
  have hall : Expands ((BitSource.ofBytes front).followedBy behind) #[] s output := h
  obtain ⟨t, rfl, hfront⟩ := hall.of_followedBy (hlength ▸ hleft)
  have hnil : t.bytes = [] := by
    rw [BitSource.followedBy, List.length_append] at hlength
    exact List.length_eq_zero_iff.1 (by omega)
  have hbytes : (t.followedBy behind).bytes = behind := by
    rw [BitSource.followedBy, hnil, List.nil_append]
  exact ⟨front, by rw [hbytes], t, hfront, hnil⟩

/-- What is given fits the limit, and is the content of the data that were taken up. -/
theorem exists_deflated_of_inflate {limit start : Nat} {input content rest : Bytes}
    (h : inflate limit start input = .ok (content, rest)) :
    content.length ≤ limit ∧ ∃ data, input = data ++ rest ∧ Deflated data content := by
  unfold inflate at h
  dsimp only at h
  split at h
  · cases h
  next s output hblocks =>
  split at h
  · cases h
  next hsize =>
  cases h
  have hlimit : output.size ≤ limit := not_lt.1 hsize
  exact ⟨hlimit, (Expands.of_inflateBlocks hblocks hlimit).exists_deflated⟩

theorem size_of_inflate {limit start size : Nat} {input : Bytes}
    (h : inflate limit start input = .error (.overLimit size)) : size = limit + 1 := by
  unfold inflate at h
  dsimp only at h
  split at h
  next stop hblocks =>
    cases h
    exact size_of_inflateBlocks hblocks
  next s output hblocks =>
    split at h
    next hlimit =>
      rw [passed_eq_of_lt hlimit] at h
      cases h
      rfl
    · cases h

end Courier.Deflate
