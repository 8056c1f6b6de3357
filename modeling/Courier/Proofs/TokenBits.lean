import Courier.Deflate.Block
import Courier.Proofs.CodedLengths
import Courier.Proofs.Passes
/-!
# Tokens read back as they were written

The range that is found for a length or a distance holds it (`holds_rangeOf`), so what is written
for a token leads the decoder to it (`takes_readStep`), if the words of its symbols lead there.
Token by token, the decoder makes of a block's content what the tokens make of the output
(`tokensExpand_of_shows`).
-/

namespace Courier.Deflate

/-! ## Ranges -/

/-- The range of a number holds it, and stands at the given place. -/
structure Range.Holds (ranges : List Range) (n : Nat) (r : Range × Nat) : Prop where
  place : ranges[r.2]? = some r.1
  least : r.1.least ≤ n
  most : n < r.1.least + 2 ^ r.1.extraBits

/-- Of ranges without gaps between them, the last one that begins at or below a number holds it. -/
theorem getLastD_filter_zipIdx {ranges : List Range} {n : Nat} (first : Nat)
    (default : Range × Nat) (hsome : ranges ≠ [])
    (hsorted : ranges.Pairwise fun r r' => r.least < r'.least)
    (hgaps : ranges.IsChain fun r r' => r'.least ≤ r.least + 2 ^ r.extraBits)
    (hleast : ∀ r ∈ ranges.head?, r.least ≤ n)
    (hmost : ∀ r ∈ ranges.getLast?, n < r.least + 2 ^ r.extraBits) :
    ∃ r i, ((ranges.zipIdx first).filter fun r => r.1.least ≤ n).getLastD default =
        (r, first + i) ∧ Range.Holds ranges n (r, i) := by
  induction ranges generalizing first default with
  | nil => exact absurd rfl hsome
  | cons r ranges ih =>
    have hr : r.least ≤ n := hleast r rfl
    rw [List.zipIdx_cons, List.filter_cons_of_pos (by simpa using hr)]
    cases ranges with
    | nil => exact ⟨r, 0, rfl, rfl, hr, hmost r rfl⟩
    | cons r' ranges =>
      obtain ⟨hgap, hgaps⟩ := List.isChain_cons_cons.1 hgaps
      obtain ⟨hbelow, hsorted⟩ := List.pairwise_cons.1 hsorted
      rw [List.getLastD_cons]
      by_cases hnext : r'.least ≤ n
      · obtain ⟨found, i, hfound, hplace, hleast, hmost⟩ := ih (first + 1) (r, first)
          (List.cons_ne_nil _ _) hsorted hgaps (by simpa using hnext) hmost
        refine ⟨found, i + 1, ?_, hplace, hleast, hmost⟩
        rw [hfound, Nat.add_assoc, Nat.add_comm 1]
      · have hnone : ((r' :: ranges).zipIdx (first + 1)).filter (fun r => r.1.least ≤ n) = [] := by
          apply List.filter_eq_nil_iff.2
          rintro ⟨other, i⟩ hother
          have hmem := List.fst_mem_of_mem_zipIdx hother
          have habove : r'.least ≤ other.least := by
            rcases List.mem_cons.1 hmem with hsame | hmem
            · exact (congrArg Range.least hsame).ge
            · exact (List.rel_of_pairwise_cons hsorted hmem).le
          simpa using lt_of_lt_of_le (Nat.lt_of_not_le hnext) habove
        rw [hnone]
        exact ⟨r, 0, rfl, rfl, hr, lt_of_lt_of_le (Nat.lt_of_not_le hnext) hgap⟩

theorem holds_rangeOf {ranges : List Range} {n : Nat} (hsome : ranges ≠ [])
    (hsorted : ranges.Pairwise fun r r' => r.least < r'.least)
    (hgaps : ranges.IsChain fun r r' => r'.least ≤ r.least + 2 ^ r.extraBits)
    (hleast : ∀ r ∈ ranges.head?, r.least ≤ n)
    (hmost : ∀ r ∈ ranges.getLast?, n < r.least + 2 ^ r.extraBits) :
    Range.Holds ranges n (rangeOf ranges n) := by
  obtain ⟨r, i, hfound, hholds⟩ :=
    getLastD_filter_zipIdx 0 (⟨0, 0⟩, 0) hsome hsorted hgaps hleast hmost
  rw [Nat.zero_add] at hfound
  rw [rangeOf, hfound]
  exact hholds

theorem holds_rangeOf_length {length : Nat}
    (hlength : shortestCopy ≤ length ∧ length ≤ longestCopy) :
    Range.Holds lengthRanges length (rangeOf lengthRanges length) := by
  apply holds_rangeOf (List.cons_ne_nil _ _) (by decide) (by decide)
  · rintro r ⟨⟩
    exact hlength.1
  · rintro r ⟨⟩
    exact Nat.lt_succ_of_le hlength.2

theorem holds_rangeOf_distance {distance : Nat}
    (hdistance : 1 ≤ distance ∧ distance ≤ farthestCopy) :
    Range.Holds distanceRanges distance (rangeOf distanceRanges distance) := by
  apply holds_rangeOf (List.cons_ne_nil _ _) (by decide) (by decide)
  · rintro r ⟨⟩
    exact hdistance.1
  · rintro r ⟨⟩
    exact Nat.lt_succ_of_le hdistance.2

theorem Range.Holds.takes_readRange {ranges : List Range} {n : Nat} {r : Range × Nat}
    (h : Range.Holds ranges n r) :
    Takes (readRange r.1) (lowBits r.1.extraBits (n - r.1.least)) (Prod.mk n) :=
  Deflate.takes_readRange r.1 h.least h.most

/-! ## Words -/

/-- The word leads the decoder to the symbol. -/
def Leads (tree : Tree) (word : Nat → List Bool) (symbol : Nat) : Prop :=
  Takes (decodeSymbol tree) (word symbol) (Prod.mk symbol)

/-- The words of the token's symbols lead the decoder to them. -/
structure Token.IsLed (literals distances : Tree) (literalWord distanceWord : Nat → List Bool)
    (t : Token) : Prop where
  literal : Leads literals literalWord t.symbols.1
  distance : ∀ symbol, t.symbols.2 = some symbol → Leads distances distanceWord symbol

variable {literals distances : Tree} {literalWord distanceWord : Nat → List Bool}

/-! ## Tokens -/

theorem takes_readCopy {symbol length distance : Nat} {lengthRange distanceRange : Range × Nat}
    (hsymbol : symbol - firstLengthSymbol = lengthRange.2)
    (hlength : Range.Holds lengthRanges length lengthRange)
    (hdistance : Range.Holds distanceRanges distance distanceRange)
    (hled : Leads distances distanceWord distanceRange.2) :
    Takes (readCopy distances symbol)
      (lowBits lengthRange.1.extraBits (length - lengthRange.1.least) ++
        (distanceWord distanceRange.2 ++
          lowBits distanceRange.1.extraBits (distance - distanceRange.1.least)))
      (Step.token (.copy length distance)) := by
  unfold readCopy
  rw [hsymbol, hlength.place]
  refine hlength.takes_readRange.andThen ?_
  refine hled.andThen ?_
  dsimp only
  rw [hdistance.place]
  exact hdistance.takes_readRange.map fun _ => rfl

theorem bits_copy (literalWord distanceWord : Nat → List Bool) (length distance : Nat) :
    (Token.copy length distance).bits literalWord distanceWord =
      literalWord (firstLengthSymbol + (rangeOf lengthRanges length).2) ++
        (lowBits (rangeOf lengthRanges length).1.extraBits
            (length - (rangeOf lengthRanges length).1.least) ++
          (distanceWord (rangeOf distanceRanges distance).2 ++
            lowBits (rangeOf distanceRanges distance).1.extraBits
              (distance - (rangeOf distanceRanges distance).1.least))) := by
  rw [← List.append_assoc, ← List.append_assoc]
  rfl

theorem takes_readStep {t : Token} (hwritable : t.IsWritable)
    (hled : t.IsLed literals distances literalWord distanceWord) :
    Takes (readStep literals distances) (t.bits literalWord distanceWord) (Step.token t) := by
  obtain ⟨hliteral, hdistance⟩ := hled
  rw [readStep_eq]
  cases t with
  | literal b =>
    have hbyte : b.toNat < endOfBlock := b.toNat_lt
    refine Takes.map hliteral fun s => ?_
    simp only [Token.symbols, hbyte, if_true, UInt8.ofNat_toNat]
  | copy length distance =>
    rw [bits_copy]
    have hled := hdistance _ rfl
    simp only [Token.symbols] at hliteral
    generalize hsymbol : firstLengthSymbol + (rangeOf lengthRanges length).2 = symbol at hliteral ⊢
    have hplace : symbol - firstLengthSymbol = (rangeOf lengthRanges length).2 := by omega
    have hbehind : ¬ symbol < endOfBlock ∧ symbol ≠ endOfBlock := by
      unfold firstLengthSymbol at hsymbol
      unfold endOfBlock
      omega
    refine Takes.andThen hliteral ?_
    dsimp only
    simp only [if_neg hbehind.1, if_neg hbehind.2]
    exact takes_readCopy hplace (holds_rangeOf_length hwritable.1)
      (holds_rangeOf_distance hwritable.2) hled

theorem tokensExpand_of_shows {tokens : List Token} {s : BitSource} {rest : List Bool}
    (hwritable : ∀ t ∈ tokens, t.IsWritable)
    (hled : ∀ t ∈ tokens, t.IsLed literals distances literalWord distanceWord)
    (hend : Leads literals literalWord endOfBlock)
    (h : s.Shows (contentBits literalWord distanceWord tokens ++ rest)) :
    ∃ s', (∀ output, TokensExpand literals distances s output s'
        (tokens.foldl (fun output t => t.apply output) output)) ∧ s'.Shows rest := by
  induction tokens generalizing s with
  | nil =>
    rw [contentBits, List.flatMap_nil, List.nil_append] at h
    obtain ⟨s', hread, hs'⟩ := hend h
    refine ⟨s', fun output => .blockEnd ?_, hs'⟩
    rw [readStep, hread]
    rfl
  | cons t tokens ih =>
    have hbits : contentBits literalWord distanceWord (t :: tokens) ++ rest =
        t.bits literalWord distanceWord ++
          (contentBits literalWord distanceWord tokens ++ rest) := by
      rw [contentBits, List.flatMap_cons, contentBits]
      simp only [List.append_assoc]
    rw [hbits] at h
    obtain ⟨s₁, hstep, h₁⟩ :=
      takes_readStep (hwritable t List.mem_cons_self) (hled t List.mem_cons_self) h
    obtain ⟨s', hexpand, hs'⟩ := ih
      (fun t ht => hwritable t (List.mem_cons_of_mem _ ht))
      (fun t ht => hled t (List.mem_cons_of_mem _ ht)) h₁
    exact ⟨s', fun output => .token hstep (hexpand _), hs'⟩

end Courier.Deflate
