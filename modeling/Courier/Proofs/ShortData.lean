import Courier.Gzip
import Courier.Proofs.Members
/-!
# Short data stay short

No token takes more than 32 bits in the fixed code.  Every token stands for a byte at least, and
every step of the pass closes one stretch at most, so there are no more tokens than bytes, and no
more stretches but one.  Data that are too short for a code of their own therefore grow by no more
than a small factor (`Gzip.length_compress_le`).
-/

namespace Courier.Deflate

/-! ## Tokens and stretches -/

variable {data : Array UInt8} {start stop : Nat}

theorem Token.IsWritable.length_pos {t : Token} (h : t.IsWritable) : 1 ≤ t.length := by
  cases t with
  | literal b => exact le_refl 1
  | copy length distance => exact le_trans (by decide) h.1.1

/-- Every token stands for a byte at least. -/
theorem Stands.length_le {tokens : List Token} (h : Stands data start tokens stop) :
    start + tokens.length ≤ stop := by
  induction h with
  | nil => exact le_refl _
  | cons hwritable _ _ ih =>
    have hone := hwritable.length_pos
    rw [List.length_cons]
    omega

theorem Tiles.sum_tokens_le {stretches : List Stretch} (h : Tiles data start stretches stop) :
    start + (stretches.map fun s => s.tokens.length).sum ≤ stop := by
  induction h with
  | nil => exact le_refl _
  | cons _ hstands _ _ ih =>
    have hone := hstands.length_le
    rw [List.map_cons, List.sum_cons]
    omega

theorem Tiles.length_le {stretches : List Stretch} (h : Tiles data start stretches stop) :
    ∀ s ∈ stretches, s.length ≤ data.size := by
  induction h with
  | nil => exact nofun
  | cons _ hstands _ _ ih =>
    intro s hs
    rcases List.mem_cons.1 hs with rfl | hs
    · exact (Nat.le_add_left _ _).trans hstands.le.2
    · exact ih s hs

namespace Scan

theorem closed_decide (effort : Effort) (s : Scan) (reach : Nat) (b : UInt8)
    (found : Option Copy) : (s.decide effort reach b found).closed = s.closed := by
  unfold decide
  cases s.waiting with
  | none =>
    cases found with
    | none => rfl
    | some copy =>
      dsimp only
      split <;> rfl
  | some w =>
    cases found with
    | none => rfl
    | some copy =>
      dsimp only
      split <;> rfl

theorem length_closed_step (c : Chained) (effort : Effort) (s : Scan) (b : UInt8) :
    (s.step c effort b).closed.length ≤ s.closed.length + 1 := by
  unfold step
  dsimp only
  generalize hafter : s.decide effort _ b _ = after
  have hsame : after.closed = s.closed := by
    rw [← hafter, closed_decide]
  rw [← hsame]
  split
  · exact le_refl _
  · exact Nat.le_succ _

/-- Every step closes one stretch at most. -/
theorem length_closed_run (c : Chained) (effort : Effort) (fuel : Nat) (s : Scan) :
    (run c effort fuel s).closed.length ≤ s.closed.length + fuel := by
  induction fuel generalizing s with
  | zero => exact le_refl _
  | succ fuel ih =>
    rw [run]
    split
    · exact Nat.le_add_right _ _
    next b _ =>
      have hstep := length_closed_step c effort s b
      have hrest := ih (s.step c effort b)
      omega

end Scan

theorem length_stretches_le (effort : Effort) (data : Array UInt8) :
    (stretches effort data).length ≤ data.size + 1 := by
  have hrun := Scan.length_closed_run (.ofArray data) effort data.size {}
  rw [stretches, List.length_reverse, Scan.close, List.length_cons]
  exact Nat.succ_le_succ (hrun.trans (Nat.zero_add _).le)

/-! ## Bits -/

theorem length_fixedLiteralWord_le (symbol : Nat) : (fixedLiteralWord symbol).length ≤ 9 := by
  unfold fixedLiteralWord
  split
  · simp
  split
  · simp
  split
  · simp
  · simp

theorem extraBits_rangeOf_le {ranges : List Range} {most : Nat}
    (hranges : ∀ r ∈ ranges, r.extraBits ≤ most) (n : Nat) :
    (rangeOf ranges n).1.extraBits ≤ most := by
  unfold rangeOf
  rw [List.getLastD_eq_getLast?]
  cases hlast : (ranges.zipIdx.filter fun r => r.1.least ≤ n).getLast? with
  | none => exact Nat.zero_le most
  | some r =>
    have hmem := List.mem_of_mem_filter (List.mem_of_getLast? hlast)
    exact hranges r.1 (List.fst_mem_of_mem_zipIdx hmem)

theorem length_tokenBits_le (t : Token) : (t.bits fixedLiteralWord (wordBits 5)).length ≤ 32 := by
  cases t with
  | literal b => exact (length_fixedLiteralWord_le b.toNat).trans (by decide)
  | copy length distance =>
    have hsymbol := length_fixedLiteralWord_le (firstLengthSymbol + (rangeOf lengthRanges length).2)
    have hlength := extraBits_rangeOf_le (show ∀ r ∈ lengthRanges, r.extraBits ≤ 5 by decide) length
    have hdistance :=
      extraBits_rangeOf_le (show ∀ r ∈ distanceRanges, r.extraBits ≤ 13 by decide) distance
    simp only [Token.bits, List.length_append, length_lowBits, length_wordBits]
    omega

theorem length_contentBits_le (tokens : List Token) :
    (contentBits fixedLiteralWord (wordBits 5) tokens).length ≤ 9 + 32 * tokens.length := by
  have hend := length_fixedLiteralWord_le endOfBlock
  rw [contentBits, List.length_append]
  induction tokens with
  | nil =>
    rw [List.flatMap_nil, List.length_nil]
    omega
  | cons t tokens ih =>
    have ht := length_tokenBits_le t
    rw [List.flatMap_cons, List.length_append, List.length_cons]
    omega

theorem length_stretchBits_le {s : Stretch} (hs : s.length ≤ neverStored) (data : Array UInt8)
    (written : Nat) (last : Bool) :
    (s.bits data written last).length ≤ 12 + 32 * s.tokens.length := by
  have hcontent := length_contentBits_le s.tokens
  have hnever : neverStored = 32 := rfl
  have hown : s.length < ownCodeFrom := hs.trans_lt (by decide)
  have hstored : ¬ neverStored < s.length := not_lt.2 hs
  unfold Stretch.bits
  simp only [hown, hstored, decide_false, Bool.false_and, if_true, fixedBlock, List.length_cons,
    List.length_append, List.length_nil]
  rw [if_neg Bool.false_ne_true]
  simp only [List.length_cons, List.length_append, List.length_nil]
  omega

theorem length_blocksBits_le {stretches : List Stretch}
    (hshort : ∀ s ∈ stretches, s.length ≤ neverStored) (data : Array UInt8) (written : Nat) :
    (blocksBits data written stretches).flatten.length ≤
      (stretches.map fun s => 12 + 32 * s.tokens.length).sum := by
  induction stretches generalizing written with
  | nil => exact Nat.le_refl 0
  | cons s rest ih =>
    have hs := length_stretchBits_le (hshort s List.mem_cons_self) data written rest.isEmpty
    have hrest := ih (fun s hs => hshort s (List.mem_cons_of_mem _ hs))
      (written + (s.bits data written rest.isEmpty).length)
    rw [blocksBits, List.flatten_cons, List.length_append, List.map_cons, List.sum_cons]
    omega

theorem length_packBitsOnto (gathered : Bytes) (bits : List Bool) :
    (packBitsOnto gathered bits).length = gathered.length + (bits.length + 7) / 8 := by
  induction gathered, bits using packBitsOnto.induct with
  | case1 gathered b₀ b₁ b₂ b₃ b₄ b₅ b₆ b₇ rest ih =>
    rw [packBitsOnto, ih]
    simp only [List.length_cons]
    omega
  | case2 gathered => simp [packBitsOnto]
  | case3 gathered bits hlong hnonempty =>
    have hfew := length_lt_of_forall_ne hlong
    have hsome : 0 < bits.length := List.length_pos_iff.2 hnonempty
    rw [packBitsOnto, List.length_reverse, List.length_cons]
    · omega
    · exact hlong
    · exact hnonempty

/-- Data too short for a code of their own grow by no more than a factor of ten and a few bytes. -/
theorem length_deflateTokens_le (level : Nat) {data : Bytes}
    (hdata : data.length ≤ neverStored) :
    (deflateTokens level data).length ≤ 10 * data.length + 2 := by
  have htiles := tiles_stretches (.ofLevel level) data.toArray
  have hshort : ∀ s ∈ stretches (.ofLevel level) data.toArray, s.length ≤ neverStored := by
    intro s hs
    exact (htiles.length_le s hs).trans hdata
  have hbits := length_blocksBits_le hshort data.toArray 0
  have htokens := htiles.sum_tokens_le
  have hcount := length_stretches_le (.ofLevel level) data.toArray
  rw [List.sum_map_add, List.sum_map_mul_left, List.map_const', List.sum_replicate] at hbits
  rw [List.size_toArray] at htokens hcount
  rw [deflateTokens, packBits, length_packBitsOnto, List.length_nil]
  simp only [smul_eq_mul] at hbits
  omega

theorem length_deflate_le (level : Nat) {data : Bytes} (hdata : data.length ≤ neverStored) :
    (deflate level data).length ≤ 10 * data.length + 5 := by
  have htokens := length_deflateTokens_le level hdata
  have hshort : data.length < storedShare := hdata.trans_lt (by decide)
  unfold deflate
  split
  · rw [deflateStored, dif_pos hshort, storedBlock_length]
    omega
  · omega

end Courier.Deflate

namespace Courier.Gzip

theorem length_compress_le (level : Nat) {content : Bytes}
    (hcontent : content.length ≤ Deflate.neverStored) :
    (compress level content).length ≤ 10 * content.length + 23 := by
  have hdeflate := Deflate.length_deflate_le level hcontent
  have hheader : (header level).length = 10 := rfl
  have htrailer : (trailer content).length = 8 := by simp [trailer]
  rw [compress, List.length_append, List.length_append]
  omega

end Courier.Gzip
