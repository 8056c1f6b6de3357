import Courier.Deflate.Compress
import Courier.Proofs.TokenBits
/-!
# Compressed data read back

A stretch is written as a block, in the fixed code, in a code of its own or as it is, and each of
them makes the bytes of the stretch again (`expandsBlock_bits`).  The stretches lie side by side,
so their blocks make all of the data (`expands_blocksBits`).  At every level, what is compressed
stands for the data (`deflated_deflate`).
-/

namespace Courier.Deflate

variable {literals distances : Tree} {literalWord distanceWord : Nat → List Bool}

/-! ## Heads -/

variable {data : Array UInt8} {start stop : Nat} {tokens : List Token} {s : BitSource}
  {rest : List Bool}

theorem BitSource.Shows.marks {last : Bool} {kind : Nat} (hkind : kind < 4)
    (h : s.Shows (last :: (lowBits 2 kind ++ rest))) :
    ∃ s₁ s₂, readNumber 1 s = .ok (last.toNat, s₁) ∧ readNumber 2 s₁ = .ok (kind, s₂) ∧
      s₂.Shows rest := by
  have hmark : last :: (lowBits 2 kind ++ rest) =
      lowBits 1 last.toNat ++ (lowBits 2 kind ++ rest) := by
    cases last <;> rfl
  rw [hmark] at h
  obtain ⟨s₁, hlast, h₁⟩ := takes_readNumber (show last.toNat < 2 ^ 1 from last.toNat_lt) h
  obtain ⟨s₂, hkind, h₂⟩ := takes_readNumber (show kind < 2 ^ 2 from hkind) h₁
  exact ⟨s₁, s₂, hlast, hkind, h₂⟩

theorem takes_readHead_fixed (last : Bool) :
    Takes readHead [last, true, false]
      fun s => (last, .coded fixedLiterals fixedDistances, s) := by
  intro s rest h
  obtain ⟨s₁, s₂, hlast, hkind, h₂⟩ := BitSource.Shows.marks (show 1 < 4 by decide) h
  refine ⟨s₂, ?_, h₂⟩
  simp only [readHead, hlast, hkind, bind, Except.bind]
  cases last <;> rfl

theorem FrontLengths.takes_readHead {literals distances : List Nat}
    (h : FrontLengths literals distances) (last : Bool) :
    Takes readHead (last :: ([false, true] ++ codeBits literals distances))
      fun s => (last, .coded (.ofLengths literals) (.ofLengths distances), s) := by
  intro s rest hs
  obtain ⟨s₁, s₂, hlast, hkind, h₂⟩ := BitSource.Shows.marks (show 2 < 4 by decide) hs
  obtain ⟨s₃, htrees, h₃⟩ := h.takes_readTrees h₂
  refine ⟨s₃, ?_, h₃⟩
  simp only [readHead, hlast, hkind, htrees, bind, Except.bind]
  cases last <;> rfl

/-! ## Blocks -/

/-- A block at the front of the stream, and what it makes of the output. -/
def ExpandsBlock (last : Bool) (s : BitSource) (output : Array UInt8) (s' : BitSource)
    (output' : Array UInt8) : Prop :=
  ∃ content s₁, readHead s = .ok (last, content, s₁) ∧ ContentExpands content s₁ output s' output'

theorem Token.IsWritable.symbols_lt {t : Token} (h : t.IsWritable) :
    t.symbols.1 < literalSymbols ∧
      ∀ symbol, t.symbols.2 = some symbol → symbol < distanceSymbols := by
  cases t with
  | literal b =>
    have hbyte : b.toNat < literalSymbols := b.toNat_lt.trans (by decide)
    exact ⟨hbyte, nofun⟩
  | copy length distance =>
    have hlength := (List.getElem?_eq_some_iff.1 (holds_rangeOf_length h.1).place).1
    have hdistance := (List.getElem?_eq_some_iff.1 (holds_rangeOf_distance h.2).place).1
    refine ⟨Nat.add_lt_add_left hlength 257, ?_⟩
    rintro symbol ⟨⟩
    exact hdistance

theorem expandsBlock_coded {last : Bool} {head : List Bool}
    (hhead : Takes readHead head fun s => (last, .coded literals distances, s))
    (hled : ∀ t ∈ tokens, t.IsLed literals distances literalWord distanceWord)
    (hend : Leads literals literalWord endOfBlock) (hstands : Stands data start tokens stop)
    (h : s.Shows (head ++ contentBits literalWord distanceWord tokens ++ rest)) :
    ∃ s', ExpandsBlock last s (data.extract 0 start) s' (data.extract 0 stop) ∧ s'.Shows rest := by
  rw [List.append_assoc] at h
  obtain ⟨s₁, hhead, h₁⟩ := hhead h
  obtain ⟨s', htokens, hs'⟩ := tokensExpand_of_shows hstands.writable hled hend h₁
  have houtput := htokens (data.extract 0 start)
  rw [hstands.foldl_apply] at houtput
  exact ⟨s', ⟨_, s₁, hhead, .coded houtput⟩, hs'⟩

theorem expandsBlock_fixedBlock {last : Bool} (hstands : Stands data start tokens stop)
    (h : s.Shows (last :: fixedBlock tokens ++ rest)) :
    ∃ s', ExpandsBlock last s (data.extract 0 start) s' (data.extract 0 stop) ∧ s'.Shows rest := by
  refine expandsBlock_coded (takes_readHead_fixed last) ?_ ?_ hstands h
  · intro t ht
    obtain ⟨hliteral, hdistance⟩ := (hstands.writable t ht).symbols_lt
    refine ⟨takes_fixedLiteralWord (hliteral.trans (by decide)), ?_⟩
    intro symbol hsymbol
    exact takes_fixedDistanceWord ((hdistance symbol hsymbol).trans (by decide))
  · exact takes_fixedLiteralWord (by decide)

/-! ### Codes of their own -/

/-- How often each symbol of bytes and lengths occurs, that of the end of the block among them. -/
def literalCounts (tokens : List Token) : List Nat :=
  countSymbols literalSymbols (endOfBlock :: (tokens.map Token.symbols).map (·.1))

def distanceCounts (tokens : List Token) : List Nat :=
  countSymbols distanceSymbols ((tokens.map Token.symbols).filterMap (·.2))

theorem holds_literalCounts (tokens : List Token) : Holds longestWord (literalCounts tokens) :=
  holds_of_length_le (by decide) (by rw [literalCounts, length_countSymbols]; decide)

theorem holds_distanceCounts (tokens : List Token) : Holds longestWord (distanceCounts tokens) :=
  holds_of_length_le (by decide) (by rw [distanceCounts, length_countSymbols]; decide)

/-- The lengths of the words of a code for symbols that occur so often. -/
def ownLengths (counts : List Nat) : List Nat :=
  trimmed (wordLengths longestWord counts)

variable {counts : List Nat} {symbol : Nat}

theorem Holds.isCode_ownLengths (h : Holds longestWord counts) : IsCode (ownLengths counts) :=
  (h.isCode (le_refl _)).trimmed

theorem Holds.isUsable_ownLengths (h : Holds longestWord counts) :
    Deflate.isUsable (ownLengths counts) = true := by
  rw [ownLengths, isUsable_of_filter (filter_trimmed _)]
  exact h.isUsable (le_refl _)

theorem Holds.getD_ownLengths (h : Holds longestWord counts) (hsymbol : counts.getD symbol 0 ≠ 0) :
    (ownLengths counts).getD symbol 0 ≠ 0 := by
  rw [ownLengths, getD_trimmed]
  exact h.wordLengths_spec.2.2 symbol hsymbol

theorem Holds.leads_ownLengths (h : Holds longestWord counts)
    (hsymbol : counts.getD symbol 0 ≠ 0) :
    Leads (.ofLengths (ownLengths counts)) (wordIn (wordTable (ownLengths counts))) symbol :=
  h.isCode_ownLengths.takes_wordIn (h.getD_ownLengths hsymbol)

theorem Holds.length_ownLengths (h : Holds longestWord counts) (hsome : 0 < counts.length) :
    1 ≤ (ownLengths counts).length ∧ (ownLengths counts).length ≤ counts.length := by
  have hlength := h.wordLengths_spec.1
  rw [ownLengths]
  constructor
  · cases hlengths : wordLengths longestWord counts with
    | nil =>
      rw [hlengths, List.length_nil] at hlength
      omega
    | cons first lengths => exact Nat.succ_pos _
  · exact (length_trimmed_le _).trans hlength.le

theorem literalCounts_endOfBlock (tokens : List Token) :
    (literalCounts tokens).getD endOfBlock 0 ≠ 0 :=
  getD_countSymbols_ne_zero (by decide) List.mem_cons_self

/-- The codes of a block's own can be written in front of it. -/
theorem frontLengths_ownLengths (tokens : List Token) :
    FrontLengths (ownLengths (literalCounts tokens)) (ownLengths (distanceCounts tokens)) := by
  have hliterals := holds_literalCounts tokens
  have hdistances := holds_distanceCounts tokens
  have hsize : (literalCounts tokens).length = 286 := length_countSymbols _ _
  have hsize' : (distanceCounts tokens).length = 30 := length_countSymbols _ _
  have hend := hliterals.getD_ownLengths (literalCounts_endOfBlock tokens)
  have hbehind : 256 < (ownLengths (literalCounts tokens)).length := lt_length_of_getD_ne_zero hend
  have hlength := hliterals.length_ownLengths (by omega)
  have hlength' := hdistances.length_ownLengths (by omega)
  rw [hsize] at hlength
  rw [hsize'] at hlength'
  refine ⟨⟨hbehind, hlength.2⟩, hlength', hliterals.isUsable_ownLengths,
    hdistances.isUsable_ownLengths, ?_, hend⟩
  intro n hn
  rcases List.mem_append.1 hn with hn | hn
  · exact hliterals.isCode_ownLengths.le n hn
  · exact hdistances.isCode_ownLengths.le n hn

theorem isLed_ownLengths {t : Token} (ht : t ∈ tokens) (hwritable : t.IsWritable) :
    t.IsLed (.ofLengths (ownLengths (literalCounts tokens)))
      (.ofLengths (ownLengths (distanceCounts tokens)))
      (wordIn (wordTable (ownLengths (literalCounts tokens))))
      (wordIn (wordTable (ownLengths (distanceCounts tokens)))) := by
  obtain ⟨hliteral, hdistance⟩ := hwritable.symbols_lt
  have hsymbols := List.mem_map_of_mem (f := Token.symbols) ht
  constructor
  · apply (holds_literalCounts tokens).leads_ownLengths
    exact getD_countSymbols_ne_zero hliteral
      (List.mem_cons_of_mem _ (List.mem_map_of_mem hsymbols))
  · intro symbol hsymbol
    apply (holds_distanceCounts tokens).leads_ownLengths
    exact getD_countSymbols_ne_zero (hdistance symbol hsymbol)
      (List.mem_filterMap.2 ⟨_, hsymbols, hsymbol⟩)

theorem expandsBlock_ownBlock {last : Bool} (hstands : Stands data start tokens stop)
    (h : s.Shows (last :: ownBlock tokens ++ rest)) :
    ∃ s', ExpandsBlock last s (data.extract 0 start) s' (data.extract 0 stop) ∧ s'.Shows rest := by
  have hhead := (frontLengths_ownLengths tokens).takes_readHead last
  have hend := (holds_literalCounts tokens).leads_ownLengths (literalCounts_endOfBlock tokens)
  apply expandsBlock_coded hhead _ hend hstands h
  intro t ht
  exact isLed_ownLengths ht (hstands.writable t ht)

/-! ### Bytes as they are -/

theorem readStoredLength_append {n : Nat} (hn : n < 65536) (held : List Bool) (rest : Bytes) :
    readStoredLength
        ⟨held, Bytes.littleEndian 2 n ++ (Bytes.littleEndian 2 (0xFFFF - n) ++ rest)⟩ =
      .ok (n, .ofBytes rest) := by
  have hlength : Bytes.ofLittleEndian (Bytes.littleEndian 2 n) = n := by
    rw [Bytes.ofLittleEndian_littleEndian]
    exact Nat.mod_eq_of_lt hn
  have hcomplement :
      Bytes.ofLittleEndian (Bytes.littleEndian 2 (0xFFFF - n)) = 0xFFFF - n := by
    rw [Bytes.ofLittleEndian_littleEndian]
    exact Nat.mod_eq_of_lt (by omega)
  simp only [Bytes.littleEndian, List.cons_append, List.nil_append] at hlength hcomplement ⊢
  simp only [readStoredLength, hlength, hcomplement]
  simp

theorem length_storedBits (written : Nat) (content : Bytes) :
    8 ∣ written + (storedBits written content).length := by
  rw [storedBits, List.length_append, List.length_append, List.length_replicate,
    length_flatMap_byteBits]
  change 8 ∣ written + (2 + (8 - (written + 2) % 8) % 8 + _)
  omega

theorem expandsBlock_storedBits {last : Bool} {written : Nat}
    (hle : start ≤ stop ∧ stop ≤ data.size) (hshort : stop - start < 65536)
    (hrest : 8 ∣ rest.length)
    (h : s.Shows (last :: storedBits written (data.extract start stop).toList ++ rest)) :
    ∃ s', ExpandsBlock last s (data.extract 0 start) s' (data.extract 0 stop) ∧ s'.Shows rest := by
  generalize hcontent : (data.extract start stop).toList = content at h
  have hjoin : data.extract 0 start ++ content.toArray = data.extract 0 stop := by
    rw [← hcontent, Array.toArray_toList, Array.extract_append_extract,
      Nat.min_eq_left (Nat.zero_le _), Nat.max_eq_right hle.1]
  have hlength : content.length < 65536 := by
    rw [← hcontent, Array.length_toList, Array.size_extract]
    omega
  have hbits : last :: storedBits written content ++ rest =
      last :: (lowBits 2 0 ++ (List.replicate ((8 - (written + 2) % 8) % 8) false ++
        ((Bytes.littleEndian 2 content.length ++ (Bytes.littleEndian 2 (0xFFFF - content.length) ++
          content)).flatMap byteBits ++ rest))) := by
    rw [storedBits]
    simp only [List.append_assoc, List.cons_append]
    rfl
  rw [hbits] at h
  obtain ⟨s₁, s₂, hlast, hkind, h₂⟩ := h.marks (by decide)
  have hpadding : (List.replicate ((8 - (written + 2) % 8) % 8) false).length < 8 := by
    rw [List.length_replicate]
    omega
  -- Whole bytes follow the padding, so the padding is what is held of the byte under way.
  obtain ⟨behind, rfl, hbehind⟩ := h₂.split hpadding hrest
  refine ⟨.ofBytes behind, ⟨.stored content.length, .ofBytes (content ++ behind), ?_, ?_⟩,
    Nat.zero_lt_succ 7, hbehind⟩
  · rw [List.append_assoc, List.append_assoc] at hkind
    simp only [readHead, hlast, hkind, bind, Except.bind, if_true, readStoredLength_append hlength]
    cases last <;> rfl
  · have hstored := ContentExpands.stored content behind (data.extract 0 start)
    rwa [hjoin] at hstored

theorem Stretch.bits_cases (data : Array UInt8) (written : Nat) (last : Bool) (s : Stretch) :
    s.inWindow = true ∧ s.bits data written last =
        last :: storedBits (written + 1) (data.extract s.start (s.start + s.length)).toList ∨
      s.bits data written last = last :: fixedBlock s.tokens ∨
      s.bits data written last = last :: ownBlock s.tokens := by
  unfold Stretch.bits
  dsimp only
  generalize hblock : (if s.length < ownCodeFrom then fixedBlock s.tokens else ownBlock s.tokens) =
    block
  split
  next hstored =>
    simp only [Bool.and_eq_true] at hstored
    exact .inl ⟨hstored.1.2, rfl⟩
  next =>
    rw [← hblock]
    split
    · exact .inr (.inl rfl)
    · exact .inr (.inr rfl)

theorem expandsBlock_bits {stretch : Stretch} {last : Bool} {written : Nat}
    (hstart : stretch.start = start)
    (hstands : Stands data start stretch.tokens (start + stretch.length))
    (hwindow : stretch.inWindow = true → stretch.length ≤ farthestCopy)
    (haligned : 8 ∣ written + (stretch.bits data written last).length + rest.length)
    (h : s.Shows (stretch.bits data written last ++ rest)) :
    ∃ s', ExpandsBlock last s (data.extract 0 start) s' (data.extract 0 (start + stretch.length)) ∧
      s'.Shows rest := by
  rcases stretch.bits_cases data written last with ⟨hinside, hbits⟩ | hbits | hbits
  · rw [hbits, hstart] at h haligned
    have hshort := hwindow hinside
    have hfar : farthestCopy = 32768 := rfl
    have hwhole := length_storedBits (written + 1)
      (data.extract start (start + stretch.length)).toList
    rw [List.length_cons] at haligned
    exact expandsBlock_storedBits hstands.le (by omega) (by omega) h
  · rw [hbits] at h
    exact expandsBlock_fixedBlock hstands h
  · rw [hbits] at h
    exact expandsBlock_ownBlock hstands h

/-! ## All blocks -/

/-- The blocks of stretches that lie side by side make all of their bytes. -/
theorem expands_blocksBits {stretches : List Stretch} {written : Nat}
    (htiles : Tiles data start stretches stop) (hsome : stretches ≠ [])
    (haligned : 8 ∣ written + (blocksBits data written stretches).flatten.length + rest.length)
    (h : s.Shows ((blocksBits data written stretches).flatten ++ rest)) :
    ∃ s', Expands s (data.extract 0 start) s' (data.extract 0 stop) ∧ s'.Shows rest := by
  induction htiles generalizing s written with
  | nil => exact absurd rfl hsome
  | @cons start stop stretch stretches hstart hstands hwindow htiles ih =>
    rw [blocksBits, List.flatten_cons, List.length_append] at haligned
    rw [blocksBits, List.flatten_cons, List.append_assoc] at h
    -- All bits together fill whole bytes, and so the bits behind a stored block do.
    obtain ⟨s₂, ⟨content, s₁, hhead, hcontent⟩, h₂⟩ :=
      expandsBlock_bits hstart hstands hwindow (by rw [List.length_append]; omega) h
    cases stretches with
    | nil =>
      cases htiles
      exact ⟨s₂, .last hhead hcontent, h₂⟩
    | cons next stretches =>
      obtain ⟨s', hexpands, hs'⟩ := ih (List.cons_ne_nil _ _) (by omega) h₂
      exact ⟨s', .more hhead hcontent hexpands, hs'⟩

theorem stretches_ne_nil (effort : Effort) (data : Array UInt8) : stretches effort data ≠ [] := by
  rw [stretches, Ne, List.reverse_eq_nil_iff]
  exact List.cons_ne_nil _ _

/-- The tokens that are written for data give them back, to the last byte. -/
theorem deflated_deflateTokens (level : Nat) (data : Bytes) :
    Deflated (deflateTokens level data) data := by
  let bits := (blocksBits data.toArray 0 (stretches (.ofLevel level) data.toArray)).flatten
  let zeros := List.replicate (filling bits.length) false
  have hzeros : zeros.length = (8 - bits.length % 8) % 8 := List.length_replicate
  have hshows : (BitSource.ofBytes (deflateTokens level data)).Shows (bits ++ zeros) :=
    BitSource.shows_packBits bits
  have haligned : 8 ∣ 0 + bits.length + zeros.length := by omega
  obtain ⟨s, hexpands, hs⟩ := expands_blocksBits (tiles_stretches (.ofLevel level) data.toArray)
    (stretches_ne_nil _ _) haligned hshows
  have hall : data.toArray.extract 0 data.toArray.size = data.toArray := Array.extract_size
  rw [hall, Array.extract_zero] at hexpands
  exact ⟨s, hexpands, hs.bytes_eq_nil (by omega)⟩

/-! ## Level zero -/

theorem readHead_ofBytes_mark (last : Bool) (bytes : Bytes) :
    readHead (.ofBytes ((if last then 1 else 0) :: bytes)) =
      readStoredLength ⟨List.replicate 5 false, bytes⟩ >>=
        fun p => .ok (last, .stored p.1, p.2) := by
  have hmark : readNumber 1 (.ofBytes ((if last then 1 else 0) :: bytes)) =
      .ok (last.toNat, ⟨List.replicate 7 false, bytes⟩) := by
    cases last <;> rfl
  have hkind : readNumber 2 ⟨List.replicate 7 false, bytes⟩ =
      .ok (0, ⟨List.replicate 5 false, bytes⟩) := rfl
  unfold readHead
  rw [hmark]
  simp only [bind, Except.bind, hkind, if_true]
  cases last <;> rfl

theorem readHead_storedBlock (last : Bool) {content : Bytes} (hcontent : content.length < 65536)
    (rest : Bytes) :
    readHead (.ofBytes (storedBlock last content ++ rest)) =
      .ok (last, .stored content.length, .ofBytes (content ++ rest)) := by
  have hbytes : storedBlock last content ++ rest = (if last then 1 else 0) ::
      (Bytes.littleEndian 2 content.length ++
        (Bytes.littleEndian 2 (0xFFFF - content.length) ++ (content ++ rest))) := by
    simp [storedBlock]
  rw [hbytes, readHead_ofBytes_mark, readStoredLength_append hcontent]
  rfl

theorem storedBlock_length (last : Bool) (content : Bytes) :
    (storedBlock last content).length = 5 + content.length := by
  simp [storedBlock]
  omega

theorem expands_deflateStored (data rest : Bytes) (output : Array UInt8) :
    Expands (.ofBytes (deflateStored data ++ rest)) output (.ofBytes rest)
      (output ++ data.toArray) := by
  induction data using deflateStored.induct generalizing output with
  | case1 data hdata =>
    have hlength : data.length < 65536 := by
      unfold storedShare at hdata
      omega
    rw [deflateStored, dif_pos hdata]
    exact .last (readHead_storedBlock true hlength rest) (.stored data rest output)
  | case2 data hdata ih =>
    have hshare : (data.take storedShare).length < 65536 := by
      rw [List.length_take, storedShare]
      omega
    have hjoin : output ++ data.toArray =
        output ++ (data.take storedShare).toArray ++ (data.drop storedShare).toArray := by
      rw [Array.append_assoc, List.append_toArray (data.take storedShare), List.take_append_drop]
    rw [deflateStored, dif_neg hdata, List.append_assoc, hjoin]
    exact .more (readHead_storedBlock false hshare _) (.stored _ _ output) (ih _)

theorem deflated_deflateStored (data : Bytes) : Deflated (deflateStored data) data := by
  have hexpands := expands_deflateStored data [] #[]
  rw [List.append_nil, Array.empty_append] at hexpands
  exact ⟨.ofBytes [], hexpands, rfl⟩

/-! ## Every level -/

theorem deflated_deflate (level : Nat) (data : Bytes) : Deflated (deflate level data) data := by
  unfold deflate
  split
  · exact deflated_deflateStored data
  · exact deflated_deflateTokens level data

end Courier.Deflate
