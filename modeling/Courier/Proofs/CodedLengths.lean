import Courier.Proofs.FullCodes
/-!
# Lengths read back as they were written

The symbols of a code for lengths make a list of lengths grow, each by the lengths that it stands
for (`LengthSymbol.Grows`).  Runs of equal lengths are written as symbols that make them grow again
(`grow_packLengths`), and the reader of lengths follows them symbol by symbol
(`takes_readLengths`).  So the two codes that stand in front of a block are read back as they were
written (`takes_readTrees`).
-/

namespace Courier.Deflate

/-! ## Symbols -/

namespace LengthSymbol

/-- What the symbol makes of lengths that are gathered in reverse. -/
inductive Grows : List Nat → LengthSymbol → List Nat → Prop
  | length {gathered : List Nat} {value : Nat} (hvalue : value ≤ longestWord) :
      Grows gathered (.length value) (value :: gathered)
  | again {gathered : List Nat} {value count : Nat} (hhead : gathered.head? = some value)
      (hcount : 3 ≤ count ∧ count ≤ 6) :
      Grows gathered (.again count) (List.replicate count value ++ gathered)
  | zeros {gathered : List Nat} {count : Nat} (hcount : 3 ≤ count ∧ count ≤ 10) :
      Grows gathered (.zeros count) (List.replicate count 0 ++ gathered)
  | manyZeros {gathered : List Nat} {count : Nat} (hcount : 11 ≤ count ∧ count ≤ 138) :
      Grows gathered (.manyZeros count) (List.replicate count 0 ++ gathered)

theorem Grows.length_lt {gathered gathered' : List Nat} {symbol : LengthSymbol}
    (h : symbol.Grows gathered gathered') : gathered.length < gathered'.length := by
  cases h with
  | length _ => exact Nat.lt_succ_self _
  | again _ hcount =>
    rw [List.length_append, List.length_replicate]
    omega
  | zeros hcount =>
    rw [List.length_append, List.length_replicate]
    omega
  | manyZeros hcount =>
    rw [List.length_append, List.length_replicate]
    omega

end LengthSymbol

/-- What symbols make of gathered lengths, one after another. -/
inductive Grow : List Nat → List LengthSymbol → List Nat → Prop
  | nil (gathered : List Nat) : Grow gathered [] gathered
  | cons {gathered gathered₁ gathered' : List Nat} {symbol : LengthSymbol}
      {symbols : List LengthSymbol} (hsymbol : LengthSymbol.Grows gathered symbol gathered₁)
      (hrest : Grow gathered₁ symbols gathered') : Grow gathered (symbol :: symbols) gathered'

variable {gathered gathered₁ gathered' : List Nat} {symbols symbols' : List LengthSymbol}

theorem Grow.append (h : Grow gathered symbols gathered₁) (h' : Grow gathered₁ symbols' gathered') :
    Grow gathered (symbols ++ symbols') gathered' := by
  induction h with
  | nil => exact h'
  | cons hsymbol _ ih => exact .cons hsymbol (ih h')

theorem Grow.single {symbol : LengthSymbol} (h : symbol.Grows gathered gathered') :
    Grow gathered [symbol] gathered' :=
  .cons h (.nil _)

theorem Grow.length_le (h : Grow gathered symbols gathered') :
    gathered.length + symbols.length ≤ gathered'.length := by
  induction h with
  | nil => exact le_refl _
  | cons hsymbol _ ih =>
    have hone := hsymbol.length_lt
    rw [List.length_cons]
    omega

theorem grow_replicate_length {value : Nat} (hvalue : value ≤ longestWord) (count : Nat)
    (gathered : List Nat) :
    Grow gathered (List.replicate count (.length value))
      (List.replicate count value ++ gathered) := by
  induction count generalizing gathered with
  | zero => exact .nil gathered
  | succ count ih =>
    have hshift : List.replicate (count + 1) value ++ gathered =
        List.replicate count value ++ value :: gathered := by
      rw [List.replicate_succ', List.append_assoc, List.singleton_append]
    rw [hshift, List.replicate_succ]
    exact .cons (.length hvalue) (ih _)

theorem replicate_append_replicate (value first more : Nat) (gathered : List Nat) :
    List.replicate more value ++ (List.replicate first value ++ gathered) =
      List.replicate (first + more) value ++ gathered := by
  rw [← List.append_assoc, ← List.replicate_add, Nat.add_comm more]

theorem grow_packZeros (count : Nat) (gathered : List Nat) :
    Grow gathered (packZeros count) (List.replicate count 0 ++ gathered) := by
  induction count using packZeros.induct generalizing gathered with
  | case1 count hmany ih =>
    have hall : List.replicate count 0 ++ gathered =
        List.replicate (count - 138) 0 ++ (List.replicate 138 0 ++ gathered) := by
      rw [replicate_append_replicate, Nat.add_sub_cancel' hmany]
    rw [packZeros, dif_pos hmany, hall]
    exact .cons (.manyZeros ⟨by omega, le_refl _⟩) (ih _)
  | case2 count hfew hcount =>
    rw [packZeros, dif_neg hfew, if_pos hcount]
    exact .single (.manyZeros ⟨hcount, by omega⟩)
  | case3 count hfew hfewer hcount =>
    rw [packZeros, dif_neg hfew, if_neg hfewer, if_pos hcount]
    exact .single (.zeros ⟨hcount, by omega⟩)
  | case4 count hfew hfewer hfewest =>
    rw [packZeros, dif_neg hfew, if_neg hfewer, if_neg hfewest]
    exact grow_replicate_length (Nat.zero_le _) count gathered

theorem grow_packAgain {value : Nat} (hvalue : value ≤ longestWord) {count : Nat}
    {gathered : List Nat} (hhead : gathered.head? = some value) :
    Grow gathered (packAgain value count) (List.replicate count value ++ gathered) := by
  induction count using packAgain.induct generalizing gathered with
  | case1 count hmany ih =>
    have hall : List.replicate count value ++ gathered =
        List.replicate (count - 6) value ++ (List.replicate 6 value ++ gathered) := by
      rw [replicate_append_replicate, Nat.add_sub_cancel' hmany]
    rw [packAgain, dif_pos hmany, hall]
    exact .cons (.again hhead ⟨by omega, le_refl _⟩) (ih rfl)
  | case2 count hfew hcount =>
    rw [packAgain, dif_neg hfew, if_pos hcount]
    exact .single (.again hhead ⟨hcount, by omega⟩)
  | case3 count hfew hfewer =>
    rw [packAgain, dif_neg hfew, if_neg hfewer]
    exact grow_replicate_length hvalue count gathered

theorem grow_packRun {value : Nat} (hvalue : value ≤ longestWord) (count : Nat)
    (gathered : List Nat) :
    Grow gathered (packRun (List.replicate count value))
      (List.replicate count value ++ gathered) := by
  cases count with
  | zero => exact .nil gathered
  | succ count =>
    cases value with
    | zero =>
      have hzeros := grow_packZeros (count + 1) gathered
      rw [List.replicate_succ, packRun, List.length_replicate]
      rwa [List.replicate_succ] at hzeros
    | succ value =>
      have hshift : List.replicate (count + 1) (value + 1) ++ gathered =
          List.replicate count (value + 1) ++ (value + 1) :: gathered := by
        rw [List.replicate_succ', List.append_assoc, List.singleton_append]
      rw [hshift, List.replicate_succ, packRun, List.length_replicate]
      · exact .cons (.length hvalue) (grow_packAgain hvalue rfl)
      · exact nofun

theorem eq_replicate_of_isChain {value : Nat} {rest : List Nat}
    (hchain : (value :: rest).IsChain fun n n' => (n == n') = true) :
    value :: rest = List.replicate (rest.length + 1) value := by
  induction rest with
  | nil => rfl
  | cons next rest ih =>
    obtain ⟨hsame, hrest⟩ := List.isChain_cons_cons.1 hchain
    obtain rfl : value = next := beq_iff_eq.1 hsame
    rw [List.length_cons, List.replicate_succ, ← ih hrest]

/-- A run of a list is one number, once or several times. -/
theorem exists_of_mem_splitBy {lengths run : List Nat} (hrun : run ∈ lengths.splitBy (· == ·)) :
    ∃ value count, run = List.replicate (count + 1) value ∧ value ∈ lengths := by
  obtain ⟨value, rest, rfl⟩ := List.exists_cons_of_ne_nil (List.ne_nil_of_mem_splitBy hrun)
  have hmem : value ∈ lengths := by
    rw [← List.flatten_splitBy (· == ·) lengths]
    exact List.mem_flatten.2 ⟨_, hrun, List.mem_cons_self⟩
  exact ⟨value, rest.length, eq_replicate_of_isChain (List.isChain_of_mem_splitBy hrun), hmem⟩

theorem grow_flatMap_packRun {runs : List (List Nat)}
    (hruns : ∀ run ∈ runs, ∃ value count, run = List.replicate (count + 1) value ∧
      value ≤ longestWord) (gathered : List Nat) :
    Grow gathered (runs.flatMap packRun) (runs.flatten.reverse ++ gathered) := by
  induction runs generalizing gathered with
  | nil => exact .nil gathered
  | cons run runs ih =>
    obtain ⟨value, count, rfl, hvalue⟩ := hruns run List.mem_cons_self
    have hrest := ih (fun run hrun => hruns run (List.mem_cons_of_mem _ hrun))
      (List.replicate (count + 1) value ++ gathered)
    rw [List.flatMap_cons, List.flatten_cons, List.reverse_append, List.reverse_replicate,
      List.append_assoc]
    exact (grow_packRun hvalue (count + 1) gathered).append hrest

/-- What is written for lengths makes them grow again. -/
theorem grow_packLengths {lengths : List Nat} (hlengths : ∀ n ∈ lengths, n ≤ longestWord) :
    Grow [] (packLengths lengths) lengths.reverse := by
  have hruns : ∀ run ∈ lengths.splitBy (· == ·),
      ∃ value count, run = List.replicate (count + 1) value ∧ value ≤ longestWord := by
    intro run hrun
    obtain ⟨value, count, hrun, hvalue⟩ := exists_of_mem_splitBy hrun
    exact ⟨value, count, hrun, hlengths value hvalue⟩
  have hgrow := grow_flatMap_packRun hruns []
  rw [List.flatten_splitBy, List.append_nil] at hgrow
  exact hgrow

/-! ## Reading lengths -/

theorem takes_readRange (range : Range) {n : Nat} (hleast : range.least ≤ n)
    (hmost : n < range.least + 2 ^ range.extraBits) :
    Takes (readRange range) (lowBits range.extraBits (n - range.least)) (Prod.mk n) := by
  intro s rest h
  have hnumber : n - range.least < 2 ^ range.extraBits := by omega
  obtain ⟨s', hread, hs'⟩ := takes_readNumber hnumber h
  refine ⟨s', ?_, hs'⟩
  rw [readRange, hread]
  dsimp only
  rw [Nat.add_sub_cancel' hleast]

section

variable {tree : Tree} {total fuel : Nat} {symbol : LengthSymbol}

/-- A reader of lengths that has not gathered all of them takes the next symbol. -/
theorem takes_readLengths_symbol {word bits : List Bool} {made : BitSource → List Nat × BitSource}
    (hsymbol : symbol.Grows gathered gathered₁) (hroom : gathered.length < total)
    (hword : Takes (decodeSymbol tree) word (Prod.mk symbol.number))
    (hrest : Takes (readLengths tree total fuel gathered₁) bits made) :
    Takes (readLengths tree total (fuel + 1) gathered) (word ++ symbol.extraBits ++ bits) made := by
  have hnotDone : gathered.length ≠ total := hroom.ne
  have hnotOver : ¬ total < gathered.length := hroom.not_gt
  rw [readLengths_succ, List.append_assoc]
  simp only [if_neg hnotDone, if_neg hnotOver]
  refine hword.andThen ?_
  cases hsymbol with
  | @length value hvalue =>
    have hlength : value < 16 := Nat.lt_succ_of_le hvalue
    simp only [LengthSymbol.number, hlength, if_true]
    exact hrest
  | @again value count hhead hcount =>
    have hrepeated : repeated gathered 16 = (some value, ⟨3, 2⟩) := by
      rw [repeated, if_pos rfl, hhead]
    simp only [LengthSymbol.number, hrepeated, show ¬ 16 < 16 by omega, if_false]
    exact (takes_readRange ⟨3, 2⟩ hcount.1 (by dsimp only; omega)).andThen hrest
  | zeros hcount =>
    have hrepeated : repeated gathered 17 = (some 0, ⟨3, 3⟩) := rfl
    simp only [LengthSymbol.number, hrepeated, show ¬ 17 < 16 by omega, if_false]
    exact (takes_readRange ⟨3, 3⟩ hcount.1 (by dsimp only; omega)).andThen hrest
  | manyZeros hcount =>
    have hrepeated : repeated gathered 18 = (some 0, ⟨11, 7⟩) := rfl
    simp only [LengthSymbol.number, hrepeated, show ¬ 18 < 16 by omega, if_false]
    exact (takes_readRange ⟨11, 7⟩ hcount.1 (by dsimp only; omega)).andThen hrest

/-- The reader of lengths gathers what their symbols make grow. -/
theorem takes_readLengths {word : Nat → List Bool} (hgrow : Grow gathered symbols gathered')
    (htotal : gathered'.length = total) (hfuel : symbols.length < fuel)
    (hwords : ∀ symbol ∈ symbols,
      Takes (decodeSymbol tree) (word symbol.number) (Prod.mk symbol.number)) :
    Takes (readLengths tree total fuel gathered)
      (symbols.flatMap fun symbol => word symbol.number ++ symbol.extraBits)
      (Prod.mk gathered'.reverse) := by
  induction hgrow generalizing fuel with
  | nil gathered =>
    obtain ⟨fuel, rfl⟩ := Nat.exists_eq_succ_of_ne_zero (Nat.ne_zero_of_lt hfuel)
    rw [readLengths_succ]
    simp only [if_pos htotal]
    exact .nothing _
  | cons hsymbol hrest ih =>
    obtain ⟨fuel, rfl⟩ := Nat.exists_eq_succ_of_ne_zero (Nat.ne_zero_of_lt hfuel)
    rw [List.length_cons] at hfuel
    have hroom := hsymbol.length_lt
    have hmore := hrest.length_le
    have hhead := hwords _ List.mem_cons_self
    have htail := ih htotal (Nat.lt_of_succ_lt_succ hfuel)
      fun symbol h => hwords symbol (List.mem_cons_of_mem _ h)
    rw [List.flatMap_cons]
    exact takes_readLengths_symbol hsymbol (by omega) hhead htail

end

/-! ## The code for lengths -/

theorem takes_readTriples {numbers : List Nat} (hnumbers : ∀ n ∈ numbers, n < 8) :
    Takes (readTriples numbers.length) (numbers.flatMap (lowBits 3)) (Prod.mk numbers) := by
  induction numbers with
  | nil => exact .nothing _
  | cons n numbers ih =>
    have hrest := ih fun n h => hnumbers n (List.mem_cons_of_mem _ h)
    rw [List.flatMap_cons, List.length_cons]
    refine (takes_readNumber (hnumbers n List.mem_cons_self)).andThen ?_
    dsimp only
    exact hrest.map fun _ => rfl

/-- A number in front of which the zeros at the end were left out is found again. -/
theorem lookup_zip_take {order : List Nat} (f : Nat → Nat) {count symbol : Nat}
    (hsymbol : symbol ∈ order) (hzeros : ∀ n ∈ (order.map f).drop count, n = 0) :
    ((order.zip ((order.map f).take count)).lookup symbol).getD 0 = f symbol := by
  induction order generalizing count with
  | nil => cases hsymbol
  | cons first order ih =>
    cases count with
    | zero =>
      rw [List.take_zero, List.zip_nil_right]
      exact (hzeros _ (List.mem_map_of_mem hsymbol)).symm
    | succ count =>
      rw [List.map_cons, List.take_succ_cons, List.zip_cons_cons, List.lookup_cons]
      by_cases hfirst : symbol = first
      · rw [hfirst, beq_self_eq_true]
        rfl
      · rw [beq_false_of_ne hfirst]
        exact ih ((List.mem_cons.1 hsymbol).resolve_left hfirst) hzeros

theorem LengthSymbol.Grows.number_lt {symbol : LengthSymbol} (h : symbol.Grows gathered gathered') :
    symbol.number < 19 := by
  cases h with
  | length hvalue => exact hvalue.trans_lt (by decide)
  | again => exact show 16 < 19 by omega
  | zeros => exact show 17 < 19 by omega
  | manyZeros => exact show 18 < 19 by omega

theorem Grow.number_lt (h : Grow gathered symbols gathered') :
    ∀ symbol ∈ symbols, symbol.number < 19 := by
  induction h with
  | nil => exact nofun
  | cons hsymbol _ ih =>
    intro symbol h
    rcases List.mem_cons.1 h with rfl | h
    · exact hsymbol.number_lt
    · exact ih symbol h

/-- The lengths of the words that lengths are written in. -/
def lengthCode (symbols : List LengthSymbol) : List Nat :=
  wordLengths 7 (countSymbols 19 (symbols.map LengthSymbol.number))

theorem holds_lengthCode (symbols : List LengthSymbol) :
    Holds 7 (countSymbols 19 (symbols.map LengthSymbol.number)) :=
  holds_of_length_le (by decide) (by rw [length_countSymbols]; decide)

theorem length_lengthCode (symbols : List LengthSymbol) : (lengthCode symbols).length = 19 := by
  rw [lengthCode, (holds_lengthCode symbols).wordLengths_spec.1, length_countSymbols]

theorem getD_lengthCode_le (symbols : List LengthSymbol) (n : Nat) :
    (lengthCode symbols).getD n 0 ≤ 7 := by
  by_cases hn : n < (lengthCode symbols).length
  · rw [List.getD_eq_getElem _ _ hn]
    exact (holds_lengthCode symbols).wordLengths_le _ (List.getElem_mem hn)
  · rw [List.getD_eq_default _ _ (Nat.le_of_not_lt hn)]
    exact Nat.zero_le _

theorem takes_wordIn_lengthCode (hgrow : Grow gathered symbols gathered') :
    ∀ symbol ∈ symbols, Takes (decodeSymbol (.ofLengths (lengthCode symbols)))
      (wordIn (wordTable (lengthCode symbols)) symbol.number) (Prod.mk symbol.number) := by
  intro symbol hsymbol
  have hcounted := getD_countSymbols_ne_zero (hgrow.number_lt symbol hsymbol)
    (List.mem_map_of_mem hsymbol)
  have hholds := holds_lengthCode symbols
  exact (hholds.isCode (by decide)).takes_wordIn (hholds.wordLengths_spec.2.2 _ hcounted)

theorem isComplete_lengthCode (hgrow : Grow gathered symbols gathered')
    {symbol symbol' : LengthSymbol} (hsymbol : symbol ∈ symbols) (hsymbol' : symbol' ∈ symbols)
    (hne : symbol.number ≠ symbol'.number) : isComplete (lengthCode symbols) = true := by
  have hcounted := getD_countSymbols_ne_zero (hgrow.number_lt symbol hsymbol)
    (List.mem_map_of_mem hsymbol)
  have hcounted' := getD_countSymbols_ne_zero (hgrow.number_lt symbol' hsymbol')
    (List.mem_map_of_mem hsymbol')
  have hfull := (holds_lengthCode symbols).coverage_wordLengths (by decide)
    (two_le_length_rarestFirst hne hcounted hcounted')
  rw [isComplete, lengthCode, hfull]
  decide

/-! ### Two symbols -/

theorem exists_mem_packZeros (count : Nat) :
    ∃ symbol ∈ packZeros (count + 1), symbol.number = 0 ∨ longestWord < symbol.number := by
  rw [packZeros]
  split
  · exact ⟨_, List.mem_cons_self, .inr (show 15 < 18 by omega)⟩
  split
  · exact ⟨_, List.mem_cons_self, .inr (show 15 < 18 by omega)⟩
  split
  · exact ⟨_, List.mem_cons_self, .inr (show 15 < 17 by omega)⟩
  · rw [List.replicate_succ]
    exact ⟨_, List.mem_cons_self, .inl rfl⟩

/-- Every length that is written has a symbol of its own, unless it is zero. -/
theorem exists_mem_packLengths {lengths : List Nat} {value : Nat} (hvalue : value ∈ lengths) :
    ∃ symbol ∈ packLengths lengths,
      symbol.number = value ∨ value = 0 ∧ longestWord < symbol.number := by
  rw [← List.flatten_splitBy (· == ·) lengths] at hvalue
  obtain ⟨run, hrun, hvalue⟩ := List.mem_flatten.1 hvalue
  obtain ⟨value', count, rfl, -⟩ := exists_of_mem_splitBy hrun
  obtain rfl := List.eq_of_mem_replicate hvalue
  have hpacked : ∃ symbol ∈ packRun (List.replicate (count + 1) value),
      symbol.number = value ∨ value = 0 ∧ longestWord < symbol.number := by
    cases value with
    | zero =>
      rw [List.replicate_succ, packRun, List.length_replicate]
      obtain ⟨symbol, hsymbol, hnumber⟩ := exists_mem_packZeros count
      exact ⟨symbol, hsymbol, hnumber.imp_right fun h => ⟨rfl, h⟩⟩
    | succ value =>
      rw [List.replicate_succ, packRun]
      · exact ⟨_, List.mem_cons_self, .inl rfl⟩
      · exact nofun
  obtain ⟨symbol, hsymbol, hnumber⟩ := hpacked
  exact ⟨symbol, List.mem_flatMap.2 ⟨_, hrun, hsymbol⟩, hnumber⟩

/-- One length many times is written in two symbols. -/
theorem exists_again_mem_packLengths {value count : Nat} (hvalue : value ≠ 0) (hcount : 7 ≤ count) :
    ∃ symbol ∈ packLengths (List.replicate count value), symbol.number = 16 := by
  have hchain : (List.replicate count value).IsChain fun n n' => (n == n') = true :=
    List.isChain_replicate_of_rel count (beq_self_eq_true value)
  have hsome : List.replicate count value ≠ [] := by
    rw [Ne, List.replicate_eq_nil_iff]
    omega
  obtain ⟨value, rfl⟩ := Nat.exists_eq_succ_of_ne_zero hvalue
  obtain ⟨more, rfl⟩ := Nat.exists_eq_add_of_le hcount
  have hmany : 6 ≤ 6 + more := Nat.le_add_right 6 more
  rw [packLengths, List.splitBy_of_isChain hsome hchain, List.flatMap_singleton,
    show 7 + more = 6 + more + 1 by omega, List.replicate_succ, packRun, List.length_replicate,
    packAgain, dif_pos hmany]
  · exact ⟨.again 6, List.mem_cons_of_mem _ List.mem_cons_self, rfl⟩
  · exact nofun

/-- Lengths of which one is not zero are written in two symbols, if there are some. -/
theorem exists_two_symbols {lengths : List Nat} (hlengths : ∀ n ∈ lengths, n ≤ longestWord)
    {value : Nat} (hmem : value ∈ lengths) (hvalue : value ≠ 0) (hlength : 7 ≤ lengths.length) :
    ∃ symbol ∈ packLengths lengths, ∃ symbol' ∈ packLengths lengths,
      symbol.number ≠ symbol'.number := by
  obtain ⟨symbol, hsymbol, hnumber⟩ := exists_mem_packLengths hmem
  have hsame : symbol.number = value := hnumber.resolve_right fun h => hvalue h.1
  have hle := hlengths value hmem
  by_cases hall : ∀ n ∈ lengths, n = value
  · rw [List.eq_replicate_of_mem hall] at hsymbol ⊢
    obtain ⟨symbol', hsymbol', hnumber'⟩ := exists_again_mem_packLengths hvalue hlength
    refine ⟨symbol, hsymbol, symbol', hsymbol', ?_⟩
    unfold longestWord at hle
    omega
  · push Not at hall
    obtain ⟨other, hother, hne⟩ := hall
    obtain ⟨symbol', hsymbol', hnumber'⟩ := exists_mem_packLengths hother
    refine ⟨symbol, hsymbol, symbol', hsymbol', ?_⟩
    omega

/-! ## Two codes in front of a block -/

/-- The lengths of two codes that can stand in front of a block. -/
structure FrontLengths (literals distances : List Nat) : Prop where
  literalCount : 257 ≤ literals.length ∧ literals.length ≤ 286
  distanceCount : 1 ≤ distances.length ∧ distances.length ≤ 30
  literalsUsable : isUsable literals = true
  distancesUsable : isUsable distances = true
  le : ∀ n ∈ literals ++ distances, n ≤ longestWord
  /-- There is a word for the end of the block. -/
  blockEnd : literals.getD endOfBlock 0 ≠ 0

theorem lookup_lengthCode (symbols : List LengthSymbol) {count : Nat}
    (hcount : (trimmed (lengthCodeOrder.map fun n => (lengthCode symbols).getD n 0)).length ≤
      count) :
    (List.range 19).map (fun n => ((lengthCodeOrder.zip
      ((lengthCodeOrder.map fun n => (lengthCode symbols).getD n 0).take count)).lookup n).getD
        0) = lengthCode symbols := by
  have hzeros : ∀ n ∈ (lengthCodeOrder.map fun n => (lengthCode symbols).getD n 0).drop count,
      n = 0 := by
    intro n hn
    obtain ⟨zeros, hsplit⟩ := exists_eq_trimmed_append
      (lengthCodeOrder.map fun n => (lengthCode symbols).getD n 0)
    rw [hsplit, List.drop_append, List.drop_of_length_le hcount, List.nil_append] at hn
    exact List.eq_of_mem_replicate (List.mem_of_mem_drop hn)
  have hall : ∀ n ∈ List.range 19, n ∈ lengthCodeOrder := by decide
  rw [List.map_congr_left fun n hn => lookup_zip_take _ (hall n hn) hzeros]
  apply List.ext_getElem
  · rw [List.length_map, List.length_range, length_lengthCode]
  · intro i hi hi'
    rw [List.getElem_map, List.getElem_range, List.getD_eq_getElem _ _ hi']

variable {literals distances : List Nat}

/-- The code for lengths is complete, since there are two symbols at least. -/
theorem FrontLengths.isComplete (h : FrontLengths literals distances) :
    isComplete (lengthCode (packLengths (literals ++ distances))) = true := by
  have hplace := lt_length_of_getD_ne_zero h.blockEnd
  have hmem : literals.getD endOfBlock 0 ∈ literals ++ distances := by
    rw [List.getD_eq_getElem _ _ hplace]
    exact List.mem_append_left _ (List.getElem_mem hplace)
  have hseveral : 7 ≤ (literals ++ distances).length := by
    have hleast := h.literalCount.1
    rw [List.length_append]
    omega
  obtain ⟨symbol, hsymbol, symbol', hsymbol', hne⟩ :=
    exists_two_symbols h.le hmem h.blockEnd hseveral
  exact isComplete_lengthCode (grow_packLengths h.le) hsymbol hsymbol' hne

/-- Behind the code for lengths, both lists of lengths are read as one. -/
theorem FrontLengths.takes_readLengths (h : FrontLengths literals distances) :
    Takes (readLengths (.ofLengths (lengthCode (packLengths (literals ++ distances))))
        (literals.length + distances.length) (literals.length + distances.length + 1) [])
      ((packLengths (literals ++ distances)).flatMap fun symbol =>
        wordIn (wordTable (lengthCode (packLengths (literals ++ distances)))) symbol.number ++
          symbol.extraBits)
      (Prod.mk (literals ++ distances)) := by
  have hgrow : Grow [] (packLengths (literals ++ distances)) (literals ++ distances).reverse :=
    grow_packLengths h.le
  have htotal := hgrow.length_le
  rw [List.length_reverse, List.length_append, List.length_nil] at htotal
  have hall := Deflate.takes_readLengths hgrow
    (show _ = literals.length + distances.length by rw [List.length_reverse, List.length_append])
    (show _ < literals.length + distances.length + 1 by omega) (takes_wordIn_lengthCode hgrow)
  rwa [List.reverse_reverse] at hall

theorem FrontLengths.takes_readTrees (h : FrontLengths literals distances) :
    Takes readTrees (codeBits literals distances)
      fun s => (.ofLengths literals, .ofLengths distances, s) := by
  obtain ⟨hleast, hmost⟩ := h.literalCount
  obtain ⟨hleast', hmost'⟩ := h.distanceCount
  let symbols := packLengths (literals ++ distances)
  let ordered := lengthCodeOrder.map fun n => (lengthCode symbols).getD n 0
  let count := max 4 (trimmed ordered).length
  have hordered : ordered.length = 19 := List.length_map _
  have hcountLe : count ≤ 19 :=
    Nat.max_le.2 ⟨by decide, (length_trimmed_le ordered).trans hordered.le⟩
  have hfour : 4 ≤ count := Nat.le_max_left 4 _
  have htriples : ∀ n ∈ ordered.take count, n < 8 := by
    intro n hn
    obtain ⟨place, -, rfl⟩ := List.mem_map.1 (List.mem_of_mem_take hn)
    exact Nat.lt_succ_of_le (getD_lengthCode_le symbols place)
  have hcode : (List.range 19).map (fun n =>
      ((lengthCodeOrder.zip (ordered.take count)).lookup n).getD 0) = lengthCode symbols :=
    lookup_lengthCode symbols (Nat.le_max_right 4 (trimmed ordered).length)
  have hcomplete : Deflate.isComplete (lengthCode symbols) = true := h.isComplete
  have hbits : codeBits literals distances =
      lowBits 5 (literals.length - 257) ++ (lowBits 5 (distances.length - 1) ++
        (lowBits 4 (count - 4) ++ ((ordered.take count).flatMap (lowBits 3) ++
          symbols.flatMap fun symbol =>
            wordIn (wordTable (lengthCode symbols)) symbol.number ++ symbol.extraBits))) := by
    rw [← List.append_assoc, ← List.append_assoc, ← List.append_assoc]
    rfl
  have hliteralCount : literals.length - 257 + 257 = literals.length := Nat.sub_add_cancel hleast
  have hdistanceCount : distances.length - 1 + 1 = distances.length := Nat.sub_add_cancel hleast'
  have horderCount : count - 4 + 4 = (ordered.take count).length := by
    rw [List.length_take]
    omega
  have hcounts : (decide (286 < literals.length) || decide (30 < distances.length)) = false := by
    simp
    omega
  rw [hbits]
  refine (takes_readNumber (show literals.length - 257 < 2 ^ 5 by omega)).andThen ?_
  refine (takes_readNumber (show distances.length - 1 < 2 ^ 5 by omega)).andThen ?_
  refine (takes_readNumber (show count - 4 < 2 ^ 4 by omega)).andThen ?_
  dsimp only
  simp only [hliteralCount, hdistanceCount, horderCount, hcounts]
  refine (takes_readTriples htriples).andThen ?_
  dsimp only
  simp only [hcode, hcomplete]
  refine h.takes_readLengths.map fun s => ?_
  simp only [List.take_left, List.drop_left, h.literalsUsable, h.distancesUsable]
  rfl

end Courier.Deflate
