import Courier.Proofs.Tallies
/-!
# Lengths that fill a code

Every symbol that occurs is given a length, and the words of these lengths fill their code to the
last one (`Holds.coverage_wordLengths`), unless there is one symbol only.  So the lengths are those
of a code, and one that a decoder can use.
-/

namespace Courier.Deflate

/-! ## Lengths handed out -/

namespace Tally

theorem lengths_eq {limit : Nat} {counts : List Nat} (hlength : counts.length = limit) :
    lengths limit counts = (counts.zip (List.range' 0 counts.length)).flatMap
      fun e => List.replicate e.1 (limit - e.2) := by
  rw [lengths, List.range_eq_range', hlength]

theorem length_handedOut (limit first : Nat) (counts : List Nat) :
    ((counts.zip (List.range' first counts.length)).flatMap
      fun e => List.replicate e.1 (limit - e.2)).length = counts.sum := by
  induction counts generalizing first with
  | nil => rfl
  | cons count counts ih =>
    rw [List.length_cons, List.range'_succ, List.zip_cons_cons, List.flatMap_cons,
      List.length_append, ih, List.length_replicate, List.sum_cons]

theorem share_handedOut {limit first : Nat} {counts : List Nat}
    (hlimit : first + counts.length ≤ limit) :
    (((counts.zip (List.range' first counts.length)).flatMap
      fun e => List.replicate e.1 (limit - e.2)).map fun length => 2 ^ (limit - length)).sum =
        share (2 ^ first) counts := by
  induction counts generalizing first with
  | nil => rfl
  | cons count counts ih =>
    rw [List.length_cons] at hlimit
    rw [List.length_cons, List.range'_succ, List.zip_cons_cons, List.flatMap_cons,
      List.map_append, List.sum_append, ih (by omega), List.map_replicate, List.sum_replicate,
      share, smul_eq_mul, Nat.sub_sub_self (by omega), pow_succ']

theorem mem_handedOut {limit first length : Nat} {counts : List Nat}
    (hlimit : first + counts.length ≤ limit)
    (h : length ∈ (counts.zip (List.range' first counts.length)).flatMap
      fun e => List.replicate e.1 (limit - e.2)) : 1 ≤ length ∧ length ≤ limit := by
  obtain ⟨⟨count, place⟩, he, hlength⟩ := List.mem_flatMap.1 h
  have hplace := List.mem_range'_1.1 (List.of_mem_zip he).2
  obtain rfl := List.eq_of_mem_replicate hlength
  dsimp only at hplace ⊢
  omega

end Tally

variable {limit : Nat} {counts : List Nat}

/-- The symbols that occur, the rarest first, with how often they do. -/
def rarestFirst (counts : List Nat) : List (Nat × Nat) :=
  (counts.zipIdx.filter fun e => e.1 ≠ 0).mergeSort fun a b => a.1 ≤ b.1

/-- The lengths that are handed out to the symbols that occur. -/
def handedOut (limit : Nat) (counts : List Nat) : List Nat :=
  if (rarestFirst counts).length ≤ 1 then [1]
  else
    Tally.lengths limit (Tally.fit limit (tally limit
      (mergedDepths (rarestFirst counts).length
        ((rarestFirst counts).map fun e => (⟨e.1, [0]⟩ : Node)) [])))

theorem wordLengths_eq (limit : Nat) (counts : List Nat) :
    wordLengths limit counts = ((rarestFirst counts).zip (handedOut limit counts)).foldl
      (fun out e => out.set e.1.2 e.2) (List.replicate counts.length 0) :=
  rfl

/-- Every symbol that occurs is a tree of one word at first. -/
theorem areTrees_leaves (used : List (Nat × Nat)) :
    AreTrees ((used.map fun e => (⟨e.1, [0]⟩ : Node)) ++ []) used.length where
  trees node hnode := by
    rw [List.append_nil] at hnode
    obtain ⟨e, -, rfl⟩ := List.mem_map.1 hnode
    norm_num [Node.IsTree, shares]
  words := by
    rw [List.append_nil, List.map_map]
    simp [Function.comp_def]

/-- Where several symbols occur, their words take up all the room there is. -/
theorem handedOut_of_several (hlimit : 0 < limit)
    (hseveral : 2 ≤ (rarestFirst counts).length)
    (hroom : (rarestFirst counts).length ≤ 2 ^ limit) :
    (handedOut limit counts).length = (rarestFirst counts).length ∧
      ((handedOut limit counts).map fun length => 2 ^ (limit - length)).sum = 2 ^ limit ∧
      ∀ length ∈ handedOut limit counts, 1 ≤ length ∧ length ≤ limit := by
  let leaves := (rarestFirst counts).map fun e => (⟨e.1, [0]⟩ : Node)
  have hleaves : (leaves ++ []).length = (rarestFirst counts).length := by
    rw [List.append_nil, List.length_map]
  have hsome : leaves ++ [] ≠ [] := List.ne_nil_of_length_pos (by omega)
  obtain ⟨hshares, hlength⟩ := mergedDepths_spec hsome hleaves.le (areTrees_leaves _)
  obtain ⟨excess, hexceeds⟩ := exceeds_tally hlimit hshares (by omega)
  have hfit := hexceeds.fit (by omega)
  have heq : handedOut limit counts = Tally.lengths limit (Tally.fit limit (tally limit
      (mergedDepths (rarestFirst counts).length leaves []))) := if_neg (by omega)
  have hplaces := hfit.length
  rw [heq, Tally.lengths_eq hplaces, Tally.length_handedOut, Tally.share_handedOut (by omega),
    hfit.sum, pow_zero, hfit.share]
  exact ⟨hlength, rfl, fun length h => Tally.mem_handedOut (by omega) h⟩

/-! ## Lengths of symbols -/

theorem filter_set_perm {out : List Nat} {symbol length : Nat} (hout : out[symbol]? = some 0)
    (hlength : length ≠ 0) :
    ((out.set symbol length).filter (· ≠ 0)).Perm (length :: out.filter (· ≠ 0)) := by
  induction out generalizing symbol with
  | nil => cases hout
  | cons first out ih =>
    cases symbol with
    | zero =>
      cases hout
      rw [List.set_cons_zero, List.filter_cons_of_pos (by simpa using hlength),
        List.filter_cons_of_neg (by simp)]
    | succ symbol =>
      rw [List.getElem?_cons_succ] at hout
      rw [List.set_cons_succ]
      by_cases hfirst : first = 0
      · rw [List.filter_cons_of_neg (by simpa using hfirst),
          List.filter_cons_of_neg (by simpa using hfirst)]
        exact ih hout
      · rw [List.filter_cons_of_pos (by simpa using hfirst),
          List.filter_cons_of_pos (by simpa using hfirst)]
        exact ((ih hout).cons first).trans (.swap _ _ _)

/-- What is entered in places of their own stands there, and changes nothing else. -/
theorem foldl_set_spec {entries : List ((Nat × Nat) × Nat)} {out : List Nat}
    (hnodup : (entries.map (·.1.2)).Nodup) (hout : ∀ e ∈ entries, out[e.1.2]? = some 0)
    (hentries : ∀ e ∈ entries, e.2 ≠ 0) :
    (entries.foldl (fun out e => out.set e.1.2 e.2) out).length = out.length ∧
      ((entries.foldl (fun out e => out.set e.1.2 e.2) out).filter (· ≠ 0)).Perm
        (entries.map (·.2) ++ out.filter (· ≠ 0)) ∧
      (∀ symbol ∉ entries.map (·.1.2),
        (entries.foldl (fun out e => out.set e.1.2 e.2) out)[symbol]? = out[symbol]?) ∧
      ∀ e ∈ entries, (entries.foldl (fun out e => out.set e.1.2 e.2) out)[e.1.2]? = some e.2 := by
  induction entries generalizing out with
  | nil => exact ⟨rfl, .refl _, fun _ _ => rfl, nofun⟩
  | cons e entries ih =>
    obtain ⟨hhead, htail⟩ := List.nodup_cons.1 hnodup
    have hfree := hout e List.mem_cons_self
    have hrest : ∀ e' ∈ entries, (out.set e.1.2 e.2)[e'.1.2]? = some 0 := by
      intro e' he'
      have hne : e.1.2 ≠ e'.1.2 := fun hsame => hhead (List.mem_map.2 ⟨e', he', hsame.symm⟩)
      rw [List.getElem?_set_ne hne]
      exact hout e' (List.mem_cons_of_mem _ he')
    obtain ⟨hlength, hperm, hothers, hthese⟩ :=
      ih htail hrest fun e' he' => hentries e' (List.mem_cons_of_mem _ he')
    rw [List.foldl_cons]
    refine ⟨?_, ?_, ?_, ?_⟩
    · rw [hlength, List.length_set]
    · have hset := filter_set_perm hfree (hentries e List.mem_cons_self)
      exact (hperm.trans (hset.append_left _)).trans List.perm_middle
    · intro symbol hsymbol
      rw [hothers symbol (List.not_mem_of_not_mem_cons hsymbol),
        List.getElem?_set_ne (List.ne_of_not_mem_cons hsymbol).symm]
    · intro e' he'
      rcases List.mem_cons.1 he' with rfl | he'
      · rw [hothers _ hhead, List.getElem?_set_self]
        exact (List.getElem?_eq_some_iff.1 hfree).1
      · exact hthese e' he'

theorem mem_rarestFirst_iff {count symbol : Nat} :
    (count, symbol) ∈ rarestFirst counts ↔ counts[symbol]? = some count ∧ count ≠ 0 := by
  rw [rarestFirst, List.mem_mergeSort, List.mem_filter, List.mem_zipIdx_iff_getElem?]
  simp

theorem nodup_rarestFirst (counts : List Nat) : ((rarestFirst counts).map (·.2)).Nodup := by
  have hperm := (List.mergeSort_perm (counts.zipIdx.filter fun e => e.1 ≠ 0)
    fun a b => decide (a.1 ≤ b.1)).map (·.2)
  rw [rarestFirst, hperm.nodup_iff]
  have hall : (counts.zipIdx.map (·.2)).Nodup := by
    rw [List.zipIdx_map_snd]
    exact List.nodup_range'
  exact hall.sublist (List.filter_sublist.map _)

/-- There are no more words than the limit allows, so that one can be given to every symbol. -/
structure Holds (limit : Nat) (counts : List Nat) : Prop where
  pos : 0 < limit
  room : (rarestFirst counts).length ≤ 2 ^ limit

theorem mem_rarestFirst_of_getD {symbol : Nat} (hsymbol : counts.getD symbol 0 ≠ 0) :
    (counts.getD symbol 0, symbol) ∈ rarestFirst counts := by
  refine mem_rarestFirst_iff.2 ⟨?_, hsymbol⟩
  rw [List.getD_eq_getElem?_getD] at hsymbol ⊢
  cases hcount : counts[symbol]? with
  | none =>
    rw [hcount] at hsymbol
    exact absurd rfl hsymbol
  | some count => rfl

theorem Holds.length_le (h : Holds limit counts) :
    (rarestFirst counts).length ≤ (handedOut limit counts).length := by
  by_cases hseveral : 2 ≤ (rarestFirst counts).length
  · exact (handedOut_of_several h.pos hseveral h.room).1.ge
  · rw [handedOut, if_pos (by omega), List.length_singleton]
    omega

theorem Holds.bounds (h : Holds limit counts) :
    ∀ length ∈ handedOut limit counts, 1 ≤ length ∧ length ≤ limit := by
  intro length hlength
  by_cases hseveral : 2 ≤ (rarestFirst counts).length
  · exact (handedOut_of_several h.pos hseveral h.room).2.2 length hlength
  · rw [handedOut, if_pos (by omega), List.mem_singleton] at hlength
    rw [hlength]
    exact ⟨le_refl 1, h.pos⟩

theorem Holds.wordLengths_spec (h : Holds limit counts) :
    (wordLengths limit counts).length = counts.length ∧
      ((wordLengths limit counts).filter (· ≠ 0)).Perm
        ((handedOut limit counts).take (rarestFirst counts).length) ∧
      ∀ symbol, counts.getD symbol 0 ≠ 0 → (wordLengths limit counts).getD symbol 0 ≠ 0 := by
  have hfst : ((rarestFirst counts).zip (handedOut limit counts)).map (·.1) = rarestFirst counts :=
    List.map_fst_zip h.length_le
  have hsnd : ((rarestFirst counts).zip (handedOut limit counts)).map (·.2) =
      (handedOut limit counts).take (rarestFirst counts).length := by
    rw [List.zip_eq_zip_take_min, Nat.min_eq_left h.length_le, List.take_length]
    apply List.map_snd_zip
    rw [List.length_take]
    exact Nat.min_le_left _ _
  have hsymbols : ((rarestFirst counts).zip (handedOut limit counts)).map (·.1.2) =
      (rarestFirst counts).map (·.2) := by
    rw [← hfst, List.map_map]
    simp only [hfst]
    rfl
  have hfree : ∀ e ∈ (rarestFirst counts).zip (handedOut limit counts),
      (List.replicate counts.length 0)[e.1.2]? = some 0 := by
    rintro ⟨⟨count, symbol⟩, length⟩ he
    have hcount := (mem_rarestFirst_iff.1 (List.of_mem_zip he).1).1
    have hsymbol := (List.getElem?_eq_some_iff.1 hcount).1
    exact List.getElem?_replicate_of_lt hsymbol
  have hpos : ∀ e ∈ (rarestFirst counts).zip (handedOut limit counts), e.2 ≠ 0 := by
    rintro ⟨⟨count, symbol⟩, length⟩ he
    have hbounds := h.bounds length (List.of_mem_zip he).2
    dsimp only
    omega
  obtain ⟨hlength, hperm, -, hthese⟩ :=
    foldl_set_spec (by rw [hsymbols]; exact nodup_rarestFirst counts) hfree hpos
  rw [← wordLengths_eq] at hlength hperm hthese
  refine ⟨by rw [hlength, List.length_replicate], ?_, ?_⟩
  · have hzeros : (List.replicate counts.length 0).filter (· ≠ 0) = [] := by simp
    rw [hzeros, List.append_nil, hsnd] at hperm
    exact hperm
  · intro symbol hsymbol
    have hused := mem_rarestFirst_of_getD hsymbol
    rw [← hfst] at hused
    obtain ⟨⟨⟨count, _⟩, length⟩, he, hsame⟩ := List.mem_map.1 hused
    obtain ⟨-, rfl⟩ := Prod.mk.inj hsame
    rw [List.getD_eq_getElem?_getD, hthese _ he]
    exact hpos _ he

theorem coverage_eq (lengths : List Nat) :
    coverage lengths =
      ((lengths.filter (· ≠ 0)).map fun length => 2 ^ (longestWord - length)).sum := by
  simp only [coverage, Nat.one_shiftLeft]
  rfl

/-- The words of the lengths that were given fill their code, unless there is one word or none. -/
theorem Holds.coverage_wordLengths (h : Holds limit counts) (hlimit : limit ≤ longestWord)
    (hseveral : 2 ≤ (rarestFirst counts).length) :
    coverage (wordLengths limit counts) = 2 ^ longestWord := by
  obtain ⟨-, hperm, -⟩ := h.wordLengths_spec
  obtain ⟨hlength, hshare, hbounds⟩ := handedOut_of_several h.pos hseveral h.room
  rw [← hlength, List.take_length] at hperm
  have hscale : ∀ length ∈ handedOut limit counts,
      2 ^ (longestWord - length) = 2 ^ (longestWord - limit) * 2 ^ (limit - length) := by
    intro length h
    have hbound := (hbounds length h).2
    rw [← Nat.pow_add]
    congr 1
    omega
  rw [coverage_eq, (hperm.map _).sum_eq, List.map_congr_left hscale, List.sum_map_mul_left, hshare,
    ← Nat.pow_add, Nat.sub_add_cancel hlimit]

theorem Holds.filter_wordLengths_of_few (h : Holds limit counts)
    (hfew : (rarestFirst counts).length ≤ 1) :
    (wordLengths limit counts).filter (· ≠ 0) = [] ∨
      (wordLengths limit counts).filter (· ≠ 0) = [1] := by
  obtain ⟨-, hperm, -⟩ := h.wordLengths_spec
  rw [handedOut, if_pos hfew] at hperm
  rcases Nat.le_one_iff_eq_zero_or_eq_one.1 hfew with hnone | hone
  · rw [hnone] at hperm
    exact .inl hperm.eq_nil
  · rw [hone] at hperm
    exact .inr (List.perm_singleton.1 hperm)

theorem isUsable_of_filter {lengths lengths' : List Nat}
    (h : lengths.filter (· ≠ 0) = lengths'.filter (· ≠ 0)) :
    isUsable lengths = isUsable lengths' := by
  rw [isUsable, isUsable, isComplete, isComplete, coverage, coverage, h]

theorem Holds.isUsable (h : Holds limit counts) (hlimit : limit ≤ longestWord) :
    isUsable (wordLengths limit counts) = true := by
  by_cases hseveral : 2 ≤ (rarestFirst counts).length
  · have hcomplete : isComplete (wordLengths limit counts) = true := by
      rw [isComplete, h.coverage_wordLengths hlimit hseveral, Nat.one_shiftLeft]
      exact decide_eq_true rfl
    rw [Deflate.isUsable, hcomplete, Bool.true_or]
  · rcases h.filter_wordLengths_of_few (by omega) with hnone | hone
    · rw [Deflate.isUsable, hnone]
      exact Bool.or_true _
    · rw [Deflate.isUsable, hone]
      exact Bool.or_true _

theorem Holds.wordLengths_le (h : Holds limit counts) :
    ∀ length ∈ wordLengths limit counts, length ≤ limit := by
  intro length hlength
  by_cases hzero : length = 0
  · rw [hzero]
    exact Nat.zero_le _
  · obtain ⟨-, hperm, -⟩ := h.wordLengths_spec
    have hgiven : length ∈ (wordLengths limit counts).filter (· ≠ 0) :=
      List.mem_filter.2 ⟨hlength, decide_eq_true hzero⟩
    exact (h.bounds length (List.mem_of_mem_take (hperm.mem_iff.1 hgiven))).2

theorem Holds.isCode (h : Holds limit counts) (hlimit : limit ≤ longestWord) :
    IsCode (wordLengths limit counts) where
  le length hlength := (h.wordLengths_le length hlength).trans hlimit
  room := by
    by_cases hseveral : 2 ≤ (rarestFirst counts).length
    · exact (h.coverage_wordLengths hlimit hseveral).le
    · rw [coverage_eq]
      rcases h.filter_wordLengths_of_few (by omega) with hnone | hone
      · rw [hnone]
        exact Nat.zero_le _
      · rw [hone]
        decide

/-! ## Symbols that occur -/

theorem holds_of_length_le {limit : Nat} {counts : List Nat} (hlimit : 0 < limit)
    (hcounts : counts.length ≤ 2 ^ limit) : Holds limit counts where
  pos := hlimit
  room := by
    rw [rarestFirst, List.length_mergeSort]
    refine (List.length_filter_le _ _).trans ?_
    rw [List.length_zipIdx]
    exact hcounts

theorem two_le_length_rarestFirst {symbol symbol' : Nat} (hne : symbol ≠ symbol')
    (hsymbol : counts.getD symbol 0 ≠ 0) (hsymbol' : counts.getD symbol' 0 ≠ 0) :
    2 ≤ (rarestFirst counts).length := by
  have hmem := mem_rarestFirst_of_getD hsymbol
  have hmem' := mem_rarestFirst_of_getD hsymbol'
  match hused : rarestFirst counts with
  | [] =>
    rw [hused] at hmem
    cases hmem
  | [e] =>
    rw [hused, List.mem_singleton] at hmem hmem'
    exact absurd (congrArg Prod.snd (hmem.trans hmem'.symm)) hne
  | e :: e' :: rest => exact Nat.le_add_left 2 rest.length

theorem length_foldl_modify (symbols : List Nat) (counts : Array Nat) :
    (symbols.foldl (fun counts symbol => counts.modify symbol (· + 1)) counts).size =
      counts.size := by
  induction symbols generalizing counts with
  | nil => rfl
  | cons symbol symbols ih => rw [List.foldl_cons, ih, Array.size_modify]

theorem le_getD_foldl_modify {symbols : List Nat} {counts : Array Nat} (symbol : Nat) :
    counts[symbol]?.getD 0 ≤
      (symbols.foldl (fun counts symbol => counts.modify symbol (· + 1))
        counts)[symbol]?.getD 0 := by
  induction symbols generalizing counts with
  | nil => exact le_refl _
  | cons first symbols ih =>
    refine le_trans ?_ ih
    rw [Array.getElem?_modify]
    split
    · cases counts[symbol]? <;> simp
    · exact le_refl _

@[simp] theorem length_countSymbols (size : Nat) (symbols : List Nat) :
    (countSymbols size symbols).length = size := by
  rw [countSymbols, Array.length_toList, length_foldl_modify, Array.size_replicate]

/-- What stands among the symbols is counted. -/
theorem getD_countSymbols_ne_zero {size symbol : Nat} {symbols : List Nat} (hsize : symbol < size)
    (hsymbol : symbol ∈ symbols) : (countSymbols size symbols).getD symbol 0 ≠ 0 := by
  obtain ⟨before, behind, rfl⟩ := List.append_of_mem hsymbol
  rw [countSymbols, List.getD_eq_getElem?_getD, Array.getElem?_toList, List.foldl_append,
    List.foldl_cons]
  apply Nat.ne_of_gt
  refine lt_of_lt_of_le ?_ (le_getD_foldl_modify symbol)
  have hplace : symbol < (before.foldl (fun counts symbol => counts.modify symbol (· + 1))
      (Array.replicate size 0)).size := by
    rw [length_foldl_modify, Array.size_replicate]
    exact hsize
  rw [Array.getElem?_modify, if_pos rfl, Array.getElem?_eq_getElem hplace]
  exact Nat.succ_pos _

/-! ## Lengths without the zeros at the end -/

theorem exists_eq_trimmed_append (lengths : List Nat) :
    ∃ n, lengths = trimmed lengths ++ List.replicate n 0 := by
  cases lengths with
  | nil => exact ⟨0, rfl⟩
  | cons length rest =>
    refine ⟨(rest.reverse.takeWhile (· = 0)).length, ?_⟩
    have hall : (rest.reverse.takeWhile (· = 0)).all (· = 0) = true := List.all_takeWhile
    have hzeros : rest.reverse.takeWhile (· = 0) =
        List.replicate (rest.reverse.takeWhile (· = 0)).length 0 := by
      apply List.eq_replicate_of_mem
      exact fun n hn => of_decide_eq_true (List.all_eq_true.1 hall n hn)
    have hsplit : rest = (rest.reverse.dropWhile (· = 0)).reverse ++
        (rest.reverse.takeWhile (· = 0)).reverse := by
      rw [← List.reverse_append, List.takeWhile_append_dropWhile, List.reverse_reverse]
    rw [trimmed, List.cons_append]
    congr 1
    conv_lhs => rw [hsplit]
    rw [hzeros, List.reverse_replicate, List.length_replicate]

theorem filter_trimmed (lengths : List Nat) :
    (trimmed lengths).filter (· ≠ 0) = lengths.filter (· ≠ 0) := by
  obtain ⟨n, hn⟩ := exists_eq_trimmed_append lengths
  conv_rhs => rw [hn]
  simp

theorem getD_trimmed (lengths : List Nat) (symbol : Nat) :
    (trimmed lengths).getD symbol 0 = lengths.getD symbol 0 := by
  obtain ⟨n, hn⟩ := exists_eq_trimmed_append lengths
  conv_rhs => rw [hn]
  rw [List.getD_eq_getElem?_getD, List.getD_eq_getElem?_getD]
  by_cases hsymbol : symbol < (trimmed lengths).length
  · rw [List.getElem?_append_left hsymbol]
  · rw [List.getElem?_append_right (Nat.le_of_not_lt hsymbol),
      List.getElem?_eq_none (Nat.le_of_not_lt hsymbol), List.getElem?_replicate]
    split <;> rfl

theorem length_trimmed_le (lengths : List Nat) : (trimmed lengths).length ≤ lengths.length := by
  obtain ⟨n, hn⟩ := exists_eq_trimmed_append lengths
  conv_rhs => rw [hn]
  rw [List.length_append]
  exact Nat.le_add_right _ _

theorem lt_length_of_getD_ne_zero {lengths : List Nat} {symbol : Nat}
    (hsymbol : lengths.getD symbol 0 ≠ 0) : symbol < lengths.length := by
  by_contra hbehind
  rw [List.getD_eq_default _ _ (Nat.le_of_not_lt hbehind)] at hsymbol
  exact hsymbol rfl

theorem IsCode.trimmed {lengths : List Nat} (h : IsCode lengths) : IsCode (trimmed lengths) where
  le length hlength := by
    obtain ⟨n, hn⟩ := exists_eq_trimmed_append lengths
    apply h.le length
    rw [hn]
    exact List.mem_append_left _ hlength
  room := by
    rw [coverage_eq, filter_trimmed, ← coverage_eq]
    exact h.room

end Courier.Deflate
