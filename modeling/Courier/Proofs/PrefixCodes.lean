import Courier.Deflate.Block
import Courier.Proofs.BitWriting
/-!
# Canonical codes are prefix codes

A word of a code stands for all words of the greatest length that begin with it.  Those are given
out one after another, and so no word is the beginning of another one as long as there is room for
all of them (`pairwise_apart_words`).  The tree of a code therefore leads each word to its symbol,
and the decoder takes the word that the encoder looks up (`IsCode.takes_wordIn`).
-/

namespace Courier.Deflate

/-! ## Words as numbers -/

theorem wordBits_succ (width n : Nat) :
    wordBits (width + 1) n = wordBits width (n / 2) ++ [decide (n % 2 = 1)] := by
  rw [wordBits, lowBits, List.reverse_cons, wordBits]

theorem wordBits_add (width more n : Nat) :
    wordBits (width + more) n = wordBits width (n / 2 ^ more) ++ wordBits more n := by
  induction more generalizing n with
  | zero => rw [Nat.pow_zero, Nat.div_one, Nat.add_zero, wordBits, wordBits, lowBits,
      List.reverse_nil, List.append_nil]
  | succ more ih =>
    have hpow : n / 2 / 2 ^ more = n / 2 ^ (more + 1) := by
      rw [Nat.div_div_eq_div_mul, Nat.pow_succ']
    rw [← Nat.add_assoc, wordBits_succ, ih, hpow, wordBits_succ more, List.append_assoc]

theorem eq_of_wordBits_eq {width a b : Nat} (ha : a < 2 ^ width) (hb : b < 2 ^ width)
    (h : wordBits width a = wordBits width b) : a = b := by
  induction width generalizing a b with
  | zero =>
    rw [Nat.pow_zero] at ha hb
    omega
  | succ width ih =>
    rw [wordBits_succ, wordBits_succ] at h
    obtain ⟨hfront, hlast⟩ := List.append_inj h (by simp)
    rw [Nat.pow_succ] at ha hb
    have hhalf : a / 2 = b / 2 := ih (by omega) (by omega) hfront
    have hbit : a % 2 = 1 ↔ b % 2 = 1 := by simpa using hlast
    omega

/-- The words of the greatest length that begin with the given one are those from `start` up to
`stop`. -/
def Spans (word : List Bool) (start stop : Nat) : Prop :=
  ∃ length n, length ≤ longestWord ∧ word = wordBits length n ∧
    start = n * 2 ^ (longestWord - length) ∧ stop = (n + 1) * 2 ^ (longestWord - length)

theorem lt_of_spans {length n : Nat} (hlength : length ≤ longestWord)
    (hstop : (n + 1) * 2 ^ (longestWord - length) ≤ 2 ^ longestWord) : n < 2 ^ length := by
  rw [← Nat.add_sub_cancel' hlength, Nat.pow_add, Nat.add_sub_cancel_left] at hstop
  exact Nat.le_of_mul_le_mul_right hstop (Nat.pow_pos Nat.two_pos)

theorem Spans.contains {word word' : List Bool} {start stop start' stop' : Nat}
    (h : Spans word start stop) (h' : Spans word' start' stop') (hstop : stop ≤ 2 ^ longestWord)
    (hstop' : stop' ≤ 2 ^ longestWord) (hfront : word <+: word') :
    start ≤ start' ∧ start' < stop' ∧ stop' ≤ stop := by
  obtain ⟨length, n, hlength, rfl, rfl, rfl⟩ := h
  obtain ⟨length', n', hlength', rfl, rfl, rfl⟩ := h'
  have hn := lt_of_spans hlength hstop
  have hn' := lt_of_spans hlength' hstop'
  obtain ⟨more, rfl⟩ : ∃ more, length' = length + more := by
    have hle := hfront.length_le
    rw [length_wordBits, length_wordBits] at hle
    exact Nat.exists_eq_add_of_le hle
  rw [wordBits_add] at hfront
  have hsame : wordBits length n = wordBits length (n' / 2 ^ more) := by
    obtain ⟨rest, hrest⟩ := hfront
    exact (List.append_inj hrest (by simp)).1
  have hdiv : n = n' / 2 ^ more := by
    apply eq_of_wordBits_eq hn _ hsame
    apply Nat.div_lt_of_lt_mul
    rw [← Nat.pow_add, Nat.add_comm more length]
    exact hn'
  have hunit : 2 ^ (longestWord - length) = 2 ^ more * 2 ^ (longestWord - (length + more)) := by
    rw [← Nat.pow_add]
    congr 1
    omega
  have hpos : 0 < 2 ^ (longestWord - (length + more)) := Nat.pow_pos Nat.two_pos
  have hbelow : n * 2 ^ more ≤ n' := by
    rw [hdiv]
    exact Nat.div_mul_le_self n' (2 ^ more)
  have habove : n' + 1 ≤ (n + 1) * 2 ^ more := by
    rw [hdiv, Nat.mul_comm]
    exact Nat.lt_mul_div_succ n' (Nat.pow_pos Nat.two_pos)
  rw [hunit, ← Nat.mul_assoc, ← Nat.mul_assoc]
  refine ⟨Nat.mul_le_mul_right _ hbelow, ?_, Nat.mul_le_mul_right _ habove⟩
  exact Nat.mul_lt_mul_of_pos_right (Nat.lt_succ_self n') hpos

/-- Neither word is the beginning of the other one. -/
def Apart (word word' : List Bool) : Prop :=
  ¬ word <+: word' ∧ ¬ word' <+: word

theorem Spans.apart {word word' : List Bool} {start stop start' stop' : Nat}
    (h : Spans word start stop) (h' : Spans word' start' stop') (hbehind : stop ≤ start')
    (hstop' : stop' ≤ 2 ^ longestWord) : Apart word word' := by
  have hstart' : start' ≤ stop' := by
    obtain ⟨length, n, -, -, rfl, rfl⟩ := h'
    exact Nat.mul_le_mul_right _ (Nat.le_succ n)
  have hstop := (hbehind.trans hstart').trans hstop'
  constructor
  · intro hfront
    have hinside := h.contains h' hstop hstop' hfront
    omega
  · intro hfront
    have hinside := h'.contains h hstop' hstop hfront
    omega

/-! ## Words that are given out -/

/-- How many words of the greatest length are given out. -/
def room (used : List (Nat × Nat)) : Nat :=
  (used.map fun e => 2 ^ (longestWord - e.1)).sum

theorem room_cons (e : Nat × Nat) (used : List (Nat × Nat)) :
    room (e :: used) = 2 ^ (longestWord - e.1) + room used := by
  rw [room, List.map_cons, List.sum_cons, room]

/-- Lengths in ascending order that a code can have, and a start from which their words can be
given out. -/
structure Ascending (start : Nat) (used : List (Nat × Nat)) : Prop where
  sorted : used.Pairwise fun e e' => e.1 ≤ e'.1
  le : ∀ e ∈ used, e.1 ≤ longestWord
  dvd : ∀ e ∈ used, 2 ^ (longestWord - e.1) ∣ start

variable {start : Nat} {used : List (Nat × Nat)} {e : Nat × Nat}

theorem Ascending.tail (h : Ascending start (e :: used)) :
    Ascending (start + 2 ^ (longestWord - e.1)) used where
  sorted := h.sorted.tail
  le e' he' := h.le e' (List.mem_cons_of_mem _ he')
  dvd e' he' := by
    have hle : e.1 ≤ e'.1 := List.rel_of_pairwise_cons h.sorted he'
    have hpow : 2 ^ (longestWord - e'.1) ∣ 2 ^ (longestWord - e.1) :=
      Nat.pow_dvd_pow 2 (by omega)
    exact Nat.dvd_add (h.dvd e' (List.mem_cons_of_mem _ he')) hpow

theorem assignWords_cons (start : Nat) (e : Nat × Nat) (used : List (Nat × Nat)) :
    assignWords start (e :: used) =
      (e.2, wordBits e.1 (start / 2 ^ (longestWord - e.1))) ::
        assignWords (start + 2 ^ (longestWord - e.1)) used := by
  obtain ⟨length, symbol⟩ := e
  rw [assignWords, Nat.one_shiftLeft]

theorem Ascending.spans_head (h : Ascending start (e :: used)) :
    Spans (wordBits e.1 (start / 2 ^ (longestWord - e.1))) start
      (start + 2 ^ (longestWord - e.1)) := by
  have hstart := Nat.div_mul_cancel (h.dvd e List.mem_cons_self)
  refine ⟨e.1, _, h.le e List.mem_cons_self, rfl, hstart.symm, ?_⟩
  rw [Nat.succ_mul, hstart]

theorem Ascending.spans_of_mem (h : Ascending start used) :
    ∀ w ∈ assignWords start used,
      ∃ start' stop', Spans w.2 start' stop' ∧ start ≤ start' ∧ stop' ≤ start + room used := by
  induction used generalizing start with
  | nil => exact nofun
  | cons e used ih =>
    intro w hw
    rw [assignWords_cons] at hw
    rw [room_cons]
    rcases List.mem_cons.1 hw with rfl | hw
    · exact ⟨start, _, h.spans_head, Nat.le_refl _, by omega⟩
    · obtain ⟨start', stop', hspans, hstart, hstop⟩ := ih h.tail w hw
      exact ⟨start', stop', hspans, (Nat.le_add_right _ _).trans hstart, by omega⟩

theorem Ascending.pairwise_apart (h : Ascending start used)
    (hroom : start + room used ≤ 2 ^ longestWord) :
    (assignWords start used).Pairwise fun w w' => Apart w.2 w'.2 := by
  induction used generalizing start with
  | nil => exact .nil
  | cons e used ih =>
    rw [room_cons] at hroom
    rw [assignWords_cons]
    refine .cons ?_ (ih h.tail (by omega))
    intro w hw
    obtain ⟨start', stop', hspans, hstart, hstop⟩ := h.tail.spans_of_mem w hw
    exact h.spans_head.apart hspans hstart (by omega)

theorem map_fst_assignWords (start : Nat) (used : List (Nat × Nat)) :
    (assignWords start used).map (·.1) = used.map (·.2) := by
  induction used generalizing start with
  | nil => rfl
  | cons e used ih => rw [assignWords_cons, List.map_cons, List.map_cons, ih]

/-! ## Codes -/

/-- No length is too long, and there is room for all words. -/
structure IsCode (lengths : List Nat) : Prop where
  le : ∀ length ∈ lengths, length ≤ longestWord
  room : coverage lengths ≤ 2 ^ longestWord

theorem usedSymbols_perm (lengths : List Nat) :
    (usedSymbols lengths).Perm (lengths.zipIdx.filter fun e => e.1 ≠ 0) :=
  List.mergeSort_perm _ _

theorem mem_usedSymbols_iff {lengths : List Nat} {length symbol : Nat} :
    (length, symbol) ∈ usedSymbols lengths ↔ lengths[symbol]? = some length ∧ length ≠ 0 := by
  rw [(usedSymbols_perm lengths).mem_iff, List.mem_filter, List.mem_zipIdx_iff_getElem?]
  simp

theorem lengthLe_trans (e₁ e₂ e₃ : Nat × Nat) (h : decide (e₁.1 ≤ e₂.1) = true)
    (h' : decide (e₂.1 ≤ e₃.1) = true) : decide (e₁.1 ≤ e₃.1) = true :=
  decide_eq_true ((of_decide_eq_true h).trans (of_decide_eq_true h'))

theorem lengthLe_total (e e' : Nat × Nat) :
    (decide (e.1 ≤ e'.1) || decide (e'.1 ≤ e.1)) = true := by
  rw [Bool.or_eq_true, decide_eq_true_eq, decide_eq_true_eq]
  exact Nat.le_total e.1 e'.1

theorem sorted_usedSymbols (lengths : List Nat) :
    (usedSymbols lengths).Pairwise fun e e' => e.1 ≤ e'.1 := by
  have hsorted := List.pairwise_mergeSort lengthLe_trans lengthLe_total
    (lengths.zipIdx.filter fun e => e.1 ≠ 0)
  exact hsorted.imp fun h => of_decide_eq_true h

theorem room_usedSymbols (lengths : List Nat) : room (usedSymbols lengths) = coverage lengths := by
  have hperm := ((usedSymbols_perm lengths).map fun e => 2 ^ (longestWord - e.1)).sum_eq
  have hfst : (lengths.zipIdx.filter fun e => e.1 ≠ 0).map (·.1) = lengths.filter (· ≠ 0) := by
    have hall := congrArg (List.filter (· ≠ 0)) (List.zipIdx_map_fst 0 lengths)
    rw [List.filter_map] at hall
    exact hall
  have hshare : (fun e : Nat × Nat => 2 ^ (longestWord - e.1)) =
      (fun length => 1 <<< (longestWord - length)) ∘ Prod.fst := by
    funext e
    exact (Nat.one_shiftLeft _).symm
  rw [room, hperm, coverage, ← hfst, List.map_map, hshare]
  rfl

theorem IsCode.ascending {lengths : List Nat} (h : IsCode lengths) :
    Ascending 0 (usedSymbols lengths) where
  sorted := sorted_usedSymbols lengths
  le e he := h.le e.1 (List.mem_of_getElem? (mem_usedSymbols_iff.1 he).1)
  dvd _ _ := Nat.dvd_zero _

theorem IsCode.pairwise_apart_words {lengths : List Nat} (h : IsCode lengths) :
    (words lengths).Pairwise fun w w' => Apart w.2 w'.2 := by
  apply h.ascending.pairwise_apart
  rw [Nat.zero_add, room_usedSymbols]
  exact h.room

theorem nodup_symbols (lengths : List Nat) : ((words lengths).map (·.1)).Nodup := by
  rw [words, map_fst_assignWords]
  have hperm := (usedSymbols_perm lengths).map (·.2)
  rw [hperm.nodup_iff]
  have hall : (lengths.zipIdx.map (·.2)).Nodup := by
    rw [List.zipIdx_map_snd]
    exact List.nodup_range'
  exact hall.sublist (List.filter_sublist.map _)

theorem exists_mem_words {lengths : List Nat} {symbol : Nat} (h : lengths.getD symbol 0 ≠ 0) :
    ∃ word, (symbol, word) ∈ words lengths := by
  have hused : (lengths.getD symbol 0, symbol) ∈ usedSymbols lengths := by
    refine mem_usedSymbols_iff.2 ⟨?_, h⟩
    rw [List.getD_eq_getElem?_getD] at h ⊢
    cases hlength : lengths[symbol]? with
    | none =>
      rw [hlength] at h
      exact absurd rfl h
    | some length => rfl
  have hsymbol : symbol ∈ (words lengths).map (·.1) := by
    rw [words, map_fst_assignWords]
    exact List.mem_map.2 ⟨_, hused, rfl⟩
  obtain ⟨⟨_, word⟩, hword, rfl⟩ := List.mem_map.1 hsymbol
  exact ⟨word, hword⟩

/-! ## Trees -/

namespace Tree

/-- The word leads to the symbol. -/
inductive Finds : Tree → List Bool → Nat → Prop
  | leaf (symbol : Nat) : Finds (.leaf symbol) [] symbol
  | fork {zero one : Tree} {b : Bool} {word : List Bool} {symbol : Nat}
      (h : Finds (if b then one else zero) word symbol) : Finds (.fork zero one) (b :: word) symbol

theorem takes_decodeSymbol {tree : Tree} {word : List Bool} {symbol : Nat}
    (h : tree.Finds word symbol) : Takes (decodeSymbol tree) word (Prod.mk symbol) := by
  induction h with
  | leaf symbol => exact .nothing _
  | @fork zero one b word symbol _ ih =>
    rw [decodeSymbol_fork]
    exact (takes_readBit b).andThen ih

theorem finds_insert (symbol : Nat) (word : List Bool) (tree : Tree) :
    (tree.insert symbol word).Finds word symbol := by
  induction word generalizing tree with
  | nil => exact .leaf symbol
  | cons b word ih => cases tree <;> cases b <;> exact .fork (ih _)

theorem Finds.insert {tree : Tree} {word word' : List Bool} {symbol : Nat}
    (h : tree.Finds word symbol) (hapart : Apart word word') (symbol' : Nat) :
    (tree.insert symbol' word').Finds word symbol := by
  induction h generalizing word' with
  | leaf symbol => exact absurd List.nil_prefix hapart.1
  | @fork zero one b word symbol h ih =>
    cases word' with
    | nil => exact absurd List.nil_prefix hapart.2
    | cons b' word' =>
      have htail (hsame : b = b') : Apart word word' := by
        subst hsame
        exact ⟨fun hfront => hapart.1 ((List.prefix_cons_inj b).2 hfront),
          fun hfront => hapart.2 ((List.prefix_cons_inj b).2 hfront)⟩
      cases b <;> cases b'
      · exact .fork (ih (htail rfl))
      · exact .fork h
      · exact .fork h
      · exact .fork (ih (htail rfl))

theorem Finds.foldl_insert {tree : Tree} {word : List Bool} {symbol : Nat}
    (h : tree.Finds word symbol) {inserted : List (Nat × List Bool)}
    (hapart : ∀ w ∈ inserted, Apart word w.2) :
    (inserted.foldl (fun tree w => tree.insert w.1 w.2) tree).Finds word symbol := by
  induction inserted generalizing tree with
  | nil => exact h
  | cons w inserted ih =>
    apply ih (h.insert (hapart w List.mem_cons_self) w.1)
    exact fun w' hw' => hapart w' (List.mem_cons_of_mem _ hw')

theorem finds_foldl_insert {inserted : List (Nat × List Bool)}
    (hapart : inserted.Pairwise fun w w' => Apart w.2 w'.2) (tree : Tree) :
    ∀ w ∈ inserted, (inserted.foldl (fun tree w => tree.insert w.1 w.2) tree).Finds w.2 w.1 := by
  induction inserted generalizing tree with
  | nil => exact nofun
  | cons w inserted ih =>
    obtain ⟨hhead, htail⟩ := List.pairwise_cons.1 hapart
    intro w' hw'
    rcases List.mem_cons.1 hw' with rfl | hw'
    · exact (finds_insert w'.1 w'.2 tree).foldl_insert hhead
    · exact ih htail _ w' hw'

end Tree

theorem IsCode.finds {lengths : List Nat} (h : IsCode lengths) {symbol : Nat} {word : List Bool}
    (hword : (symbol, word) ∈ words lengths) : (Tree.ofLengths lengths).Finds word symbol :=
  Tree.finds_foldl_insert h.pairwise_apart_words _ _ hword

/-! ## Tables -/

theorem getElem?_foldl_setIfInBounds {entered : List (Nat × List Bool)} {symbol : Nat}
    (hsymbol : symbol ∉ entered.map (·.1)) (table : Array (List Bool)) :
    (entered.foldl (fun table w => table.setIfInBounds w.1 w.2) table)[symbol]? =
      table[symbol]? := by
  induction entered generalizing table with
  | nil => rfl
  | cons w entered ih =>
    have hhead : symbol ≠ w.1 := List.ne_of_not_mem_cons hsymbol
    have htail := List.not_mem_of_not_mem_cons hsymbol
    rw [List.foldl_cons, ih htail, Array.getElem?_setIfInBounds_ne hhead.symm]

theorem wordIn_foldl_setIfInBounds {entered : List (Nat × List Bool)}
    (hnodup : (entered.map (·.1)).Nodup) {symbol : Nat} {word : List Bool}
    (hword : (symbol, word) ∈ entered) {table : Array (List Bool)} (hsize : symbol < table.size) :
    wordIn (entered.foldl (fun table w => table.setIfInBounds w.1 w.2) table) symbol = word := by
  induction entered generalizing table with
  | nil => cases hword
  | cons w entered ih =>
    obtain ⟨hhead, htail⟩ := List.nodup_cons.1 hnodup
    rw [List.foldl_cons]
    rcases List.mem_cons.1 hword with rfl | hword
    · rw [wordIn, getElem?_foldl_setIfInBounds hhead, Array.getElem?_setIfInBounds_self_of_lt hsize]
      rfl
    · apply ih htail hword
      rw [Array.size_setIfInBounds]
      exact hsize

theorem lt_length_of_mem_words {lengths : List Nat} {symbol : Nat} {word : List Bool}
    (hword : (symbol, word) ∈ words lengths) : symbol < lengths.length := by
  have hsymbol : symbol ∈ (usedSymbols lengths).map (·.2) := by
    rw [← map_fst_assignWords 0]
    exact List.mem_map.2 ⟨_, hword, rfl⟩
  obtain ⟨⟨length, _⟩, hused, rfl⟩ := List.mem_map.1 hsymbol
  exact (List.getElem?_eq_some_iff.1 (mem_usedSymbols_iff.1 hused).1).1

theorem wordIn_wordTable {lengths : List Nat} {symbol : Nat} {word : List Bool}
    (hword : (symbol, word) ∈ words lengths) : wordIn (wordTable lengths) symbol = word := by
  apply wordIn_foldl_setIfInBounds (nodup_symbols lengths) hword
  rw [Array.size_replicate]
  exact lt_length_of_mem_words hword

theorem IsCode.takes_wordIn {lengths : List Nat} (h : IsCode lengths) {symbol : Nat}
    (hsymbol : lengths.getD symbol 0 ≠ 0) :
    Takes (decodeSymbol (.ofLengths lengths)) (wordIn (wordTable lengths) symbol)
      (Prod.mk symbol) := by
  obtain ⟨word, hword⟩ := exists_mem_words hsymbol
  rw [wordIn_wordTable hword]
  exact Tree.takes_decodeSymbol (h.finds hword)

/-! ## The fixed code -/

/-- Symbols of one length stay in their own order. -/
theorem filter_mergeSort (used : List (Nat × Nat)) (n : Nat) :
    (used.mergeSort fun e e' => e.1 ≤ e'.1).filter (·.1 = n) = used.filter (·.1 = n) := by
  have hsame : (used.filter (·.1 = n)).Pairwise fun e e' => decide (e.1 ≤ e'.1) = true := by
    apply List.pairwise_of_forall_mem_list
    intro e he e' he'
    have hn : e.1 = n := of_decide_eq_true (List.mem_filter.1 he).2
    have hn' : e'.1 = n := of_decide_eq_true (List.mem_filter.1 he').2
    exact decide_eq_true (hn.trans hn'.symm).le
  have hsublist := (List.sublist_mergeSort lengthLe_trans lengthLe_total hsame
    List.filter_sublist).filter (·.1 = n)
  have htwice : (used.filter (·.1 = n)).filter (·.1 = n) = used.filter (·.1 = n) := by
    apply List.filter_eq_self.2
    exact fun e he => (List.mem_filter.1 he).2
  rw [htwice] at hsublist
  have hperm := (List.mergeSort_perm used fun e e' => decide (e.1 ≤ e'.1)).filter (·.1 = n)
  exact (hsublist.eq_of_length hperm.length_eq.symm).symm

theorem filter_usedSymbols (lengths : List Nat) {n : Nat} (hn : n ≠ 0) :
    (usedSymbols lengths).filter (·.1 = n) = lengths.zipIdx.filter (·.1 = n) := by
  rw [usedSymbols, filter_mergeSort, List.filter_filter]
  apply List.filter_congr
  intro e _
  by_cases he : e.1 = n <;> simp [he, hn]

theorem filter_append_filter_of_sorted {used : List (Nat × Nat)}
    (hsorted : used.Pairwise fun e e' => e.1 ≤ e'.1) (n : Nat) :
    used = used.filter (·.1 < n) ++ used.filter (n ≤ ·.1) := by
  induction used with
  | nil => rfl
  | cons e used ih =>
    obtain ⟨hhead, htail⟩ := List.pairwise_cons.1 hsorted
    by_cases he : e.1 < n
    · rw [List.filter_cons_of_pos (by simpa using he), List.filter_cons_of_neg (by simpa using he),
        List.cons_append, ← ih htail]
    · have hbehind : ∀ e' ∈ e :: used, n ≤ e'.1 := by
        intro e' he'
        rcases List.mem_cons.1 he' with rfl | he'
        · exact Nat.le_of_not_lt he
        · exact (Nat.le_of_not_lt he).trans (hhead e' he')
      have hnone : (e :: used).filter (·.1 < n) = [] := by
        apply List.filter_eq_nil_iff.2
        intro e' he'
        simpa using hbehind e' he'
      have hall : (e :: used).filter (n ≤ ·.1) = e :: used := by
        apply List.filter_eq_self.2
        intro e' he'
        simpa using hbehind e' he'
      rw [hnone, hall, List.nil_append]

/-- A list in ascending order is what it holds of each number, one after another. -/
theorem eq_flatMap_filter_of_sorted {used : List (Nat × Nat)}
    (hsorted : used.Pairwise fun e e' => e.1 ≤ e'.1) {least count : Nat}
    (hused : ∀ e ∈ used, least ≤ e.1 ∧ e.1 < least + count) :
    used = (List.range' least count).flatMap fun n => used.filter (·.1 = n) := by
  induction count generalizing least used with
  | zero =>
    apply List.eq_nil_iff_forall_not_mem.2
    intro e he
    have hbounds := hused e he
    omega
  | succ count ih =>
    have hleast : used.filter (·.1 < least + 1) = used.filter (·.1 = least) := by
      apply List.filter_congr
      intro e he
      have hbounds := hused e he
      rw [decide_eq_decide]
      omega
    have hmore : used.filter (least + 1 ≤ ·.1) = (List.range' (least + 1) count).flatMap
        fun n => (used.filter (least + 1 ≤ ·.1)).filter (·.1 = n) := by
      apply ih (hsorted.sublist List.filter_sublist)
      intro e he
      have hbounds := hused e (List.mem_of_mem_filter he)
      have habove := of_decide_eq_true (List.mem_filter.1 he).2
      omega
    have hsame : ∀ n ∈ List.range' (least + 1) count,
        (used.filter (least + 1 ≤ ·.1)).filter (·.1 = n) = used.filter (·.1 = n) := by
      intro n hn
      rw [List.filter_filter]
      apply List.filter_congr
      intro e _
      have hn := List.mem_range'_1.1 hn
      by_cases he : e.1 = n
      · simp [he, hn.1]
      · simp [he]
    rw [List.range'_succ, List.flatMap_cons, ← hleast]
    conv_lhs => rw [filter_append_filter_of_sorted hsorted (least + 1), hmore]
    rw [List.flatMap_congr hsame]

theorem usedSymbols_eq_flatMap {lengths : List Nat} (hlengths : ∀ n ∈ lengths, n ≤ longestWord) :
    usedSymbols lengths =
      (List.range' 1 longestWord).flatMap fun n => lengths.zipIdx.filter (·.1 = n) := by
  have hused : ∀ e ∈ usedSymbols lengths, 1 ≤ e.1 ∧ e.1 < 1 + longestWord := by
    intro e he
    obtain ⟨hlength, hnonzero⟩ := mem_usedSymbols_iff.1 he
    have hle := hlengths e.1 (List.mem_of_getElem? hlength)
    omega
  rw [eq_flatMap_filter_of_sorted (sorted_usedSymbols lengths) hused]
  apply List.flatMap_congr
  intro n hn
  apply filter_usedSymbols
  have hbounds := List.mem_range'_1.1 hn
  omega

theorem isCode_fixedLiteralLengths : IsCode fixedLiteralLengths := by
  constructor
  · decide +kernel
  · decide +kernel

theorem isCode_fixedDistanceLengths : IsCode fixedDistanceLengths := by
  constructor
  · decide
  · decide

/-- The symbols in the order of their words: the shortest words belong to the middle. -/
def fixedLiteralOrder : List Nat :=
  List.range' 256 24 ++ List.range' 0 144 ++ List.range' 280 8 ++ List.range' 144 112

theorem words_fixedLiteralLengths :
    words fixedLiteralLengths =
      fixedLiteralOrder.map fun symbol => (symbol, fixedLiteralWord symbol) := by
  have hall : assignWords 0 ((List.range' 1 longestWord).flatMap fun n =>
      fixedLiteralLengths.zipIdx.filter (·.1 = n)) =
        fixedLiteralOrder.map fun symbol => (symbol, fixedLiteralWord symbol) := by
    decide +kernel
  rw [words, usedSymbols_eq_flatMap isCode_fixedLiteralLengths.le]
  exact hall

theorem mem_words_fixedLiteralLengths {symbol : Nat} (hsymbol : symbol < 288) :
    (symbol, fixedLiteralWord symbol) ∈ words fixedLiteralLengths := by
  rw [words_fixedLiteralLengths]
  apply List.mem_map_of_mem
  simp only [fixedLiteralOrder, List.mem_append, List.mem_range'_1]
  omega

theorem takes_fixedLiteralWord {symbol : Nat} (hsymbol : symbol < 288) :
    Takes (decodeSymbol fixedLiterals) (fixedLiteralWord symbol) (Prod.mk symbol) :=
  Tree.takes_decodeSymbol (isCode_fixedLiteralLengths.finds (mem_words_fixedLiteralLengths hsymbol))

theorem mem_words_fixedDistanceLengths {symbol : Nat} (hsymbol : symbol < 32) :
    (symbol, wordBits 5 symbol) ∈ words fixedDistanceLengths := by
  have hall : ∀ symbol < 32, (symbol, wordBits 5 symbol) ∈ assignWords 0
      ((List.range' 1 longestWord).flatMap fun n =>
        fixedDistanceLengths.zipIdx.filter (·.1 = n)) := by
    decide +kernel
  rw [words, usedSymbols_eq_flatMap isCode_fixedDistanceLengths.le]
  exact hall symbol hsymbol

theorem takes_fixedDistanceWord {symbol : Nat} (hsymbol : symbol < 32) :
    Takes (decodeSymbol fixedDistances) (wordBits 5 symbol) (Prod.mk symbol) :=
  Tree.takes_decodeSymbol
    (isCode_fixedDistanceLengths.finds (mem_words_fixedDistanceLengths hsymbol))

end Courier.Deflate
