import Courier.Deflate.WordLengths
import Courier.Proofs.PrefixCodes
/-!
# Trees and tallies

A tree of nodes has words that take up all the room there is: the shares of its depths add up to
one (`mergedDepths_spec`).  Cutting off words that are too long makes the shares too large, by less
than there are longest words (`exceeds_tally`).  Each step that makes room takes away the share of
one longest word, so that in the end the shares are right (`Tally.Exceeds.fit`).
-/

namespace Courier.Deflate

/-! ## Trees of nodes -/

/-- The part of all words that words of such lengths take up. -/
def shares (depths : List Nat) : ℚ :=
  (depths.map fun depth => (1 / 2 : ℚ) ^ depth).sum

theorem shares_cons (depth : Nat) (depths : List Nat) :
    shares (depth :: depths) = (1 / 2) ^ depth + shares depths := by
  rw [shares, List.map_cons, List.sum_cons, shares]

theorem shares_append (depths depths' : List Nat) :
    shares (depths ++ depths') = shares depths + shares depths' := by
  rw [shares, List.map_append, List.sum_append, shares, shares]

theorem shares_map_succ (depths : List Nat) :
    shares (depths.map (· + 1)) = shares depths / 2 := by
  induction depths with
  | nil => norm_num [shares]
  | cons depth depths ih =>
    rw [List.map_cons, shares_cons, shares_cons, ih, pow_succ]
    ring

theorem shares_nonneg (depths : List Nat) : 0 ≤ shares depths := by
  induction depths with
  | nil => exact le_refl 0
  | cons depth depths ih =>
    rw [shares_cons]
    positivity

theorem shares_pos {depths : List Nat} (h : depths ≠ []) : 0 < shares depths := by
  obtain ⟨depth, depths, rfl⟩ := List.exists_cons_of_ne_nil h
  rw [shares_cons]
  have hrest := shares_nonneg depths
  positivity

/-- Where several words take up all the room, none is empty. -/
theorem pos_of_shares_eq_one {depths : List Nat} (hshares : shares depths = 1)
    (hlength : 2 ≤ depths.length) : ∀ depth ∈ depths, 1 ≤ depth := by
  intro depth hdepth
  obtain ⟨before, behind, rfl⟩ := List.append_of_mem hdepth
  have hrest : before ++ behind ≠ [] := by
    intro hnil
    obtain ⟨rfl, rfl⟩ := List.append_eq_nil_iff.1 hnil
    rw [List.nil_append, List.length_singleton] at hlength
    omega
  have hpos := shares_pos hrest
  rw [shares_append] at hpos
  rw [shares_append, shares_cons] at hshares
  by_contra hzero
  obtain rfl : depth = 0 := by omega
  rw [pow_zero] at hshares
  linarith

theorem takeLightest_perm {leaves forks : List Node} {lightest : Node}
    {leaves' forks' : List Node}
    (h : takeLightest leaves forks = some (lightest, leaves', forks')) :
    (leaves ++ forks).Perm (lightest :: (leaves' ++ forks')) := by
  cases leaves with
  | nil =>
    cases forks with
    | nil => cases h
    | cons fork forks =>
      cases h
      exact .refl _
  | cons leaf leaves =>
    cases forks with
    | nil =>
      cases h
      exact .refl _
    | cons fork forks =>
      rw [takeLightest] at h
      split at h
      · cases h
        exact List.perm_middle
      · cases h
        exact .refl _

theorem takeLightest_eq_none {leaves forks : List Node} (h : takeLightest leaves forks = none) :
    leaves ++ forks = [] := by
  cases leaves with
  | nil =>
    cases forks with
    | nil => rfl
    | cons fork forks => cases h
  | cons leaf leaves =>
    cases forks with
    | nil => cases h
    | cons fork forks =>
      rw [takeLightest] at h
      split at h <;> cases h

/-- A tree, whose words take up all the room. -/
def Node.IsTree (node : Node) : Prop :=
  shares node.depths = 1

theorem Node.isTree_merge {a b : Node} (ha : a.IsTree) (hb : b.IsTree) : (a.merge b).IsTree := by
  unfold IsTree at ha hb
  rw [IsTree, merge, shares_map_succ, shares_append, ha, hb]
  norm_num

/-- Trees with so many words altogether. -/
structure AreTrees (nodes : List Node) (words : Nat) : Prop where
  trees : ∀ node ∈ nodes, node.IsTree
  words : (nodes.map fun node => node.depths.length).sum = words

namespace AreTrees

variable {nodes nodes' : List Node} {words : Nat} {a b : Node}

theorem perm (h : AreTrees nodes words) (hperm : nodes.Perm nodes') : AreTrees nodes' words where
  trees node hnode := h.trees node (hperm.mem_iff.2 hnode)
  words := (hperm.map _).sum_eq.symm.trans h.words

theorem merge (h : AreTrees (a :: b :: nodes) words) : AreTrees (a.merge b :: nodes) words where
  trees node hnode := by
    rcases List.mem_cons.1 hnode with rfl | hnode
    · have ha := h.trees a List.mem_cons_self
      have hb := h.trees b (List.mem_cons_of_mem _ List.mem_cons_self)
      exact Node.isTree_merge ha hb
    · exact h.trees node (List.mem_cons_of_mem _ (List.mem_cons_of_mem _ hnode))
  words := by
    rw [List.map_cons, List.sum_cons, Node.merge, List.length_map, List.length_append,
      Nat.add_assoc]
    exact h.words

theorem single (h : AreTrees [a] words) : shares a.depths = 1 ∧ a.depths.length = words :=
  ⟨h.trees a List.mem_cons_self, h.words⟩

end AreTrees

/-- Merging trees two by two leaves one tree with all of their words. -/
theorem mergedDepths_spec {fuel words : Nat} {leaves forks : List Node}
    (hsome : leaves ++ forks ≠ []) (hfuel : (leaves ++ forks).length ≤ fuel)
    (htrees : AreTrees (leaves ++ forks) words) :
    shares (mergedDepths fuel leaves forks) = 1 ∧
      (mergedDepths fuel leaves forks).length = words := by
  induction fuel generalizing leaves forks with
  | zero => exact absurd (List.length_eq_zero_iff.1 (Nat.le_zero.1 hfuel)) hsome
  | succ fuel ih =>
    rw [mergedDepths]
    cases hfirst : takeLightest leaves forks with
    | none => exact absurd (takeLightest_eq_none hfirst) hsome
    | some first =>
      obtain ⟨a, leaves₁, forks₁⟩ := first
      have hperm₁ := takeLightest_perm hfirst
      dsimp only
      cases hsecond : takeLightest leaves₁ forks₁ with
      | none =>
        rw [takeLightest_eq_none hsecond] at hperm₁
        exact (htrees.perm hperm₁).single
      | some second =>
        obtain ⟨b, leaves₂, forks₂⟩ := second
        have hperm : (leaves ++ forks).Perm (a :: b :: (leaves₂ ++ forks₂)) :=
          hperm₁.trans ((takeLightest_perm hsecond).cons a)
        have hmerged : (a.merge b :: (leaves₂ ++ forks₂)).Perm
            (leaves₂ ++ (forks₂ ++ [a.merge b])) := by
          rw [← List.append_assoc]
          exact (List.perm_append_singleton _ _).symm
        have hlength := hperm.length_eq
        have hlength' := hmerged.length_eq
        simp only [List.length_cons] at hlength hlength'
        apply ih
        · exact List.ne_nil_of_length_pos (by omega)
        · omega
        · exact (htrees.perm hperm).merge.perm hmerged

/-! ## Tallies -/

namespace Tally

theorem share_map_range (f : Nat → Nat) (unit limit : Nat) :
    share unit ((List.range limit).map f) = ∑ i ∈ Finset.range limit, f i * (unit * 2 ^ i) := by
  induction limit generalizing f unit with
  | zero => rfl
  | succ limit ih =>
    rw [List.range_succ_eq_map, List.map_cons, List.map_map, share, ih, Finset.sum_range_succ',
      pow_zero, mul_one, add_comm]
    congr 1
    apply Finset.sum_congr rfl
    intro i _
    rw [Function.comp_apply, pow_succ]
    ring

end Tally

/-- Each depth is tallied once, in the place of its length. -/
theorem sum_tally {limit : Nat} {depths : List Nat} (hlimit : 0 < limit)
    (hdepths : ∀ depth ∈ depths, 1 ≤ depth) (weight : Nat → Nat) :
    ∑ i ∈ Finset.range limit,
        (depths.filter fun depth => min limit depth = limit - i).length * weight i =
      (depths.map fun depth => weight (limit - min limit depth)).sum := by
  induction depths with
  | nil => simp
  | cons depth depths ih =>
    have hdepth := hdepths depth List.mem_cons_self
    have hone : ∑ i ∈ Finset.range limit,
        (if min limit depth = limit - i then 1 else 0) * weight i =
          weight (limit - min limit depth) := by
      rw [Finset.sum_eq_single (limit - min limit depth)]
      · rw [if_pos (by omega), one_mul]
      · intro i hi hne
        have hi := Finset.mem_range.1 hi
        rw [if_neg (by omega), zero_mul]
      · intro hout
        exact absurd (Finset.mem_range.2 (by omega)) hout
    have hsplit : ∀ i, ((depth :: depths).filter fun depth => min limit depth = limit - i).length =
        (if min limit depth = limit - i then 1 else 0) +
          (depths.filter fun depth => min limit depth = limit - i).length := by
      intro i
      by_cases hi : min limit depth = limit - i
      · rw [List.filter_cons_of_pos (by simpa using hi), List.length_cons, if_pos hi, add_comm]
      · rw [List.filter_cons_of_neg (by simpa using hi), if_neg hi, zero_add]
    simp only [hsplit, add_mul, Finset.sum_add_distrib]
    rw [hone, ih fun d hd => hdepths d (List.mem_cons_of_mem _ hd), List.map_cons, List.sum_cons]

variable {limit : Nat} {depths : List Nat}

theorem share_tally (hlimit : 0 < limit) (hdepths : ∀ depth ∈ depths, 1 ≤ depth) :
    Tally.share 1 (tally limit depths) =
      (depths.map fun depth => 2 ^ (limit - min limit depth)).sum := by
  rw [tally, Tally.share_map_range]
  simp only [one_mul]
  exact sum_tally hlimit hdepths fun i => 2 ^ i

theorem sum_eq_length_of_tally (hlimit : 0 < limit) (hdepths : ∀ depth ∈ depths, 1 ≤ depth) :
    (tally limit depths).sum = depths.length := by
  have hsum := sum_tally hlimit hdepths fun _ => 1
  simp only [mul_one, List.map_const', List.sum_replicate, smul_eq_mul] at hsum
  exact hsum

theorem headD_tally (hlimit : 0 < limit) :
    (tally limit depths).headD 0 = (depths.filter (limit ≤ ·)).length := by
  obtain ⟨k, rfl⟩ := Nat.exists_eq_succ_of_ne_zero hlimit.ne'
  rw [tally, List.range_succ_eq_map, List.map_cons, List.headD_cons]
  congr 1
  apply List.filter_congr
  intro depth _
  rw [decide_eq_decide]
  omega

/-- The shares of the words that are cut off, and of the others. -/
theorem sum_cutOff (limit : Nat) (depths : List Nat) :
    (((depths.map fun depth => 2 ^ (limit - min limit depth)).sum : Nat) : ℚ) =
        2 ^ limit * shares (depths.filter (· < limit)) + (depths.filter (limit ≤ ·)).length ∧
      shares depths =
        shares (depths.filter (· < limit)) + shares (depths.filter (limit ≤ ·)) := by
  induction depths with
  | nil => simp [shares]
  | cons depth depths ih =>
    rw [List.map_cons, List.sum_cons, shares_cons, ih.2]
    push_cast
    push_cast at ih
    rw [ih.1]
    by_cases hdepth : depth < limit
    · rw [List.filter_cons_of_pos (by simpa using hdepth),
        List.filter_cons_of_neg (by simpa using hdepth), shares_cons,
        Nat.min_eq_right hdepth.le]
      have hpow : (2 : ℚ) ^ (limit - depth) = 2 ^ limit * (1 / 2) ^ depth := by
        rw [pow_sub₀ _ two_ne_zero hdepth.le, one_div, inv_pow]
      rw [hpow]
      constructor <;> ring
    · rw [List.filter_cons_of_neg (by simpa using hdepth),
        List.filter_cons_of_pos (by simpa using hdepth), shares_cons,
        Nat.min_eq_left (Nat.le_of_not_lt hdepth), Nat.sub_self, List.length_cons]
      push_cast
      constructor <;> ring

/-! ## Making room -/

namespace Tally

theorem share_lengthenOne (unit longer : Nat) (rest : List Nat) :
    share unit (lengthenOne longer rest) = longer * unit + share (2 * unit) rest := by
  induction rest generalizing unit longer with
  | nil => rw [lengthenOne, share, share, share]
  | cons count rest ih =>
    cases count with
    | zero => rw [lengthenOne, share, ih, share]
    | succ count =>
      rw [lengthenOne, share, share, share]
      ring

theorem length_lengthenOne (longer : Nat) (rest : List Nat) :
    (lengthenOne longer rest).length = rest.length + 1 := by
  induction rest generalizing longer with
  | nil => rfl
  | cons count rest ih =>
    cases count with
    | zero => rw [lengthenOne, List.length_cons, ih, List.length_cons]
    | succ count => rfl

theorem le_headD_lengthenOne (longer : Nat) (rest : List Nat) :
    longer ≤ (lengthenOne longer rest).headD 0 := by
  cases rest with
  | nil => exact le_refl longer
  | cons count rest =>
    cases count with
    | zero => exact le_refl longer
    | succ count => exact Nat.le_add_right longer 2

theorem sum_lengthenOne (longer : Nat) {rest : List Nat} (hrest : rest.sum ≠ 0) :
    (lengthenOne longer rest).sum = longer + rest.sum + 1 := by
  induction rest generalizing longer with
  | nil => exact absurd rfl hrest
  | cons count rest ih =>
    cases count with
    | zero =>
      rw [List.sum_cons, zero_add] at hrest
      rw [lengthenOne, List.sum_cons, ih 0 hrest, List.sum_cons]
      omega
    | succ count =>
      rw [lengthenOne]
      simp only [List.sum_cons]
      omega

theorem share_eq_zero {rest : List Nat} (hrest : rest.sum = 0) (unit : Nat) :
    share unit rest = 0 := by
  induction rest generalizing unit with
  | nil => rfl
  | cons count rest ih =>
    rw [List.sum_cons] at hrest
    rw [share, ih (by omega), Nat.eq_zero_of_add_eq_zero_right hrest]
    ring

/-- So many words whose shares are too large by `excess`, of which there are more than that of the
greatest length. -/
structure Exceeds (limit words excess : Nat) (counts : List Nat) : Prop where
  length : counts.length = limit
  sum : counts.sum = words
  share : share 1 counts = 2 ^ limit + excess
  longest : 0 < excess → excess < counts.headD 0

theorem Exceeds.makeRoom {limit words excess : Nat} {counts : List Nat}
    (h : Exceeds limit words (excess + 1) counts) (hwords : words ≤ 2 ^ limit) :
    Exceeds limit words excess (makeRoom counts) := by
  obtain ⟨hlength, hsum, hshare, hlongest⟩ := h
  have hhead := hlongest (Nat.succ_pos excess)
  match counts with
  | longest :: rest =>
    rw [List.headD_cons] at hhead
    rw [Tally.share] at hshare
    rw [List.sum_cons] at hsum
    have hrest : rest.sum ≠ 0 := by
      -- If all words had the greatest length, there would be room for them.
      intro hzero
      rw [share_eq_zero hzero] at hshare
      omega
    have hmore := le_headD_lengthenOne (longest - 1) rest
    refine ⟨?_, ?_, ?_, ?_⟩
    · rw [Tally.makeRoom, length_lengthenOne]
      exact hlength
    · rw [Tally.makeRoom, sum_lengthenOne _ hrest]
      omega
    · rw [Tally.makeRoom, share_lengthenOne]
      omega
    · intro _
      exact lt_of_lt_of_le (by omega) hmore

theorem Exceeds.repeat_makeRoom {limit words excess : Nat} {counts : List Nat}
    (h : Exceeds limit words excess counts) (hwords : words ≤ 2 ^ limit) {steps : Nat}
    (hsteps : steps ≤ excess) :
    Exceeds limit words (excess - steps) (Nat.repeat Tally.makeRoom steps counts) := by
  induction steps with
  | zero => exact h
  | succ steps ih =>
    have hone := ih (Nat.le_of_succ_le hsteps)
    rw [show excess - steps = excess - (steps + 1) + 1 by omega] at hone
    exact hone.makeRoom hwords

theorem Exceeds.fit {limit words excess : Nat} {counts : List Nat}
    (h : Exceeds limit words excess counts) (hwords : words ≤ 2 ^ limit) :
    Exceeds limit words 0 (fit limit counts) := by
  have hall := h.repeat_makeRoom hwords (le_refl excess)
  rw [Nat.sub_self] at hall
  rw [Tally.fit, h.share, Nat.one_shiftLeft, Nat.add_sub_cancel_left]
  exact hall

end Tally

theorem mul_shares_le {long : List Nat} (hlong : ∀ depth ∈ long, limit ≤ depth) :
    2 ^ limit * shares long ≤ long.length := by
  induction long with
  | nil => simp [shares]
  | cons depth long ih =>
    have hdepth : (2 : ℚ) ^ limit * (1 / 2) ^ depth ≤ 1 := by
      calc (2 : ℚ) ^ limit * (1 / 2) ^ depth
          ≤ 2 ^ limit * (1 / 2) ^ limit := by
            have hle := pow_le_pow_of_le_one (by norm_num : (0 : ℚ) ≤ 1 / 2) (by norm_num)
              (hlong depth List.mem_cons_self)
            gcongr
        _ = 1 := by rw [← mul_pow]; norm_num
    have hrest := ih fun d hd => hlong d (List.mem_cons_of_mem _ hd)
    rw [shares_cons, mul_add, List.length_cons]
    push_cast
    linarith

/-- Words cut off from a tree have shares that are too large by less than there are of the greatest
length. -/
theorem exceeds_tally (hlimit : 0 < limit) (hshares : shares depths = 1)
    (hlength : 2 ≤ depths.length) :
    ∃ excess, Tally.Exceeds limit depths.length excess (tally limit depths) := by
  have hdepths := pos_of_shares_eq_one hshares hlength
  obtain ⟨hcut, hsplit⟩ := sum_cutOff limit depths
  rw [← share_tally hlimit hdepths] at hcut
  rw [hshares] at hsplit
  have hlong : (2 : ℚ) ^ limit * shares (depths.filter (limit ≤ ·)) ≤
      (depths.filter (limit ≤ ·)).length :=
    mul_shares_le fun depth hdepth => of_decide_eq_true (List.mem_filter.1 hdepth).2
  have hwhole : (Tally.share 1 (tally limit depths) : ℚ) =
      2 ^ limit - 2 ^ limit * shares (depths.filter (limit ≤ ·)) +
        (depths.filter (limit ≤ ·)).length := by
    rw [hcut, eq_sub_of_add_eq hsplit.symm]
    ring
  have henough : 2 ^ limit ≤ Tally.share 1 (tally limit depths) := by
    have hcast : ((2 ^ limit : Nat) : ℚ) ≤ Tally.share 1 (tally limit depths) := by
      rw [hwhole]
      push_cast
      linarith
    exact_mod_cast hcast
  obtain ⟨excess, hexcess⟩ := Nat.exists_eq_add_of_le henough
  refine ⟨excess, by rw [tally, List.length_map, List.length_range],
    sum_eq_length_of_tally hlimit hdepths, hexcess, ?_⟩
  intro hpos
  rw [headD_tally hlimit]
  rw [hexcess] at hwhole
  push_cast at hwhole
  have hsome : depths.filter (limit ≤ ·) ≠ [] := by
    intro hnone
    rw [hnone] at hwhole
    simp only [shares, List.map_nil, List.sum_nil, List.length_nil, Nat.cast_zero] at hwhole
    have hzero : (excess : ℚ) = 0 := by linarith
    rw [Nat.cast_eq_zero] at hzero
    omega
  have htaken : (0 : ℚ) < 2 ^ limit * shares (depths.filter (limit ≤ ·)) :=
    mul_pos (by positivity) (shares_pos hsome)
  have hcast : (excess : ℚ) < (depths.filter (limit ≤ ·)).length := by linarith
  exact_mod_cast hcast

end Courier.Deflate
