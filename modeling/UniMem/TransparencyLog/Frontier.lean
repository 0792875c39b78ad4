import UniMem.TransparencyLog.Inclusion

/-!
# The logarithmic Merkle frontier

A frontier keeps one root per set bit of the size. `Summarizes` cuts the leaves into its blocks, appending is a
binary increment, and the lowest blocks are those on the path to the last leaf.
-/

namespace UniMem.TransparencyLog

open Library.BalancedTree FrontierProtocol

variable {Hash : Type}

/-- `frontier_append`: the carry moves up through the occupied levels. -/
def frontierAppend (S : HashSuite Hash) : List (Option Hash) → Hash → Py (List (Option Hash))
  | [], value => return [some value]
  | none :: levels, value => return some value :: levels
  | some subtree :: levels, value => do
    let merged ← S.nodeHash subtree value
    let above ← frontierAppend S levels merged
    return none :: above

/-- `frontier_append_with_proof`: the merged subtrees, then the occupied levels above. -/
def frontierAppendWithProof (S : HashSuite Hash) :
    List (Option Hash) → Hash → Py (List (Option Hash) × List Hash)
  | [], value => return ([some value], [])
  | none :: levels, value => return (some value :: levels, levels.filterMap id)
  | some subtree :: levels, value => do
    let merged ← S.nodeHash subtree value
    let (above, siblings) ← frontierAppendWithProof S levels merged
    return (none :: above, subtree :: siblings)

/-- The loop of `frontier_root`; the empty text is an accumulator not set. -/
def frontierAccumulate [DecidableEq Hash] (S : HashSuite Hash) :
    List (Option Hash) → Hash → Py Hash
  | [], accumulator => return accumulator
  | none :: levels, accumulator => frontierAccumulate S levels accumulator
  | some subtree :: levels, accumulator => do
    let accumulator ← if accumulator ≠ S.blank then S.nodeHash subtree accumulator
      else pure subtree
    frontierAccumulate S levels accumulator

/-- `frontier_root`. -/
def frontierRoot [DecidableEq Hash] (S : HashSuite Hash) (frontier : List (Option Hash)) :
    Py Hash := do
  let accumulator ← frontierAccumulate S frontier S.blank
  return if accumulator ≠ S.blank then accumulator else S.emptyHash

/-- The sum of `1 << level` over the occupied levels, from a given level on. -/
def frontierSizeFrom (level : ℕ) : List (Option Hash) → ℕ
  | [] => 0
  | none :: levels => frontierSizeFrom (level + 1) levels
  | some _ :: levels => (1 <<< level) + frontierSizeFrom (level + 1) levels

/-- `frontier_size`. -/
def frontierSize (frontier : List (Option Hash)) : ℕ := frontierSizeFrom 0 frontier

/-- Folding `frontier_append` over a list of leaves. -/
def frontierFold (S : HashSuite Hash) (frontier : List (Option Hash)) (leaves : List Hash) :
    Py (List (Option Hash)) := leaves.foldlM (frontierAppend S) frontier

/-- The levels from `level` on hold the roots of consecutive blocks of the leaves. -/
inductive Summarizes (S : HashSuite Hash) : ℕ → List (Option Hash) → List Hash → Prop
  | nil (level : ℕ) : Summarizes S level [] []
  | gap {level : ℕ} {levels : List (Option Hash)} {leaves : List Hash} :
    Summarizes S (level + 1) levels leaves → Summarizes S level (none :: levels) leaves
  | block {level : ℕ} {levels : List (Option Hash)} {older block : List Hash} :
    Summarizes S (level + 1) levels older → block.length = 2 ^ level →
    Summarizes S level (some (S.root block) :: levels) (older ++ block)

variable {S : HashSuite Hash}

variable {frontier : List (Option Hash)} {leaves : List Hash}

theorem Summarizes.frontierAppend {level : ℕ} (h : Summarizes S level frontier leaves) (block : List Hash)
    (hleaves : ∀ leaf ∈ leaves, S.canonical leaf) (hblock : ∀ leaf ∈ block, S.canonical leaf)
    (hlength : block.length = 2 ^ level) :
    ∃ result, frontierAppend S frontier (S.root block) = .ok result ∧
      Summarizes S level result (leaves ++ block) := by
  induction h generalizing block with
  | nil level => exact ⟨_, rfl, (Summarizes.nil (level + 1)).block hlength⟩
  | gap h _ => exact ⟨_, rfl, h.block hlength⟩
  | @block level levels older lower h hlower ih =>
    obtain ⟨holder, hlowerCanonical⟩ := List.forall_mem_append.mp hleaves
    have hpow : 2 ^ (level + 1) = 2 ^ level + 2 ^ level := by rw [Nat.pow_succ]; omega
    have hpos : 0 < 2 ^ level := Nat.pow_pos (by decide)
    have hmerged : S.combine (S.root lower) (S.root block) = S.root (lower ++ block) :=
      (root_append _ _ hlower (by omega) (by omega)).symm
    obtain ⟨above, habove, hsummary⟩ := ih (lower ++ block) holder
      (List.forall_mem_append.mpr ⟨hlowerCanonical, hblock⟩)
      (by rw [List.length_append]; omega)
    refine ⟨none :: above, ?_, ?_⟩
    · rw [TransparencyLog.frontierAppend,
        nodeHash_eq_ok (canonical_root _ hlowerCanonical) (canonical_root _ hblock), Py.bind_ok, hmerged, habove]
      rfl
    · rw [List.append_assoc]
      exact hsummary.gap

theorem Summarizes.frontierSizeFrom {level : ℕ} (h : Summarizes S level frontier leaves) :
    frontierSizeFrom level frontier = leaves.length := by
  induction h with
  | nil level => rfl
  | gap _ ih => exact ih
  | block _ hlength ih =>
    rw [TransparencyLog.frontierSizeFrom, ih, List.length_append, hlength, Nat.shiftLeft_eq, one_mul, Nat.add_comm]

theorem canonical_ne_blank {value : Hash} (h : S.canonical value) : value ≠ S.blank := by
  intro hblank
  rw [hblank, S.canonical_blank] at h
  exact Bool.false_ne_true h

theorem Summarizes.frontierAccumulate [DecidableEq Hash] {level : ℕ} (h : Summarizes S level frontier leaves)
    (newest : List Hash) (hleaves : ∀ leaf ∈ leaves, S.canonical leaf)
    (hnewest : ∀ leaf ∈ newest, S.canonical leaf) (hpos : 0 < newest.length) (hle : newest.length ≤ 2 ^ level) :
    frontierAccumulate S frontier (S.root newest) = .ok (S.root (leaves ++ newest)) := by
  induction h generalizing newest with
  | nil level => rfl
  | gap _ ih =>
    rw [TransparencyLog.frontierAccumulate]
    apply ih newest hleaves hnewest hpos
    rw [Nat.pow_succ]
    omega
  | @block level levels older lower h hlower ih =>
    obtain ⟨holder, hlowerCanonical⟩ := List.forall_mem_append.mp hleaves
    have hpow : 2 ^ (level + 1) = 2 ^ level + 2 ^ level := by rw [Nat.pow_succ]; omega
    have hmerged : S.combine (S.root lower) (S.root newest) = S.root (lower ++ newest) :=
      (root_append _ _ hlower hpos hle).symm
    have habove := ih (lower ++ newest) holder
      (List.forall_mem_append.mpr ⟨hlowerCanonical, hnewest⟩)
      (by rw [List.length_append]; omega) (by rw [List.length_append]; omega)
    rw [TransparencyLog.frontierAccumulate, if_pos (canonical_ne_blank (canonical_root newest hnewest)),
      nodeHash_eq_ok (canonical_root _ hlowerCanonical) (canonical_root _ hnewest), Py.bind_ok,
      hmerged, List.append_assoc]
    exact habove

theorem Summarizes.frontierAccumulate_blank [DecidableEq Hash] {level : ℕ}
    (h : Summarizes S level frontier leaves) (hleaves : ∀ leaf ∈ leaves, S.canonical leaf) :
    TransparencyLog.frontierAccumulate S frontier S.blank = .ok (if leaves = [] then S.blank else S.root leaves) := by
  induction h with
  | nil level => simp [TransparencyLog.frontierAccumulate]
  | gap _ ih =>
    rw [TransparencyLog.frontierAccumulate]
    exact ih hleaves
  | @block level levels older lower h hlower ih =>
    have hpos : 0 < 2 ^ level := Nat.pow_pos (by decide)
    have hne : older ++ lower ≠ [] := by
      apply List.append_ne_nil_of_right_ne_nil
      exact List.ne_nil_of_length_pos (by omega)
    have habove := h.frontierAccumulate lower (fun leaf hleaf ↦ hleaves leaf (by simp [hleaf]))
      (fun leaf hleaf ↦ hleaves leaf (by simp [hleaf])) (by omega)
      (by rw [Nat.pow_succ]; omega)
    rw [TransparencyLog.frontierAccumulate, if_neg (by simp), if_neg hne]
    exact habove

theorem Summarizes.frontierRoot [DecidableEq Hash] (h : Summarizes S 0 frontier leaves)
    (hleaves : ∀ leaf ∈ leaves, S.canonical leaf) :
    TransparencyLog.frontierRoot S frontier = .ok (S.root leaves) := by
  rw [TransparencyLog.frontierRoot, h.frontierAccumulate_blank hleaves, Py.bind_ok]
  rcases eq_or_ne leaves [] with rfl | hne
  · simp [HashSuite.root]
  · rw [if_neg hne, if_pos (canonical_ne_blank (canonical_root leaves hleaves))]
    rfl

theorem path_last_of_lower {level : ℕ} {older lower newest siblings : List Hash} (hlower : lower.length = 2 ^ level)
    (hpos : 0 < newest.length) (hle : newest.length ≤ 2 ^ level)
    (h : path S.combine S.emptyHash (older ++ (lower ++ newest)) (older.length + (lower ++ newest).length - 1) =
      path S.combine S.emptyHash (lower ++ newest) ((lower ++ newest).length - 1) ++ siblings) :
    path S.combine S.emptyHash (older ++ lower ++ newest) ((older ++ lower).length + newest.length - 1) =
      path S.combine S.emptyHash newest (newest.length - 1) ++ S.root lower :: siblings := by
  have hcut := path_append_right S.combine S.emptyHash hlower hpos hle
    ((lower ++ newest).length - 1) (by rw [List.length_append]; omega)
  rw [show (lower ++ newest).length - 1 - lower.length = newest.length - 1 by
    rw [List.length_append]
    omega] at hcut
  rw [hcut, List.append_assoc] at h
  have hindex : (older ++ lower).length + newest.length - 1 = older.length + (lower ++ newest).length - 1 := by
    simp only [List.length_append]
    omega
  rw [List.append_assoc, hindex]
  exact h

theorem Summarizes.path_last {level : ℕ} (h : Summarizes S level frontier leaves) (newest : List Hash)
    (hpos : 0 < newest.length) (hle : newest.length ≤ 2 ^ level) :
    path S.combine S.emptyHash (leaves ++ newest) (leaves.length + newest.length - 1) =
      path S.combine S.emptyHash newest (newest.length - 1) ++ frontier.filterMap id := by
  induction h generalizing newest with
  | nil level => simp
  | gap _ ih =>
    rw [List.filterMap_cons_none rfl]
    apply ih newest hpos
    rw [Nat.pow_succ]
    omega
  | @block level levels older lower h hlower ih =>
    have hpow : 2 ^ (level + 1) = 2 ^ level + 2 ^ level := by rw [Nat.pow_succ]; omega
    have habove := ih (lower ++ newest) (by rw [List.length_append]; omega)
      (by rw [List.length_append]; omega)
    exact path_last_of_lower hlower hpos hle habove

theorem Summarizes.frontierAppendWithProof {level : ℕ} (h : Summarizes S level frontier leaves)
    (block : List Hash) (hleaves : ∀ leaf ∈ leaves, S.canonical leaf) (hblock : ∀ leaf ∈ block, S.canonical leaf)
    (hlength : block.length = 2 ^ level) :
    ∃ result siblings, TransparencyLog.frontierAppend S frontier (S.root block) = .ok result ∧
      TransparencyLog.frontierAppendWithProof S frontier (S.root block) = .ok (result, siblings) ∧
      path S.combine S.emptyHash (leaves ++ block) (leaves.length + block.length - 1) =
        path S.combine S.emptyHash block (block.length - 1) ++ siblings := by
  induction h generalizing block with
  | nil level => exact ⟨_, [], rfl, rfl, by simp⟩
  | @gap level levels leaves h _ =>
    have hpos : 0 < 2 ^ level := Nat.pow_pos (by decide)
    refine ⟨_, levels.filterMap id, rfl, rfl, ?_⟩
    apply h.path_last block (by omega)
    rw [Nat.pow_succ]
    omega
  | @block level levels older lower h hlower ih =>
    obtain ⟨holder, hlowerCanonical⟩ := List.forall_mem_append.mp hleaves
    have hpow : 2 ^ (level + 1) = 2 ^ level + 2 ^ level := by rw [Nat.pow_succ]; omega
    have hpos : 0 < 2 ^ level := Nat.pow_pos (by decide)
    have hmerged : S.combine (S.root lower) (S.root block) = S.root (lower ++ block) :=
      (root_append _ _ hlower (by omega) (by omega)).symm
    have hnode := nodeHash_eq_ok (canonical_root _ hlowerCanonical) (canonical_root _ hblock)
    obtain ⟨above, siblings, hplain, hproof, hpath⟩ := ih (lower ++ block) holder
      (List.forall_mem_append.mpr ⟨hlowerCanonical, hblock⟩)
      (by rw [List.length_append]; omega)
    refine ⟨none :: above, S.root lower :: siblings, ?_, ?_, ?_⟩
    · rw [TransparencyLog.frontierAppend, hnode, Py.bind_ok, hmerged, hplain]
      rfl
    · rw [TransparencyLog.frontierAppendWithProof, hnode, Py.bind_ok, hmerged, hproof]
      rfl
    · exact path_last_of_lower hlower (by omega) hlength.le hpath

theorem Summarizes.frontierFold (h : Summarizes S 0 frontier leaves) (more : List Hash)
    (hleaves : ∀ leaf ∈ leaves, S.canonical leaf) (hmore : ∀ leaf ∈ more, S.canonical leaf) :
    ∃ result, TransparencyLog.frontierFold S frontier more = .ok result ∧ Summarizes S 0 result (leaves ++ more) := by
  induction more generalizing frontier leaves with
  | nil => exact ⟨frontier, rfl, by simpa using h⟩
  | cons leaf more ih =>
    have hleaf : ∀ other ∈ [leaf], S.canonical other := by simpa using hmore leaf (by simp)
    obtain ⟨middle, happend, hmiddle⟩ := h.frontierAppend [leaf] hleaves hleaf rfl
    have hroot : S.root [leaf] = leaf := root_singleton _ _ leaf
    obtain ⟨result, hfold, hresult⟩ := ih hmiddle
      (by simpa [or_imp, forall_and] using ⟨hleaves, hmore leaf (by simp)⟩)
      (fun other hother ↦ hmore other (by simp [hother]))
    refine ⟨result, ?_, by simpa using hresult⟩
    rw [TransparencyLog.frontierFold, List.foldlM_cons, ← hroot, happend, Py.bind_ok]
    exact hfold

/-- The frontier agrees with the tree in size, root and siblings. -/
theorem frontier_agrees_with_tree [DecidableEq Hash] (S : HashSuite Hash) (leaves : List Hash)
    (hleaves : ∀ leaf ∈ leaves, S.canonical leaf) :
    ∃ frontier, frontierFold S [] leaves = .ok frontier ∧ frontierSize frontier = leaves.length ∧
      (leaves.length ≤ maxTreeLeaves → frontierRoot S frontier = treeHash S leaves) ∧
      ∀ leaf, S.canonical leaf → ∃ result siblings, frontierAppend S frontier leaf = .ok result ∧
        frontierAppendWithProof S frontier leaf = .ok (result, siblings) ∧ (leaves.length < 2 ^ 20 →
          inclusion S (leaves ++ [leaf]) leaves.length = .ok siblings) := by
  obtain ⟨frontier, hfold, hsummary⟩ := (Summarizes.nil (S := S) 0).frontierFold leaves
    (by simp) hleaves
  rw [List.nil_append] at hsummary
  refine ⟨frontier, hfold, hsummary.frontierSizeFrom, ?_, ?_⟩
  · intro hbound
    rw [hsummary.frontierRoot hleaves, treeHash_eq_root leaves hleaves hbound]
  · intro leaf hleaf
    have hsingle : ∀ other ∈ [leaf], S.canonical other := by simpa using hleaf
    have hroot : S.root [leaf] = leaf := root_singleton _ _ leaf
    obtain ⟨result, siblings, hplain, hproof, hpath⟩ :=
      hsummary.frontierAppendWithProof [leaf] hleaves hsingle rfl
    rw [hroot] at hplain hproof
    refine ⟨result, siblings, hplain, hproof, ?_⟩
    intro hbound
    rw [inclusion_eq_path (leaves ++ [leaf]) (by simp)
      (by simpa [or_imp, forall_and] using ⟨hleaves, hleaf⟩) (by simp; omega) leaves.length
      (by simp)]
    rw [path_of_length_le_one _ _ [leaf] _ (by simp), List.nil_append] at hpath
    rw [← hpath]
    simp

theorem frontier_agrees_with_three_leaves :
    (∀ leaf ∈ [FreeHash.leaf 0, .leaf 1, .leaf 2], FreeHash.suite.canonical leaf) ∧
    ∃ frontier, frontierFold FreeHash.suite [] [.leaf 0, .leaf 1, .leaf 2] = .ok frontier ∧
      frontierSize frontier = 3 ∧ (3 ≤ maxTreeLeaves → frontierRoot FreeHash.suite frontier =
        treeHash FreeHash.suite [.leaf 0, .leaf 1, .leaf 2]) ∧
      ∀ leaf, FreeHash.suite.canonical leaf → ∃ result siblings,
        frontierAppend FreeHash.suite frontier leaf = .ok result ∧
        frontierAppendWithProof FreeHash.suite frontier leaf = .ok (result, siblings) ∧
        (3 < 2 ^ 20 → inclusion FreeHash.suite ([.leaf 0, .leaf 1, .leaf 2] ++ [leaf]) 3 = .ok siblings) :=
  ⟨by decide, frontier_agrees_with_tree FreeHash.suite [.leaf 0, .leaf 1, .leaf 2] (by decide)⟩

/-- One leaf more than the limit: the frontier still has a root, and `tree_hash` raises. -/
theorem frontierRoot_ne_treeHash_above_limit :
    (∀ leaf ∈ List.replicate 1_000_001 (FreeHash.leaf 0), FreeHash.suite.canonical leaf) ∧ ∃ frontier,
      frontierFold FreeHash.suite [] (List.replicate 1_000_001 (FreeHash.leaf 0)) = .ok frontier ∧
      frontierRoot FreeHash.suite frontier ≠
        treeHash FreeHash.suite (List.replicate 1_000_001 (FreeHash.leaf 0)) := by
  have hcanonical : ∀ leaf ∈ List.replicate 1_000_001 (FreeHash.leaf 0),
      FreeHash.suite.canonical leaf := by
    intro leaf hleaf
    rw [List.eq_of_mem_replicate hleaf]
    rfl
  obtain ⟨frontier, hfold, hsummary⟩ :=
    (Summarizes.nil 0).frontierFold _ (fun _ h ↦ absurd h List.not_mem_nil) hcanonical
  obtain ⟨message, hmessage⟩ := treeHash_of_length_gt
    (List.replicate 1_000_001 (FreeHash.leaf 0))
    (by rw [List.length_replicate]; norm_num [maxTreeLeaves])
  rw [List.nil_append] at hsummary
  refine ⟨hcanonical, frontier, hfold, ?_⟩
  rw [hmessage, hsummary.frontierRoot hcanonical]
  intro h
  cases h

end UniMem.TransparencyLog
