import UniMem.TransparencyLog.Tree

/-!
# Inclusion proofs

The prover recurses on the leaves and the verifier on an interval. Both follow the sides of the leaf, so an accepted
proof is a climb over fixed sides, and its siblings are unique.
-/

namespace UniMem.TransparencyLog

open Library.BalancedTree FrontierProtocol

variable {Hash : Type}

/-- `inclusion`. -/
def inclusion (S : HashSuite Hash) (hashes : List Hash) (index : ℕ) : Py (List Hash) := do
  let _ ← count index 0 ((hashes.length : ℤ) - 1) "leaf index"
  if h : hashes.length ≤ 1 then return []
  else
    have := split_lt (by omega : 2 ≤ hashes.length)
    have := split_pos hashes.length
    if index < split hashes.length then
      let below ← inclusion S (hashes.take (split hashes.length)) index
      let sibling ← treeHash S (hashes.drop (split hashes.length))
      return below ++ [sibling]
    else
      let below ← inclusion S (hashes.drop (split hashes.length)) (index - split hashes.length)
      let sibling ← treeHash S (hashes.take (split hashes.length))
      return below ++ [sibling]
termination_by hashes.length
decreasing_by
  · rw [List.length_take]
    omega
  · rw [List.length_drop]
    omega

/-- `proof[used]`. -/
def siblingAt (proof : List Hash) (used : ℕ) : Py Hash :=
  match proof[used]? with
  | some sibling => .ok sibling
  | none => .error (.indexError "list index out of range")

/-- The nested function `fold` of `verify_inclusion`, on `[start, start + length)`. -/
def inclusionFold (S : HashSuite Hash) (leaf : Hash) (index : ℕ) (proof : List Hash)
    (start length offset : ℕ) : Py (Hash × ℕ) :=
  if h : length ≤ 1 then return (leaf, offset)
  else
    have := split_lt (by omega : 2 ≤ length)
    have := split_pos length
    if index < start + split length then do
      let (child, used) ← inclusionFold S leaf index proof start (split length) offset
      let sibling ← siblingAt proof used
      let value ← S.nodeHash child sibling
      return (value, used + 1)
    else do
      let (child, used) ← inclusionFold S leaf index proof (start + split length)
        (length - split length) offset
      let sibling ← siblingAt proof used
      let value ← S.nodeHash sibling child
      return (value, used + 1)
termination_by length

/-- `except (ValueError, IndexError, TypeError): return False`. -/
def falseOnError (body : Py Bool) : Py Bool :=
  match body with
  | .error (.valueError _) | .error (.indexError _) | .error (.typeError _) => .ok false
  | result => result

/-- The loop `for sibling in proof: _hash(sibling)`. -/
def checkHashes (S : HashSuite Hash) : List Hash → Py Unit
  | [] => return ()
  | sibling :: proof => do
    let _ ← S.hash sibling
    checkHashes S proof

/-- `verify_inclusion`. -/
def verifyInclusion [DecidableEq Hash] (S : HashSuite Hash) (leaf : Hash) (index size : ℕ)
    (proof : List Hash) (rootHash : Hash) : Py Bool :=
  falseOnError do
    let _ ← count size 1 maxTreeLeaves "count"
    let _ ← count index 0 ((size : ℤ) - 1) "count"
    let _ ← S.hash leaf
    let _ ← S.hash rootHash
    let _ ← count proof.length 0 32 "count"
    checkHashes S proof
    let (computed, used) ← inclusionFold S leaf index proof 0 size 0
    return computed == rootHash && used == proof.length

section Specification

variable {S : HashSuite Hash}

theorem falseOnError_eq_ok_true_iff {body : Py Bool} :
    falseOnError body = .ok true ↔ body = .ok true := by
  rcases body with error | result
  · cases error <;> simp [falseOnError]
  · simp [falseOnError]

variable {proof : List Hash}

theorem checkHashes_eq_ok_iff {result : Unit} :
    checkHashes S proof = .ok result ↔ ∀ sibling ∈ proof, S.canonical sibling := by
  induction proof with
  | nil => simp [checkHashes]
  | cons sibling proof ih =>
    rw [checkHashes, Py.bind_eq_ok_iff]
    simp only [hash_eq_ok_iff, ih, List.forall_mem_cons]
    constructor
    · rintro ⟨_, ⟨hsibling, rfl⟩, hproof⟩
      exact ⟨hsibling, hproof⟩
    · rintro ⟨hsibling, hproof⟩
      exact ⟨sibling, ⟨hsibling, rfl⟩, hproof⟩

theorem siblingAt_eq_ok_iff {used : ℕ} {sibling : Hash} :
    siblingAt proof used = .ok sibling ↔ proof[used]? = some sibling := by
  unfold siblingAt
  split <;> simp_all

/-- On canonical leaves, `inclusion` returns the abstract audit path. -/
theorem inclusion_eq_path (hashes : List Hash) (hne : hashes ≠ [])
    (hcanonical : ∀ leaf ∈ hashes, S.canonical leaf) (hbound : hashes.length ≤ 2 ^ 20)
    (index : ℕ) (hindex : index < hashes.length) :
    inclusion S hashes index = .ok (path S.combine S.emptyHash hashes index) := by
  induction hashes, hne using block_induction generalizing index with
  | single leaf =>
    rw [inclusion, count_of_mem _ (by omega) (by simp at hindex ⊢; omega), Py.bind_ok,
      dif_pos (by simp), path_of_length_le_one _ _ _ _ (by simp)]
    rfl
  | join block rest exponent hblock hpos hle _ _ ihblock ihrest =>
    obtain ⟨hblockCanonical, hrestCanonical⟩ := List.forall_mem_append.mp hcanonical
    have htwo := two_le_length_append hblock hpos
    have hsum : block.length + rest.length ≤ 2 ^ 20 := by rwa [List.length_append] at hbound
    have hlt : index < block.length + rest.length := by rwa [List.length_append] at hindex
    have hexponent : exponent < 20 := (Nat.pow_lt_pow_iff_right (by decide : 1 < 2)).mp (by omega)
    have hhalf : 2 ^ exponent ≤ 2 ^ 19 := Nat.pow_le_pow_right (by decide) (by omega)
    have hlimit := two_pow_le_maxTreeLeaves
    rw [inclusion, count_of_mem _ (by omega) (by omega), Py.bind_ok, dif_neg (by omega)]
    simp only [split_eq_pivot htwo, pivot_append hblock hpos hle, List.take_left, List.drop_left]
    by_cases hcut : index < block.length
    · rw [if_pos hcut, ihblock hblockCanonical (by omega) index hcut,
        treeHash_eq_root rest hrestCanonical (by omega), path_append_left _ _ hblock hpos hle index hcut]
      rfl
    · rw [if_neg hcut, ihrest hrestCanonical (by omega) (index - block.length) (by omega),
        treeHash_eq_root block hblockCanonical (by omega),
        path_append_right _ _ hblock hpos hle index (by omega)]
      rfl

theorem canonical_path (hashes : List Hash) (hcanonical : ∀ leaf ∈ hashes, S.canonical leaf)
    (index : ℕ) : ∀ sibling ∈ path S.combine S.emptyHash hashes index, S.canonical sibling := by
  rcases eq_or_ne hashes [] with rfl | hne
  · rw [path_of_length_le_one _ _ _ _ (by simp)]
    simp
  induction hashes, hne using block_induction generalizing index with
  | single leaf =>
    rw [path_of_length_le_one _ _ _ _ (by simp)]
    simp
  | join block rest exponent hblock hpos hle _ _ ihblock ihrest =>
    obtain ⟨hblockCanonical, hrestCanonical⟩ := List.forall_mem_append.mp hcanonical
    by_cases hcut : index < block.length
    · rw [path_append_left _ _ hblock hpos hle index hcut]
      intro sibling hsibling
      rcases List.mem_append.mp hsibling with hbelow | hlast
      · exact ihblock hblockCanonical index sibling hbelow
      · rw [List.mem_singleton.mp hlast]
        exact canonical_root rest hrestCanonical
    · rw [path_append_right _ _ hblock hpos hle index (by omega)]
      intro sibling hsibling
      rcases List.mem_append.mp hsibling with hbelow | hlast
      · exact ihrest hrestCanonical _ sibling hbelow
      · rw [List.mem_singleton.mp hlast]
        exact canonical_root block hblockCanonical

theorem canonical_climb {leaf : Hash} (hleaf : S.canonical leaf) (hproof : ∀ sibling ∈ proof, S.canonical sibling)
    (steps : List Side) :
    S.canonical (climb S.combine leaf (steps.zip proof)) := by
  have hsteps : ∀ step ∈ steps.zip proof, step.2 ∈ S.carrier :=
    fun step hstep ↦ hproof _ (List.of_mem_zip hstep).2
  exact climb_mem carrier_closed _ hleaf hsteps

theorem foldLevel_eq_ok_iff {leaf : Hash} (hleaf : S.canonical leaf)
    (hproof : ∀ sibling ∈ proof, S.canonical sibling) (offset : ℕ) (side : Side) (steps : List Side)
    (childResult : Py (Hash × ℕ)) (result : Hash × ℕ)
    (hchild : ∀ child, childResult = .ok child ↔ offset + steps.length ≤ proof.length ∧ child =
      (climb S.combine leaf (steps.zip (proof.drop offset)), offset + steps.length)) :
    (childResult >>= fun child ↦ siblingAt proof child.2 >>= fun sibling ↦
        (match side with
          | .left => S.nodeHash sibling child.1
          | .right => S.nodeHash child.1 sibling) >>= fun value ↦
        return (value, child.2 + 1)) = .ok result ↔ offset + (steps ++ [side]).length ≤ proof.length ∧
      result = (climb S.combine leaf ((steps ++ [side]).zip (proof.drop offset)),
        offset + (steps ++ [side]).length) := by
  have hdrop : ∀ sibling ∈ proof.drop offset, S.canonical sibling :=
    fun sibling hsibling ↦ hproof sibling (List.mem_of_mem_drop hsibling)
  have hclimb := canonical_climb hleaf hdrop steps
  have hnode (sibling : Hash) (hsibling : proof[offset + steps.length]? = some sibling) :
      (match side with
        | .left => S.nodeHash sibling (climb S.combine leaf (steps.zip (proof.drop offset)))
        | .right => S.nodeHash (climb S.combine leaf (steps.zip (proof.drop offset))) sibling) =
      .ok (climb S.combine leaf ((steps ++ [side]).zip (proof.drop offset))) := by
    have hcanonical := hproof sibling (List.mem_of_getElem? hsibling)
    rw [climb_zip_concat S.combine leaf sibling steps side (proof.drop offset)
      (by rw [List.getElem?_drop, hsibling])]
    cases side with
    | left => exact nodeHash_eq_ok hcanonical hclimb
    | right => exact nodeHash_eq_ok hclimb hcanonical
  rw [Py.bind_eq_ok_iff]
  constructor
  · rintro ⟨child, hok, hrest⟩
    obtain ⟨hle, rfl⟩ := (hchild child).mp hok
    obtain ⟨sibling, hsibling, hvalue⟩ := Py.of_bind hrest
    rw [siblingAt_eq_ok_iff] at hsibling
    rw [hnode sibling hsibling, Py.bind_ok, Py.pure_eq_ok] at hvalue
    have hlt := (List.getElem?_eq_some_iff.mp hsibling).1
    rw [List.length_append, List.length_singleton]
    exact ⟨by omega, (Except.ok.inj hvalue).symm⟩
  · rintro ⟨hle, rfl⟩
    rw [List.length_append, List.length_singleton] at hle
    obtain ⟨sibling, hsibling⟩ : ∃ sibling, proof[offset + steps.length]? = some sibling :=
      ⟨_, List.getElem?_eq_getElem (by omega)⟩
    refine ⟨_, (hchild _).mpr ⟨by omega, rfl⟩, ?_⟩
    rw [siblingAt_eq_ok_iff.mpr hsibling, Py.bind_ok, hnode sibling hsibling, Py.bind_ok,
      List.length_append, List.length_singleton]
    rfl

theorem inclusionFold_eq_ok_iff {leaf : Hash} (hleaf : S.canonical leaf)
    (hproof : ∀ sibling ∈ proof, S.canonical sibling) (index length start offset : ℕ) (hstart : start ≤ index)
    (hoffset : offset ≤ proof.length) (result : Hash × ℕ) :
    inclusionFold S leaf index proof start length offset = .ok result ↔
      offset + (sides length (index - start)).length ≤ proof.length ∧
      result = (climb S.combine leaf ((sides length (index - start)).zip (proof.drop offset)),
        offset + (sides length (index - start)).length) := by
  induction length using Nat.strong_induction_on generalizing start result with
  | _ length ih =>
    rcases Nat.lt_or_ge 1 length with htwo | hone
    · have hlt := pivot_lt htwo
      have hpos := pivot_pos length
      rw [inclusionFold, dif_neg (by omega), sides_cut length _ htwo]
      simp only [split_eq_pivot htwo]
      by_cases hcut : index < start + pivot length
      · rw [if_pos hcut, if_pos (by omega)]
        exact foldLevel_eq_ok_iff hleaf hproof offset .right _ _ result
          fun child ↦ ih (pivot length) hlt start hstart child
      · have hshift : index - start - pivot length = index - (start + pivot length) := by omega
        rw [if_neg hcut, if_neg (by omega), hshift]
        exact foldLevel_eq_ok_iff hleaf hproof offset .left _ _ result fun child ↦
          ih (length - pivot length) (by omega) (start + pivot length) (by omega) child
    · rw [inclusionFold, dif_pos hone, sides_of_le_one _ _ hone]
      simp only [Py.pure_eq_ok, Except.ok.injEq, List.length_nil, Nat.add_zero, List.zip_nil_left, climb_nil]
      exact ⟨fun h ↦ ⟨hoffset, h.symm⟩, fun h ↦ h.2.symm⟩

theorem verifyInclusion_eq_true_iff [DecidableEq Hash] (leaf : Hash) (index size : ℕ)
    (proof : List Hash) (rootHash : Hash) (hsize : 1 ≤ size) (hbound : size ≤ maxTreeLeaves) (hindex : index < size) :
    verifyInclusion S leaf index size proof rootHash = .ok true ↔
      S.canonical leaf ∧ S.canonical rootHash ∧ proof.length ≤ 32 ∧
      (∀ sibling ∈ proof, S.canonical sibling) ∧ proof.length = (sides size index).length ∧
      climb S.combine leaf ((sides size index).zip proof) = rootHash := by
  rw [verifyInclusion, falseOnError_eq_ok_true_iff, count_of_mem _ (by omega) (by omega),
    Py.bind_ok, count_of_mem _ (by omega) (by omega), Py.bind_ok]
  constructor
  · intro h
    obtain ⟨_, hleaf, h⟩ := Py.of_bind h
    obtain ⟨_, hroot, h⟩ := Py.of_bind h
    obtain ⟨_, hcount, h⟩ := Py.of_bind h
    obtain ⟨_, hproof, h⟩ := Py.of_bind h
    obtain ⟨⟨computed, used⟩, hfold, h⟩ := Py.of_bind h
    rw [hash_eq_ok_iff] at hleaf hroot
    rw [checkHashes_eq_ok_iff] at hproof
    rw [count_eq_ok_iff] at hcount
    obtain ⟨hle, hresult⟩ := (inclusionFold_eq_ok_iff hleaf.1 hproof index size 0 0
      (Nat.zero_le _) (Nat.zero_le _) _).mp hfold
    simp only [Nat.sub_zero, Nat.zero_add, List.drop_zero, Prod.mk.injEq] at hle hresult
    obtain ⟨rfl, rfl⟩ := hresult
    simp only [Py.pure_eq_ok, Except.ok.injEq, Bool.and_eq_true, beq_iff_eq] at h
    exact ⟨hleaf.1, hroot.1, by omega, hproof, h.2.symm, h.1⟩
  · rintro ⟨hleaf, hroot, hlength, hproof, hsides, hclimb⟩
    have hfold := (inclusionFold_eq_ok_iff hleaf hproof index size 0 0 (Nat.zero_le _)
      (Nat.zero_le _) _).mpr ⟨by simp [hsides], rfl⟩
    have hcheck : checkHashes S proof = .ok () := checkHashes_eq_ok_iff.mpr hproof
    rw [hash_eq_ok hleaf, Py.bind_ok, hash_eq_ok hroot, Py.bind_ok,
      count_of_mem _ (by omega) (by omega), Py.bind_ok, hcheck, Py.bind_ok, hfold, Py.bind_ok]
    simp [hclimb, hsides]

end Specification

/-- Accepted exactly when the leaf stands at the index and the proof is the prover's. -/
theorem verifyInclusion_treeHash_iff [DecidableEq Hash] (S : HashSuite Hash)
    (hfree : S.CollisionFree) (hashes : List Hash) (hne : hashes ≠ [])
    (hcanonical : ∀ leaf ∈ hashes, S.canonical leaf) (hbound : hashes.length ≤ maxTreeLeaves)
    (index : ℕ) (hindex : index < hashes.length) (leaf : Hash) (proof : List Hash) :
    (do
      let rootHash ← treeHash S hashes
      verifyInclusion S leaf index hashes.length proof rootHash) = .ok true ↔
      hashes[index]? = some leaf ∧ inclusion S hashes index = .ok proof := by
  have hpos := List.length_pos_of_ne_nil hne
  rw [treeHash_eq_root hashes hcanonical hbound, Py.bind_ok,
    verifyInclusion_eq_true_iff leaf index hashes.length proof _ hpos hbound hindex,
    inclusion_eq_path hashes hne hcanonical (hbound.trans maxTreeLeaves_le_two_pow) index hindex]
  have hpathLength := length_path S.combine S.emptyHash hashes hne index
  have hpath := canonical_path hashes hcanonical index
  obtain ⟨member, hmember⟩ : ∃ member, hashes[index]? = some member :=
    ⟨_, List.getElem?_eq_getElem hindex⟩
  have hclimbPath := climb_path S.combine S.emptyHash hashes hne index member hmember
  constructor
  · rintro ⟨hleaf, -, -, hproof, hlength, hclimb⟩
    obtain ⟨rfl, rfl⟩ := climb_inj carrier_closed hfree.injOn (sides hashes.length index)
      hleaf (hcanonical member (List.mem_of_getElem? hmember)) hproof hpath hlength hpathLength
      (hclimb.trans hclimbPath.symm)
    exact ⟨hmember, rfl⟩
  · rintro ⟨hleaf, hproof⟩
    obtain rfl : member = leaf := Option.some.inj (hmember.symm.trans hleaf)
    obtain rfl := Except.ok.inj hproof
    have hdepth := length_sides_le 20 hashes.length index
      (hbound.trans maxTreeLeaves_le_two_pow)
    exact ⟨hcanonical member (List.mem_of_getElem? hmember), canonical_root hashes hcanonical,
      by omega, hpath, hpathLength, hclimbPath⟩

theorem verifyInclusion_treeHash_three_leaves :
    (do
      let rootHash ← treeHash FreeHash.suite [.leaf 0, .leaf 1, .leaf 2]
      verifyInclusion FreeHash.suite (.leaf 2) 2 3 [.node (.leaf 0) (.leaf 1)] rootHash) = .ok true ↔
      [FreeHash.leaf 0, .leaf 1, .leaf 2][2]? = some (.leaf 2) ∧
        inclusion FreeHash.suite [.leaf 0, .leaf 1, .leaf 2] 2 = .ok [.node (.leaf 0) (.leaf 1)] :=
  verifyInclusion_treeHash_iff FreeHash.suite FreeHash.suite_collisionFree
    [.leaf 0, .leaf 1, .leaf 2] (by simp) (by decide) (by norm_num [maxTreeLeaves]) 2 (by decide)
    (.leaf 2) [.node (.leaf 0) (.leaf 1)]

end UniMem.TransparencyLog
