import UniMem.TransparencyLog.ConsistencyWalk

/-!
# Consistency proofs are complete and sound

An accepted proof is a pair of climbs over the sides of the prefix. The root of the new tree therefore determines
the seed and all siblings, and with them the old root.
-/

namespace UniMem.TransparencyLog

open Library.BalancedTree FrontierProtocol

variable {Hash : Type} {S : HashSuite Hash}

/-- The prefix is a subtree of the new tree, so no seed is transmitted. -/
def seedOmitted (size oldSize : ℕ) : Bool := (prefixSides size oldSize).all (· == .right)

theorem seedOmitted_iff (size oldSize : ℕ) :
    seedOmitted size oldSize = true ↔ ∀ side ∈ prefixSides size oldSize, side = .right := by
  simp [seedOmitted]

theorem subproof_self (hashes : List Hash) (hcanonical : ∀ leaf ∈ hashes, S.canonical leaf)
    (hbound : hashes.length ≤ maxTreeLeaves) (complete : Bool) :
    subproof S hashes hashes.length complete = .ok ((if complete && seedOmitted hashes.length hashes.length then []
        else [prefixSeed S.combine S.emptyHash hashes hashes.length]) ++
          prefixPath S.combine S.emptyHash hashes hashes.length) := by
  rw [subproof, if_pos rfl, prefixPath_self, prefixSeed_self, List.append_nil, seedOmitted, prefixSides_self]
  cases complete with
  | true => rfl
  | false =>
    rw [treeHash_eq_root hashes hcanonical hbound]
    rfl

theorem subproof_eq (hashes : List Hash) (hne : hashes ≠ [])
    (hcanonical : ∀ leaf ∈ hashes, S.canonical leaf) (hbound : hashes.length ≤ maxTreeLeaves)
    (oldSize : ℕ) (hpos : 0 < oldSize) (hle : oldSize ≤ hashes.length) (complete : Bool) :
    subproof S hashes oldSize complete = .ok ((if complete && seedOmitted hashes.length oldSize then []
        else [prefixSeed S.combine S.emptyHash hashes oldSize]) ++
          prefixPath S.combine S.emptyHash hashes oldSize) := by
  rcases Nat.eq_or_lt_of_le hle with rfl | hlt
  · exact subproof_self hashes hcanonical hbound complete
  induction hashes, hne using block_induction generalizing oldSize complete with
  | single leaf =>
    rw [List.length_singleton] at hlt
    omega
  | join block rest exponent hblock hrestPos hrestLe hblockne hrestne ihblock ihrest =>
    obtain ⟨hblockCanonical, hrestCanonical⟩ := List.forall_mem_append.mp hcanonical
    have htwo := two_le_length_append hblock hrestPos
    have hsum : block.length + rest.length ≤ maxTreeLeaves := by
      rwa [List.length_append] at hbound
    have hltSum : oldSize < block.length + rest.length := by rwa [List.length_append] at hlt
    rw [subproof, if_neg hlt.ne, dif_neg (by omega)]
    simp only [split_eq_pivot htwo, pivot_append hblock hrestPos hrestLe, List.take_left,
      List.drop_left, seedOmitted, prefixSides_append hblock hrestPos hrestLe oldSize hlt,
      prefixPath_append _ _ hblock hrestPos hrestLe oldSize hlt,
      prefixSeed_append _ _ hblock hrestPos hrestLe oldSize hlt]
    by_cases hcut : oldSize ≤ block.length
    · have hbelow : subproof S block oldSize complete =
          .ok ((if complete && seedOmitted block.length oldSize then []
            else [prefixSeed S.combine S.emptyHash block oldSize]) ++
              prefixPath S.combine S.emptyHash block oldSize) := by
        rcases Nat.eq_or_lt_of_le hcut with rfl | hcutLt
        · exact subproof_self block hblockCanonical (by omega) complete
        · exact ihblock hblockCanonical (by omega) oldSize hpos hcut complete hcutLt
      rw [if_pos hcut, if_pos hcut, if_pos hcut, if_pos hcut, hbelow,
        treeHash_eq_root rest hrestCanonical (by omega)]
      simp [seedOmitted, HashSuite.root]
    · have hbelow := ihrest hrestCanonical (by omega) (oldSize - block.length) (by omega)
        (by omega) false (by omega)
      rw [if_neg hcut, if_neg hcut, if_neg hcut, if_neg hcut, hbelow,
        treeHash_eq_root block hblockCanonical (by omega)]
      simp [HashSuite.root]

theorem consistencyLoop_eq_true_iff [DecidableEq Hash] (oldRoot rootHash : Hash)
    (siblings : List Hash) (hsiblings : ∀ sibling ∈ siblings, S.canonical sibling)
    (first second : ℕ) (oldAcc newAcc : Hash) (hold : S.canonical oldAcc) (hnew : S.canonical newAcc) :
    consistencyLoop S oldRoot rootHash siblings first second oldAcc newAcc = .ok true ↔
      siblings.length = (walkSides first second).length ∧
      climb S.combine oldAcc (leftSteps ((walkSides first second).zip siblings)) = oldRoot ∧
      climb S.combine newAcc ((walkSides first second).zip siblings) = rootHash := by
  induction siblings generalizing first second oldAcc newAcc with
  | nil =>
    rcases eq_or_ne second 0 with rfl | hsecond
    · simp [consistencyLoop, walkSides_zero, leftSteps]
    · have hwalk : (walkSides first second).length ≠ 0 := by
        rw [walkSides, dif_neg hsecond]
        split <;> simp
      simp [consistencyLoop, hsecond, hwalk.symm]
  | cons sibling siblings ih =>
    have hsibling : S.canonical sibling := hsiblings sibling (by simp)
    have hrest : ∀ other ∈ siblings, S.canonical other :=
      fun other hother ↦ hsiblings other (by simp [hother])
    rw [consistencyLoop]
    rcases eq_or_ne second 0 with rfl | hsecond
    · simp [walkSides_zero]
    rw [if_neg hsecond]
    by_cases hside : first % 2 = 1 ∨ first = second
    · have htail := ih hrest ((stripZeros first second).1 / 2) ((stripZeros first second).2 / 2)
        (S.combine sibling oldAcc) (S.combine sibling newAcc) (S.canonical_combine _ _)
        (S.canonical_combine _ _)
      rw [if_pos hside, nodeHash_eq_ok hsibling hold, Py.bind_ok, nodeHash_eq_ok hsibling hnew,
        Py.bind_ok, walkSides_of_left hsecond hside, htail]
      simp [leftSteps, lift]
    · have htail := ih hrest (first / 2) (second / 2) oldAcc (S.combine newAcc sibling) hold
        (S.canonical_combine _ _)
      rw [if_neg hside, nodeHash_eq_ok hnew hsibling, Py.bind_ok, walkSides_of_right hsecond hside, htail]
      simp [leftSteps, lift]

theorem verifyConsistency_eq_true_iff [DecidableEq Hash] (oldSize size : ℕ)
    (oldRoot rootHash : Hash) (proof : List Hash) (hbound : size ≤ maxTreeLeaves) (hle : oldSize ≤ size) :
    verifyConsistency S oldSize size oldRoot rootHash proof = .ok true ↔
      S.canonical oldRoot ∧ S.canonical rootHash ∧ proof.length ≤ 64 ∧ (∀ sibling ∈ proof, S.canonical sibling) ∧
      (if oldSize = 0 then oldRoot = S.emptyHash ∧ proof = [] ∧ (size ≠ 0 ∨ rootHash = S.emptyHash)
      else if oldSize = size then oldRoot = rootHash ∧ proof = []
      else if (stripOnes (oldSize - 1) (size - 1)).1 = 0 then
        consistencyLoop S oldRoot rootHash proof (stripOnes (oldSize - 1) (size - 1)).1
          (stripOnes (oldSize - 1) (size - 1)).2 oldRoot oldRoot = .ok true
      else ∃ seed siblings, proof = seed :: siblings ∧
        consistencyLoop S oldRoot rootHash siblings (stripOnes (oldSize - 1) (size - 1)).1
          (stripOnes (oldSize - 1) (size - 1)).2 seed seed = .ok true) := by
  have hbody (body : Py Bool) :
      (S.hash oldRoot >>= fun _ ↦ S.hash rootHash >>= fun _ ↦
        count proof.length 0 64 "count" >>= fun _ ↦ checkHashes S proof >>= fun _ ↦ body) =
          .ok true ↔
      S.canonical oldRoot ∧ S.canonical rootHash ∧ proof.length ≤ 64 ∧
        (∀ sibling ∈ proof, S.canonical sibling) ∧ body = .ok true := by
    simp only [Py.bind_eq_ok_iff, hash_eq_ok_iff, count_eq_ok_iff, checkHashes_eq_ok_iff]
    constructor
    · rintro ⟨_, ⟨hold, -⟩, _, ⟨hroot, -⟩, _, ⟨hcount, -⟩, _, hproof, hresult⟩
      exact ⟨hold, hroot, by omega, hproof, hresult⟩
    · rintro ⟨hold, hroot, hlength, hproof, hresult⟩
      exact ⟨_, ⟨hold, rfl⟩, _, ⟨hroot, rfl⟩, _, ⟨by omega, rfl⟩, (), hproof, hresult⟩
  rw [verifyConsistency, falseOnError_eq_ok_true_iff, count_of_mem _ (by omega) (by omega),
    Py.bind_ok, count_of_mem _ (by omega) (by omega), Py.bind_ok, hbody]
  refine and_congr_right fun _ ↦ and_congr_right fun _ ↦ and_congr_right fun _ ↦
    and_congr_right fun _ ↦ ?_
  split
  · simp [and_assoc]
  split
  · simp
  dsimp only
  split
  · rfl
  · simp only [Py.bind_eq_ok_iff, siblingAt_eq_ok_iff]
    cases proof with
    | nil => simp
    | cons seed siblings => simp

section Roots

variable [DecidableEq Hash] (hashes : List Hash)
  (hcanonical : ∀ leaf ∈ hashes, S.canonical leaf) (hbound : hashes.length ≤ maxTreeLeaves)

include hcanonical hbound

omit [DecidableEq Hash] in
theorem consistency_eq (oldSize : ℕ) (hpos : 0 < oldSize) (hle : oldSize ≤ hashes.length) :
    consistency S hashes oldSize = .ok ((if seedOmitted hashes.length oldSize then []
        else [prefixSeed S.combine S.emptyHash hashes oldSize]) ++
          prefixPath S.combine S.emptyHash hashes oldSize) := by
  have hne : hashes ≠ [] := List.ne_nil_of_length_pos (by omega)
  rw [consistency, count_of_mem _ (by omega) (by omega), Py.bind_ok, if_neg (by omega),
    subproof_eq hashes hne hcanonical hbound oldSize hpos hle true, Bool.true_and]

theorem verifyConsistency_proper_iff (hfree : S.CollisionFree) (oldSize : ℕ) (hpos : 0 < oldSize)
    (hlt : oldSize < hashes.length) (oldRoot : Hash) (proof : List Hash) :
    verifyConsistency S oldSize hashes.length oldRoot (S.root hashes) proof = .ok true ↔
      S.root (hashes.take oldSize) = oldRoot ∧ consistency S hashes oldSize = .ok proof := by
  have hne : hashes ≠ [] := List.ne_nil_of_length_pos (by omega)
  have hparts : ∀ part, part ≠ [] → part <:+: hashes → S.root part ∈ S.carrier :=
    fun part _ hpart ↦ canonical_root part fun leaf hleaf ↦ hcanonical leaf (hpart.mem hleaf)
  obtain ⟨hseed, hpath⟩ := prefix_mem hashes hne hparts oldSize hpos hlt.le
  have hpathLength := length_prefixPath S.combine S.emptyHash hashes hne oldSize hlt.le
  have hdepth := length_prefixSides_le 20 hashes.length oldSize hpos
    (hbound.trans maxTreeLeaves_le_two_pow)
  have hnewClimb := climb_prefixPath S.combine S.emptyHash hashes hne oldSize hlt.le
  have holdClimb := climb_leftSteps_prefixPath S.combine S.emptyHash hashes hne oldSize hpos hlt.le
  have hwalk : walkSides (stripOnes (oldSize - 1) (hashes.length - 1)).1
      (stripOnes (oldSize - 1) (hashes.length - 1)).2 = prefixSides hashes.length oldSize :=
    startSides_eq_prefixSides hashes.length oldSize hpos hlt
  have hstart : (stripOnes (oldSize - 1) (hashes.length - 1)).1 = 0 ↔
      seedOmitted hashes.length oldSize = true := by
    rw [stripOnes_eq_zero_iff hashes.length oldSize hpos hlt, seedOmitted_iff]
  rw [verifyConsistency_eq_true_iff oldSize hashes.length oldRoot _ proof hbound hlt.le,
    if_neg (by omega), if_neg (by omega), consistency_eq hashes hcanonical hbound oldSize hpos hlt.le]
  by_cases homit : seedOmitted hashes.length oldSize = true
  · -- The old root is the seed of both climbs, and no left sibling changes it.
    have hseedRoot := prefixSeed_eq_root_take S.combine S.emptyHash hashes hne oldSize hpos hlt.le
      ((seedOmitted_iff _ _).mp homit)
    have hleft (siblings : List Hash) :
        leftSteps ((prefixSides hashes.length oldSize).zip siblings) = [] := by
      apply List.filter_eq_nil_iff.mpr
      rintro ⟨side, sibling⟩ hmem
      simp [(seedOmitted_iff _ _).mp homit side (List.of_mem_zip hmem).1]
    rw [if_pos (hstart.mpr homit), if_pos homit, List.nil_append]
    constructor
    · rintro ⟨hold, -, -, hproof, hloop⟩
      rw [consistencyLoop_eq_true_iff oldRoot _ proof hproof _ _ oldRoot oldRoot hold hold, hwalk] at hloop
      obtain ⟨hsame, rfl⟩ := climb_inj carrier_closed hfree.injOn _ hold hseed hproof hpath
        hloop.1 hpathLength (hloop.2.2.trans hnewClimb.symm)
      exact ⟨(hsame.trans hseedRoot).symm, rfl⟩
    · rintro ⟨hroot, hproof⟩
      obtain rfl := Except.ok.inj hproof
      have hsame : oldRoot = prefixSeed S.combine S.emptyHash hashes oldSize :=
        hroot.symm.trans hseedRoot.symm
      have hold : S.canonical oldRoot := by
        rw [hsame]
        exact hseed
      refine ⟨hold, canonical_root hashes hcanonical, by omega, hpath, ?_⟩
      rw [consistencyLoop_eq_true_iff oldRoot _ _ hpath _ _ oldRoot oldRoot hold hold, hwalk]
      exact ⟨hpathLength, by rw [hleft, climb_nil], by rw [hsame]; exact hnewClimb⟩
  · rw [if_neg (fun h ↦ homit (hstart.mp h)), if_neg homit]
    constructor
    · rintro ⟨hold, -, -, hproof, seed, siblings, rfl, hloop⟩
      have hseed' : S.canonical seed := hproof seed (by simp)
      have hsiblings : ∀ sibling ∈ siblings, S.canonical sibling :=
        fun sibling hsibling ↦ hproof sibling (by simp [hsibling])
      rw [consistencyLoop_eq_true_iff oldRoot _ siblings hsiblings _ _ seed seed hseed' hseed', hwalk] at hloop
      obtain ⟨rfl, rfl⟩ := climb_inj carrier_closed hfree.injOn _ hseed' hseed hsiblings hpath
        hloop.1 hpathLength (hloop.2.2.trans hnewClimb.symm)
      exact ⟨holdClimb.symm.trans hloop.2.1, rfl⟩
    · rintro ⟨hroot, hproof⟩
      obtain rfl := Except.ok.inj hproof
      have hold : S.canonical oldRoot := by
        rw [← hroot]
        exact canonical_root _ fun leaf hleaf ↦ hcanonical leaf (List.mem_of_mem_take hleaf)
      refine ⟨hold, canonical_root hashes hcanonical, ?_, ?_, prefixSeed S.combine S.emptyHash hashes oldSize,
        prefixPath S.combine S.emptyHash hashes oldSize, rfl, ?_⟩
      · rw [List.length_append, List.length_singleton]
        omega
      · simpa using ⟨hseed, hpath⟩
      · rw [consistencyLoop_eq_true_iff oldRoot _ _ hpath _ _ _ _ hseed hseed, hwalk]
        exact ⟨hpathLength, holdClimb.trans hroot, hnewClimb⟩

end Roots

/-- An old root and a proof are accepted exactly when they are those of the prefix. -/
theorem verifyConsistency_treeHash_iff [DecidableEq Hash] (S : HashSuite Hash)
    (hfree : S.CollisionFree) (hashes : List Hash)
    (hcanonical : ∀ leaf ∈ hashes, S.canonical leaf) (hbound : hashes.length ≤ maxTreeLeaves)
    (oldSize : ℕ) (hle : oldSize ≤ hashes.length) (oldRoot : Hash) (proof : List Hash) :
    (do
      let rootHash ← treeHash S hashes
      verifyConsistency S oldSize hashes.length oldRoot rootHash proof) = .ok true ↔
      treeHash S (hashes.take oldSize) = .ok oldRoot ∧ consistency S hashes oldSize = .ok proof := by
  have htake : treeHash S (hashes.take oldSize) = .ok (S.root (hashes.take oldSize)) := by
    apply treeHash_eq_root
    · exact fun leaf hleaf ↦ hcanonical leaf (List.mem_of_mem_take hleaf)
    · rw [List.length_take]
      omega
  rw [treeHash_eq_root hashes hcanonical hbound, Py.bind_ok, htake, Except.ok.injEq]
  rcases Nat.eq_zero_or_pos oldSize with rfl | hpos
  · have hempty : S.root [] = S.emptyHash := root_nil _ _
    have hproof : consistency S hashes 0 = .ok [] := by
      rw [consistency, count_of_mem _ (by omega) (by omega)]
      rfl
    have hsize : hashes.length ≠ 0 ∨ S.root hashes = S.emptyHash := by
      rcases eq_or_ne hashes [] with rfl | hne
      · exact Or.inr hempty
      · exact Or.inl (List.length_pos_of_ne_nil hne).ne'
    rw [verifyConsistency_eq_true_iff _ _ _ _ _ hbound hle, if_pos rfl, hproof, List.take_zero,
      hempty, Except.ok.injEq]
    constructor
    · rintro ⟨-, -, -, -, rfl, rfl, -⟩
      exact ⟨rfl, rfl⟩
    · rintro ⟨rfl, rfl⟩
      exact ⟨S.canonical_emptyHash, canonical_root hashes hcanonical, by simp, by simp, rfl, rfl,
        hsize⟩
  rcases Nat.eq_or_lt_of_le hle with rfl | hlt
  · have hproof : consistency S hashes hashes.length = .ok [] := by
      rw [consistency_eq hashes hcanonical hbound _ hpos le_rfl, prefixPath_self, seedOmitted, prefixSides_self]
      rfl
    rw [verifyConsistency_eq_true_iff _ _ _ _ _ hbound le_rfl, if_neg (by omega), if_pos rfl,
      hproof, List.take_length, Except.ok.injEq]
    constructor
    · rintro ⟨-, -, -, -, rfl, rfl⟩
      exact ⟨rfl, rfl⟩
    · rintro ⟨rfl, rfl⟩
      have hroot := canonical_root hashes hcanonical
      exact ⟨hroot, hroot, by simp, by simp, rfl, rfl⟩
  · exact verifyConsistency_proper_iff hashes hcanonical hbound hfree oldSize hpos hlt oldRoot proof

theorem verifyConsistency_treeHash_two_of_three :
    (do
      let rootHash ← treeHash FreeHash.suite [.leaf 0, .leaf 1, .leaf 2]
      verifyConsistency FreeHash.suite 2 3 (.node (.leaf 0) (.leaf 1)) rootHash [.leaf 2]) = .ok true ↔
      treeHash FreeHash.suite ([FreeHash.leaf 0, .leaf 1, .leaf 2].take 2) = .ok (.node (.leaf 0) (.leaf 1)) ∧
        consistency FreeHash.suite [.leaf 0, .leaf 1, .leaf 2] 2 = .ok [.leaf 2] :=
  verifyConsistency_treeHash_iff FreeHash.suite FreeHash.suite_collisionFree
    [.leaf 0, .leaf 1, .leaf 2] (by decide) (by norm_num [maxTreeLeaves]) 2 (by decide)
    (.node (.leaf 0) (.leaf 1)) [.leaf 2]

end UniMem.TransparencyLog
