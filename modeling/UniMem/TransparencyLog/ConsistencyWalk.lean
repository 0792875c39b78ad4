import UniMem.Library.PrefixProof
import UniMem.TransparencyLog.Inclusion

/-!
# Consistency proofs: prover, verifier and the verifier's walk

The prover recurses on the shape of the new tree, and the verifier walks upwards by shifting positions. The walk
visits the sides of the prefix, lowest first, as is shown from the top.
-/

namespace UniMem.TransparencyLog

open Library.BalancedTree FrontierProtocol

variable {Hash : Type}

theorem split_lt_length {items : List Hash} (h : ¬items.length ≤ 1) : split items.length < items.length :=
  split_lt (by omega)

/-- The nested function `subproof` of `consistency`, on a positive `size`. -/
def subproof (S : HashSuite Hash) (items : List Hash) (size : ℕ) (complete : Bool) :
    Py (List Hash) :=
  if size = items.length then
    if complete then return []
    else do
      let whole ← treeHash S items
      return [whole]
  else if h : items.length ≤ 1 then .error (.valueError "negative shift count")
  else
    have := split_lt_length h
    have := split_pos items.length
    if size ≤ split items.length then do
      let below ← subproof S (items.take (split items.length)) size complete
      let sibling ← treeHash S (items.drop (split items.length))
      return below ++ [sibling]
    else do
      let below ← subproof S (items.drop (split items.length)) (size - split items.length) false
      let sibling ← treeHash S (items.take (split items.length))
      return below ++ [sibling]
termination_by items.length
decreasing_by
  · rw [List.length_take]
    omega
  · rw [List.length_drop]
    omega

/-- `consistency`. -/
def consistency (S : HashSuite Hash) (hashes : List Hash) (oldSize : ℕ) : Py (List Hash) := do
  let _ ← count oldSize 0 hashes.length "old tree size"
  if oldSize = 0 then return []
  else subproof S hashes oldSize true

/-- The loop `while first & 1: first >>= 1; second >>= 1`. -/
def stripOnes (first second : ℕ) : ℕ × ℕ :=
  if first % 2 = 1 then stripOnes (first / 2) (second / 2) else (first, second)
termination_by first

/-- The loop `while first and not first & 1: first >>= 1; second >>= 1`. -/
def stripZeros (first second : ℕ) : ℕ × ℕ :=
  if first ≠ 0 ∧ first % 2 = 0 then stripZeros (first / 2) (second / 2) else (first, second)
termination_by first

/-- The loop over the siblings, with the comparison that follows it. -/
def consistencyLoop [DecidableEq Hash] (S : HashSuite Hash) (oldRoot rootHash : Hash) :
    List Hash → ℕ → ℕ → Hash → Hash → Py Bool
  | [], _, second, oldAcc, newAcc =>
    return second == 0 && oldAcc == oldRoot && newAcc == rootHash
  | sibling :: siblings, first, second, oldAcc, newAcc =>
    if second = 0 then return false
    else if first % 2 = 1 ∨ first = second then do
      let oldAcc ← S.nodeHash sibling oldAcc
      let newAcc ← S.nodeHash sibling newAcc
      let (first, second) := stripZeros first second
      consistencyLoop S oldRoot rootHash siblings (first / 2) (second / 2) oldAcc newAcc
    else do
      let newAcc ← S.nodeHash newAcc sibling
      consistencyLoop S oldRoot rootHash siblings (first / 2) (second / 2) oldAcc newAcc

/-- `verify_consistency`. -/
def verifyConsistency [DecidableEq Hash] (S : HashSuite Hash) (oldSize size : ℕ)
    (oldRoot rootHash : Hash) (proof : List Hash) : Py Bool :=
  falseOnError do
    let _ ← count size 0 maxTreeLeaves "count"
    let _ ← count oldSize 0 size "count"
    let _ ← S.hash oldRoot
    let _ ← S.hash rootHash
    let _ ← count proof.length 0 64 "count"
    checkHashes S proof
    if oldSize = 0 then
      return oldRoot == S.emptyHash && proof.isEmpty && (size != 0 || rootHash == S.emptyHash)
    else if oldSize = size then
      return oldRoot == rootHash && proof.isEmpty
    else
      let (first, second) := stripOnes (oldSize - 1) (size - 1)
      if first = 0 then
        consistencyLoop S oldRoot rootHash proof first second oldRoot oldRoot
      else
        let seed ← siblingAt proof 0
        consistencyLoop S oldRoot rootHash (proof.drop 1) first second seed seed

theorem stripZeros_snd_le (first second : ℕ) : (stripZeros first second).2 ≤ second := by
  induction first, second using stripZeros.induct with
  | case1 first second h ih =>
    rw [stripZeros, if_pos h]
    exact ih.trans (Nat.div_le_self _ _)
  | case2 first second h =>
    rw [stripZeros, if_neg h]

/-- The sides on which the loop places its siblings, from a state on. -/
def walkSides (first second : ℕ) : List Side :=
  if h : second = 0 then []
  else
    have := stripZeros_snd_le first second
    if first % 2 = 1 ∨ first = second then
      .left :: walkSides ((stripZeros first second).1 / 2) ((stripZeros first second).2 / 2)
    else .right :: walkSides (first / 2) (second / 2)
termination_by second

/-- The sides of the whole walk, after the trailing ones of `first` are stripped. -/
def startSides (first second : ℕ) : List Side :=
  walkSides (stripOnes first second).1 (stripOnes first second).2

theorem walkSides_zero (first : ℕ) : walkSides first 0 = [] := by
  rw [walkSides, dif_pos rfl]

variable {first second : ℕ}

theorem walkSides_of_left (hsecond : second ≠ 0) (h : first % 2 = 1 ∨ first = second) :
    walkSides first second =
      .left :: walkSides ((stripZeros first second).1 / 2) ((stripZeros first second).2 / 2) := by
  rw [walkSides, dif_neg hsecond, if_pos h]

theorem walkSides_of_right (hsecond : second ≠ 0) (h : ¬(first % 2 = 1 ∨ first = second)) :
    walkSides first second = .right :: walkSides (first / 2) (second / 2) := by
  rw [walkSides, dif_neg hsecond, if_neg h]

theorem stripZeros_of_odd (second : ℕ) (h : first % 2 = 1) :
    stripZeros first second = (first, second) := by
  rw [stripZeros, if_neg (by omega)]

theorem stripZeros_of_even (second : ℕ) (hpos : first ≠ 0) (h : first % 2 = 0) :
    stripZeros first second = stripZeros (first / 2) (second / 2) := by
  rw [stripZeros, if_pos ⟨hpos, h⟩]

theorem walkSides_of_odd (hsecond : second ≠ 0) (h : first % 2 = 1) :
    walkSides first second = .left :: walkSides (first / 2) (second / 2) := by
  rw [walkSides_of_left hsecond (Or.inl h), stripZeros_of_odd second h]

theorem walkSides_cut_left (exponent first second : ℕ) (hfirst : first < 2 ^ exponent)
    (hlow : 2 ^ exponent ≤ second) (hhigh : second < 2 ^ (exponent + 1)) :
    walkSides first second = walkSides first (2 ^ exponent - 1) ++ [.right] := by
  induction exponent generalizing first second with
  | zero =>
    obtain rfl : first = 0 := by omega
    obtain rfl : second = 1 := by
      norm_num at hlow hhigh
      omega
    rw [walkSides_of_right (by decide) (by decide), walkSides_zero, Nat.pow_zero, walkSides_zero]
    rfl
  | succ exponent ih =>
    have hpow : 2 ^ (exponent + 1) = 2 * 2 ^ exponent := by rw [Nat.pow_succ, Nat.mul_comm]
    have hpow' : 2 ^ (exponent + 1 + 1) = 2 * 2 ^ (exponent + 1) := by
      rw [Nat.pow_succ, Nat.mul_comm]
    have hpos : 0 < 2 ^ exponent := Nat.pow_pos (by decide)
    have hhalf : (2 ^ (exponent + 1) - 1) / 2 = 2 ^ exponent - 1 := by omega
    have htail := ih (first / 2) (second / 2) (by omega) (by omega) (by omega)
    rcases Nat.mod_two_eq_zero_or_one first with heven | hodd
    · have hwhole : walkSides first second = .right :: walkSides (first / 2) (second / 2) :=
        walkSides_of_right (by omega) (by omega)
      have hblock : walkSides first (2 ^ (exponent + 1) - 1) =
          .right :: walkSides (first / 2) ((2 ^ (exponent + 1) - 1) / 2) :=
        walkSides_of_right (by omega) (by omega)
      rw [hwhole, hblock, hhalf, htail]
      rfl
    · have hwhole : walkSides first second = .left :: walkSides (first / 2) (second / 2) :=
        walkSides_of_odd (by omega) hodd
      have hblock : walkSides first (2 ^ (exponent + 1) - 1) =
          .left :: walkSides (first / 2) ((2 ^ (exponent + 1) - 1) / 2) :=
        walkSides_of_odd (by omega) hodd
      rw [hwhole, hblock, hhalf, htail]
      rfl

/-- The state after a left sibling, as the loop reaches it. -/
def afterLeft (first second : ℕ) : List Side :=
  walkSides ((stripZeros first second).1 / 2) ((stripZeros first second).2 / 2)

theorem walkSides_cut_right (exponent : ℕ) : ∀ first second : ℕ, first ≤ second → second < 2 ^ exponent →
    walkSides (2 ^ exponent + first) (2 ^ exponent + second) = walkSides first second ++ [.left] ∧
      (0 < first → afterLeft (2 ^ exponent + first) (2 ^ exponent + second) = afterLeft first second ++ [.left]) := by
  induction exponent with
  | zero =>
    intro first second hle hlt
    obtain rfl : second = 0 := by omega
    obtain rfl : first = 0 := by omega
    refine ⟨?_, fun h ↦ absurd h (by decide)⟩
    rw [walkSides_of_odd (by decide) (by decide)]
    norm_num [walkSides_zero]
  | succ exponent ih =>
    intro first second hle hlt
    have hpow : 2 ^ (exponent + 1) = 2 * 2 ^ exponent := by rw [Nat.pow_succ, Nat.mul_comm]
    have hpos : 0 < 2 ^ exponent := Nat.pow_pos (by decide)
    have hfirstHalf : (2 ^ (exponent + 1) + first) / 2 = 2 ^ exponent + first / 2 := by omega
    have hsecondHalf : (2 ^ (exponent + 1) + second) / 2 = 2 ^ exponent + second / 2 := by omega
    obtain ⟨hwalk, hafter⟩ := ih (first / 2) (second / 2) (by omega) (by omega)
    -- The state after a left sibling has the same parity with and without the highest bit.
    have hafterLeft (hfirst : 0 < first) :
        afterLeft (2 ^ (exponent + 1) + first) (2 ^ (exponent + 1) + second) =
          afterLeft first second ++ [.left] := by
      rcases Nat.mod_two_eq_zero_or_one first with heven | hodd
      · rw [afterLeft, afterLeft, stripZeros_of_even _ (by omega) (by omega),
          stripZeros_of_even _ (by omega) heven, hfirstHalf, hsecondHalf]
        exact hafter (by omega)
      · rw [afterLeft, afterLeft, stripZeros_of_odd _ (by omega), stripZeros_of_odd _ hodd, hfirstHalf, hsecondHalf]
        exact hwalk
    refine ⟨?_, hafterLeft⟩
    rcases Nat.eq_zero_or_pos second with rfl | hsecond
    · obtain rfl : first = 0 := by omega
      have hzero := (ih 0 0 le_rfl hpos).1
      rw [Nat.add_zero, walkSides_zero] at hzero ⊢
      rw [walkSides_of_left (by omega) (Or.inr rfl),
        stripZeros_of_even _ (by omega) (by omega)]
      rw [walkSides_of_left (by omega) (Or.inr rfl)] at hzero
      rwa [show 2 ^ (exponent + 1) / 2 = 2 ^ exponent by omega]
    by_cases hside : first % 2 = 1 ∨ first = second
    · rw [walkSides_of_left (by omega) (by omega), walkSides_of_left (by omega) hside]
      have hfirst : 0 < first := by omega
      exact congrArg (List.cons Side.left) (hafterLeft hfirst)
    · rw [walkSides_of_right (by omega) (by omega), walkSides_of_right (by omega) hside,
        hfirstHalf, hsecondHalf, hwalk]
      rfl

theorem stripOnes_of_odd (second : ℕ) (h : first % 2 = 1) :
    stripOnes first second = stripOnes (first / 2) (second / 2) := by
  rw [stripOnes, if_pos h]

theorem stripOnes_of_even (second : ℕ) (h : first % 2 = 0) :
    stripOnes first second = (first, second) := by
  rw [stripOnes, if_neg (by omega)]

theorem startSides_of_odd (second : ℕ) (h : first % 2 = 1) :
    startSides first second = startSides (first / 2) (second / 2) := by
  rw [startSides, startSides, stripOnes_of_odd second h]

theorem startSides_of_even (second : ℕ) (h : first % 2 = 0) :
    startSides first second = walkSides first second := by
  rw [startSides, stripOnes_of_even second h]

theorem startSides_cut_left (exponent first second : ℕ) (hfirst : first < 2 ^ exponent)
    (hlow : 2 ^ exponent ≤ second) (hhigh : second < 2 ^ (exponent + 1)) :
    startSides first second = startSides first (2 ^ exponent - 1) ++ [.right] := by
  induction exponent generalizing first second with
  | zero =>
    obtain rfl : first = 0 := by omega
    rw [startSides_of_even _ (by decide), startSides_of_even _ (by decide)]
    exact walkSides_cut_left 0 0 second hfirst hlow hhigh
  | succ exponent ih =>
    have hpow : 2 ^ (exponent + 1) = 2 * 2 ^ exponent := by rw [Nat.pow_succ, Nat.mul_comm]
    have hpow' : 2 ^ (exponent + 1 + 1) = 2 * 2 ^ (exponent + 1) := by
      rw [Nat.pow_succ, Nat.mul_comm]
    rcases Nat.mod_two_eq_zero_or_one first with heven | hodd
    · rw [startSides_of_even _ heven, startSides_of_even _ heven]
      exact walkSides_cut_left (exponent + 1) first second hfirst hlow hhigh
    · have hhalf : (2 ^ (exponent + 1) - 1) / 2 = 2 ^ exponent - 1 := by omega
      rw [startSides_of_odd _ hodd, startSides_of_odd _ hodd, hhalf]
      exact ih (first / 2) (second / 2) (by omega) (by omega) (by omega)

theorem startSides_cut_right (exponent first second : ℕ) (hlt : first < second) (hsecond : second < 2 ^ exponent) :
    startSides (2 ^ exponent + first) (2 ^ exponent + second) = startSides first second ++ [.left] := by
  induction exponent generalizing first second with
  | zero => omega
  | succ exponent ih =>
    have hpow : 2 ^ (exponent + 1) = 2 * 2 ^ exponent := by rw [Nat.pow_succ, Nat.mul_comm]
    rcases Nat.mod_two_eq_zero_or_one first with heven | hodd
    · rw [startSides_of_even _ (by omega), startSides_of_even _ heven]
      exact (walkSides_cut_right (exponent + 1) first second hlt.le hsecond).1
    · rw [startSides_of_odd _ (by omega), startSides_of_odd _ hodd,
        show (2 ^ (exponent + 1) + first) / 2 = 2 ^ exponent + first / 2 by omega,
        show (2 ^ (exponent + 1) + second) / 2 = 2 ^ exponent + second / 2 by omega]
      exact ih (first / 2) (second / 2) (by omega) (by omega)

theorem startSides_perfect (exponent : ℕ) :
    startSides (2 ^ exponent - 1) (2 ^ exponent - 1) = [] := by
  induction exponent with
  | zero =>
    rw [Nat.pow_zero, startSides_of_even _ (by decide)]
    exact walkSides_zero 0
  | succ exponent ih =>
    have hpow : 2 ^ (exponent + 1) = 2 * 2 ^ exponent := by rw [Nat.pow_succ, Nat.mul_comm]
    have hpos : 0 < 2 ^ exponent := Nat.pow_pos (by decide)
    rw [startSides_of_odd _ (by omega),
      show (2 ^ (exponent + 1) - 1) / 2 = 2 ^ exponent - 1 by omega]
    exact ih

theorem startSides_eq_prefixSides (size oldSize : ℕ) (hpos : 0 < oldSize) (hlt : oldSize < size) :
    startSides (oldSize - 1) (size - 1) = prefixSides size oldSize := by
  induction size using Nat.strong_induction_on generalizing oldSize with
  | _ size ih =>
    have htwo : 2 ≤ size := by omega
    have hpivot := pivot_lt htwo
    have hdouble := le_two_mul_pivot size
    have hpivotPos := pivot_pos size
    let exponent := Nat.log 2 (size - 1)
    have hexponent : pivot size = 2 ^ exponent := rfl
    have hpow : 2 ^ (exponent + 1) = 2 * 2 ^ exponent := by rw [Nat.pow_succ, Nat.mul_comm]
    rw [prefixSides_cut htwo hlt.ne]
    by_cases hcut : oldSize ≤ pivot size
    · rw [if_pos hcut, startSides_cut_left exponent (oldSize - 1) (size - 1) (by omega) (by omega)
        (by omega), ← hexponent]
      rcases Nat.eq_or_lt_of_le hcut with rfl | hcutLt
      · rw [prefixSides_self, hexponent, startSides_perfect]
      · rw [ih (pivot size) hpivot oldSize hpos hcutLt]
    · have hcutRight := startSides_cut_right exponent (oldSize - pivot size - 1)
        (size - pivot size - 1) (by omega) (by omega)
      rw [show 2 ^ exponent + (oldSize - pivot size - 1) = oldSize - 1 by omega,
        show 2 ^ exponent + (size - pivot size - 1) = size - 1 by omega] at hcutRight
      rw [if_neg hcut, hcutRight,
        ih (size - pivot size) (by omega) (oldSize - pivot size) (by omega) (by omega)]

theorem exists_pow_of_stripOnes (first second : ℕ) (h : (stripOnes first second).1 = 0) :
    ∃ exponent, first + 1 = 2 ^ exponent := by
  induction first, second using stripOnes.induct with
  | case1 first second hodd ih =>
    rw [stripOnes_of_odd second hodd] at h
    obtain ⟨exponent, hexponent⟩ := ih h
    exact ⟨exponent + 1, by rw [Nat.pow_succ]; omega⟩
  | case2 first second heven =>
    rw [stripOnes_of_even second (by omega)] at h
    exact ⟨0, by simpa using h⟩

theorem stripOnes_fst (first second other : ℕ) :
    (stripOnes first second).1 = (stripOnes first other).1 := by
  induction first, second using stripOnes.induct generalizing other with
  | case1 first second hodd ih =>
    rw [stripOnes_of_odd second hodd, stripOnes_of_odd other hodd]
    exact ih (other / 2)
  | case2 first second heven =>
    rw [stripOnes_of_even second (by omega), stripOnes_of_even other (by omega)]

theorem stripOnes_perfect (exponent second : ℕ) :
    (stripOnes (2 ^ exponent - 1) second).1 = 0 := by
  induction exponent generalizing second with
  | zero => rw [Nat.pow_zero, stripOnes_of_even _ (by decide)]
  | succ exponent ih =>
    have hpow : 2 ^ (exponent + 1) = 2 * 2 ^ exponent := by rw [Nat.pow_succ, Nat.mul_comm]
    have hpos : 0 < 2 ^ exponent := Nat.pow_pos (by decide)
    rw [stripOnes_of_odd _ (by omega),
      show (2 ^ (exponent + 1) - 1) / 2 = 2 ^ exponent - 1 by omega]
    exact ih (second / 2)

theorem stripOnes_eq_zero_iff (size oldSize : ℕ) (hpos : 0 < oldSize) (hlt : oldSize < size) :
    (stripOnes (oldSize - 1) (size - 1)).1 = 0 ↔ ∀ side ∈ prefixSides size oldSize, side = .right := by
  induction size using Nat.strong_induction_on generalizing oldSize with
  | _ size ih =>
    have htwo : 2 ≤ size := by omega
    have hpivot := pivot_lt htwo
    have hdouble := le_two_mul_pivot size
    let exponent := Nat.log 2 (size - 1)
    have hexponent : pivot size = 2 ^ exponent := rfl
    rw [prefixSides_cut htwo hlt.ne]
    by_cases hcut : oldSize ≤ pivot size
    · rw [if_pos hcut]
      simp only [List.forall_mem_append, List.forall_mem_singleton, and_true]
      rcases Nat.eq_or_lt_of_le hcut with rfl | hcutLt
      · rw [prefixSides_self, hexponent, stripOnes_perfect]
        simp
      · rw [← ih (pivot size) hpivot oldSize hpos hcutLt, stripOnes_fst (oldSize - 1) (size - 1) (pivot size - 1)]
    · rw [if_neg hcut]
      constructor
      · intro hzero
        obtain ⟨other, hother⟩ := exists_pow_of_stripOnes _ _ hzero
        -- A power of two cannot lie strictly between two consecutive ones.
        have hlow : exponent < other := (Nat.pow_lt_pow_iff_right (by decide : 1 < 2)).mp (by omega)
        have hhigh : other < exponent + 1 :=
          (Nat.pow_lt_pow_iff_right (by decide : 1 < 2)).mp (by rw [Nat.pow_succ]; omega)
        omega
      · intro hright
        exact absurd (hright .left (by simp)) (by decide)

end UniMem.TransparencyLog
