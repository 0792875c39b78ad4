import UniMem.Library.BalancedTree

/-!
# Sibling lists that connect a prefix to the whole list

A perfect block that ends where a prefix ends is a subtree of both trees. Climbing from its root with every sibling
gives the root of the list, and with the left ones that of the prefix.
-/

namespace UniMem.Library.BalancedTree

variable {α : Type*}

/-- Sides of the siblings that lead from the common block to the root of `total` leaves. -/
def prefixSides (total size : ℕ) : List Side :=
  if h : total ≤ 1 ∨ size = total then []
  else
    have := pivot_lt (by omega : 2 ≤ total)
    have := pivot_pos total
    if size ≤ pivot total then prefixSides (pivot total) size ++ [.right]
    else prefixSides (total - pivot total) (size - pivot total) ++ [.left]
termination_by total

/-- Siblings that lead from the common block to the root, lowest first. -/
def prefixPath (node : α → α → α) (empty : α) (leaves : List α) (size : ℕ) : List α :=
  if h : leaves.length ≤ 1 ∨ size = leaves.length then []
  else
    have := pivot_lt (by omega : 2 ≤ leaves.length)
    have := pivot_pos leaves.length
    if size ≤ pivot leaves.length then
      prefixPath node empty (leaves.take (pivot leaves.length)) size ++
        [root node empty (leaves.drop (pivot leaves.length))]
    else
      prefixPath node empty (leaves.drop (pivot leaves.length)) (size - pivot leaves.length) ++
        [root node empty (leaves.take (pivot leaves.length))]
termination_by leaves.length
decreasing_by
  · rw [List.length_take]
    omega
  · rw [List.length_drop]
    omega

/-- Root of the common block. -/
def prefixSeed (node : α → α → α) (empty : α) (leaves : List α) (size : ℕ) : α :=
  if h : leaves.length ≤ 1 ∨ size = leaves.length then root node empty leaves
  else
    have := pivot_lt (by omega : 2 ≤ leaves.length)
    have := pivot_pos leaves.length
    if size ≤ pivot leaves.length then
      prefixSeed node empty (leaves.take (pivot leaves.length)) size
    else
      prefixSeed node empty (leaves.drop (pivot leaves.length)) (size - pivot leaves.length)
termination_by leaves.length
decreasing_by
  · rw [List.length_take]
    omega
  · rw [List.length_drop]
    omega

theorem prefixSides_self (total : ℕ) : prefixSides total total = [] := by
  rw [prefixSides, dif_pos (Or.inr rfl)]

theorem prefixSides_cut {total size : ℕ} (htotal : 2 ≤ total) (hsize : size ≠ total) :
    prefixSides total size = if size ≤ pivot total then prefixSides (pivot total) size ++ [.right]
      else prefixSides (total - pivot total) (size - pivot total) ++ [.left] := by
  rw [prefixSides, dif_neg (by omega)]

theorem prefixSides_suffix_sides (total size : ℕ) (hpos : 0 < size) :
    prefixSides total size <:+ sides total (size - 1) := by
  induction total using Nat.strong_induction_on generalizing size with
  | _ total ih =>
    by_cases hstop : total ≤ 1 ∨ size = total
    · rw [prefixSides, dif_pos hstop]
      exact List.nil_suffix
    · have htwo : 2 ≤ total := by omega
      have hlt := pivot_lt htwo
      have hpivot := pivot_pos total
      rw [prefixSides_cut htwo (by omega), sides_cut total _ htwo]
      by_cases hcut : size ≤ pivot total
      · rw [if_pos hcut, if_pos (by omega)]
        exact List.suffix_append_self_iff.mpr (ih (pivot total) hlt size hpos)
      · rw [if_neg hcut, if_neg (by omega),
          show size - 1 - pivot total = size - pivot total - 1 by omega]
        exact List.suffix_append_self_iff.mpr
          (ih (total - pivot total) (by omega) (size - pivot total) (by omega))

theorem length_prefixSides_le (depth total size : ℕ) (hpos : 0 < size) (h : total ≤ 2 ^ depth) :
    (prefixSides total size).length ≤ depth :=
  (prefixSides_suffix_sides total size hpos).length_le.trans (length_sides_le depth total _ h)

section Blocks

variable (node : α → α → α) (empty : α) {block rest : List α} {exponent : ℕ}

theorem prefixPath_self (leaves : List α) : prefixPath node empty leaves leaves.length = [] := by
  rw [prefixPath, dif_pos (Or.inr rfl)]

theorem prefixSeed_self (leaves : List α) :
    prefixSeed node empty leaves leaves.length = root node empty leaves := by
  rw [prefixSeed, dif_pos (Or.inr rfl)]

theorem prefixPath_cut {leaves : List α} {size : ℕ} (hlength : 2 ≤ leaves.length) (hsize : size ≠ leaves.length) :
    prefixPath node empty leaves size = if size ≤ pivot leaves.length then
        prefixPath node empty (leaves.take (pivot leaves.length)) size ++
          [root node empty (leaves.drop (pivot leaves.length))] else
        prefixPath node empty (leaves.drop (pivot leaves.length)) (size - pivot leaves.length) ++
          [root node empty (leaves.take (pivot leaves.length))] := by
  rw [prefixPath, dif_neg (by omega)]

theorem prefixSeed_cut {leaves : List α} {size : ℕ} (hlength : 2 ≤ leaves.length) (hsize : size ≠ leaves.length) :
    prefixSeed node empty leaves size = if size ≤ pivot leaves.length then
        prefixSeed node empty (leaves.take (pivot leaves.length)) size else
        prefixSeed node empty (leaves.drop (pivot leaves.length)) (size - pivot leaves.length) := by
  rw [prefixSeed, dif_neg (by omega)]

theorem prefixSides_append (hblock : block.length = 2 ^ exponent) (hpos : 0 < rest.length)
    (hle : rest.length ≤ 2 ^ exponent) (size : ℕ) (hsize : size < (block ++ rest).length) :
    prefixSides (block ++ rest).length size = if size ≤ block.length then prefixSides block.length size ++ [.right]
      else prefixSides rest.length (size - block.length) ++ [.left] := by
  rw [prefixSides_cut (two_le_length_append hblock hpos) (by omega), pivot_append hblock hpos hle]
  congr 3
  rw [List.length_append]
  omega

theorem prefixPath_append (hblock : block.length = 2 ^ exponent) (hpos : 0 < rest.length)
    (hle : rest.length ≤ 2 ^ exponent) (size : ℕ) (hsize : size < (block ++ rest).length) :
    prefixPath node empty (block ++ rest) size =
      if size ≤ block.length then prefixPath node empty block size ++ [root node empty rest]
      else prefixPath node empty rest (size - block.length) ++ [root node empty block] := by
  rw [prefixPath_cut node empty (two_le_length_append hblock hpos) (by omega),
    pivot_append hblock hpos hle, List.take_left, List.drop_left]

theorem prefixSeed_append (hblock : block.length = 2 ^ exponent) (hpos : 0 < rest.length)
    (hle : rest.length ≤ 2 ^ exponent) (size : ℕ) (hsize : size < (block ++ rest).length) :
    prefixSeed node empty (block ++ rest) size = if size ≤ block.length then prefixSeed node empty block size
      else prefixSeed node empty rest (size - block.length) := by
  rw [prefixSeed_cut node empty (two_le_length_append hblock hpos) (by omega),
    pivot_append hblock hpos hle, List.take_left, List.drop_left]

end Blocks

section Climb

variable (node : α → α → α) (empty : α)

theorem length_prefixPath (leaves : List α) (hne : leaves ≠ []) (size : ℕ) (hsize : size ≤ leaves.length) :
    (prefixPath node empty leaves size).length = (prefixSides leaves.length size).length := by
  induction leaves, hne using block_induction generalizing size with
  | single leaf => rw [prefixPath, prefixSides, dif_pos (by simp), dif_pos (by simp)]; rfl
  | join block rest exponent hblock hpos hle _ _ ihblock ihrest =>
    rcases Nat.eq_or_lt_of_le hsize with rfl | hlt
    · rw [prefixPath_self, prefixSides_self]
      rfl
    · rw [prefixPath_append node empty hblock hpos hle size hlt, prefixSides_append hblock hpos hle size hlt]
      rw [List.length_append] at hlt
      split
      · next hle' => simp [ihblock size hle']
      · simp [ihrest (size - block.length) (by omega)]

theorem climb_prefixPath (leaves : List α) (hne : leaves ≠ []) (size : ℕ) (hsize : size ≤ leaves.length) :
    climb node (prefixSeed node empty leaves size)
      ((prefixSides leaves.length size).zip (prefixPath node empty leaves size)) = root node empty leaves := by
  induction leaves, hne using block_induction generalizing size with
  | single leaf =>
    rw [prefixPath, prefixSeed, dif_pos (by simp), dif_pos (by simp), List.zip_nil_right, climb_nil]
  | join block rest exponent hblock hpos hle hblockne hrestne ihblock ihrest =>
    rcases Nat.eq_or_lt_of_le hsize with rfl | hlt
    · rw [prefixPath_self, prefixSeed_self, List.zip_nil_right, climb_nil]
    · rw [prefixPath_append node empty hblock hpos hle size hlt, prefixSides_append hblock hpos hle size hlt,
        prefixSeed_append node empty hblock hpos hle size hlt, root_append node empty hblock hpos hle]
      rw [List.length_append] at hlt
      by_cases hcut : size ≤ block.length
      · rw [if_pos hcut, if_pos hcut, if_pos hcut,
          List.zip_append (length_prefixPath node empty block hblockne size hcut).symm,
          climb_append, ihblock size hcut]
        rfl
      · have hrest : size - block.length ≤ rest.length := by omega
        rw [if_neg hcut, if_neg hcut, if_neg hcut,
          List.zip_append (length_prefixPath node empty rest hrestne _ hrest).symm, climb_append, ihrest _ hrest]
        rfl

/-- The steps of a climb that bring in a left sibling. -/
def leftSteps (steps : List (Side × α)) : List (Side × α) :=
  steps.filter fun step ↦ step.1 = .left

theorem leftSteps_append (first second : List (Side × α)) :
    leftSteps (first ++ second) = leftSteps first ++ leftSteps second := List.filter_append ..

theorem climb_leftSteps_prefixPath (leaves : List α) (hne : leaves ≠ []) (size : ℕ)
    (hpositive : 0 < size) (hsize : size ≤ leaves.length) :
    climb node (prefixSeed node empty leaves size)
      (leftSteps ((prefixSides leaves.length size).zip (prefixPath node empty leaves size))) =
        root node empty (leaves.take size) := by
  induction leaves, hne using block_induction generalizing size with
  | single leaf =>
    rw [prefixPath, prefixSeed, dif_pos (by simp), dif_pos (by simp), List.zip_nil_right,
      List.take_of_length_le (by simpa using Nat.succ_le_of_lt hpositive)]
    rfl
  | join block rest exponent hblock hpos hle hblockne hrestne ihblock ihrest =>
    rcases Nat.eq_or_lt_of_le hsize with rfl | hlt
    · rw [prefixPath_self, prefixSeed_self, List.zip_nil_right, List.take_length]
      rfl
    · rw [prefixPath_append node empty hblock hpos hle size hlt, prefixSides_append hblock hpos hle size hlt,
        prefixSeed_append node empty hblock hpos hle size hlt]
      rw [List.length_append] at hlt
      by_cases hcut : size ≤ block.length
      · rw [if_pos hcut, if_pos hcut, if_pos hcut,
          List.zip_append (length_prefixPath node empty block hblockne size hcut).symm,
          leftSteps_append, climb_append, ihblock size hpositive hcut, List.take_append_of_le_length hcut]
        rfl
      · have hrest : size - block.length ≤ rest.length := by omega
        have htake : (rest.take (size - block.length)).length = size - block.length := by
          rw [List.length_take]
          omega
        -- The prefix reaches into the right part, so its own root is cut at the same block.
        have hroot : root node empty (block ++ rest.take (size - block.length)) =
            node (root node empty block) (root node empty (rest.take (size - block.length))) :=
          root_append node empty hblock (by omega) (by omega)
        rw [if_neg hcut, if_neg hcut, if_neg hcut,
          List.zip_append (length_prefixPath node empty rest hrestne _ hrest).symm,
          leftSteps_append, climb_append, ihrest _ (by omega) hrest, List.take_append,
          List.take_of_length_le (by omega : block.length ≤ size), hroot]
        rfl

end Climb

theorem prefix_mem {node : α → α → α} {empty : α} {carrier : Set α} (leaves : List α)
    (hne : leaves ≠ []) (hroot : ∀ part, part ≠ [] → part <:+: leaves →
      root node empty part ∈ carrier) (size : ℕ) (hpos : 0 < size) (hsize : size ≤ leaves.length) :
    prefixSeed node empty leaves size ∈ carrier ∧
      ∀ sibling ∈ prefixPath node empty leaves size, sibling ∈ carrier := by
  rcases Nat.eq_or_lt_of_le hsize with rfl | hlt
  · rw [prefixSeed_self, prefixPath_self]
    exact ⟨hroot leaves hne (List.infix_refl _), by simp⟩
  induction leaves, hne using block_induction generalizing size with
  | single leaf =>
    rw [List.length_singleton] at hlt
    omega
  | join block rest exponent hblock hrestPos hrestLe hblockne hrestne ihblock ihrest =>
    have hblockRoot : ∀ part, part ≠ [] → part <:+: block → root node empty part ∈ carrier :=
      fun part hpart h ↦ hroot part hpart (h.trans (List.prefix_append block rest).isInfix)
    have hrestRoot : ∀ part, part ≠ [] → part <:+: rest → root node empty part ∈ carrier :=
      fun part hpart h ↦ hroot part hpart (h.trans (List.suffix_append block rest).isInfix)
    have hltSum : size < block.length + rest.length := by rwa [List.length_append] at hlt
    rw [prefixPath_append node empty hblock hrestPos hrestLe size hlt,
      prefixSeed_append node empty hblock hrestPos hrestLe size hlt]
    by_cases hcut : size ≤ block.length
    · have hbelow : prefixSeed node empty block size ∈ carrier ∧
          ∀ sibling ∈ prefixPath node empty block size, sibling ∈ carrier := by
        rcases Nat.eq_or_lt_of_le hcut with rfl | hcutLt
        · rw [prefixSeed_self, prefixPath_self]
          exact ⟨hblockRoot block hblockne (List.infix_refl _), by simp⟩
        · exact ihblock hblockRoot size hpos hcut hcutLt
      rw [if_pos hcut, if_pos hcut]
      refine ⟨hbelow.1, ?_⟩
      simp only [List.forall_mem_append, List.forall_mem_singleton]
      exact ⟨hbelow.2, hrestRoot rest hrestne (List.infix_refl _)⟩
    · have hbelow := ihrest hrestRoot (size - block.length) (by omega) (by omega) (by omega)
      rw [if_neg hcut, if_neg hcut]
      refine ⟨hbelow.1, ?_⟩
      simp only [List.forall_mem_append, List.forall_mem_singleton]
      exact ⟨hbelow.2, hblockRoot block hblockne (List.infix_refl _)⟩

theorem prefixSeed_eq_root_take (node : α → α → α) (empty : α) (leaves : List α)
    (hne : leaves ≠ []) (size : ℕ) (hpositive : 0 < size) (hsize : size ≤ leaves.length)
    (hright : ∀ side ∈ prefixSides leaves.length size, side = .right) :
    prefixSeed node empty leaves size = root node empty (leaves.take size) := by
  have hsteps : leftSteps ((prefixSides leaves.length size).zip
      (prefixPath node empty leaves size)) = [] := by
    apply List.filter_eq_nil_iff.mpr
    rintro ⟨side, sibling⟩ hmem
    simp [hright side (List.of_mem_zip hmem).1]
  have hclimb := climb_leftSteps_prefixPath node empty leaves hne size hpositive hsize
  rw [hsteps, climb_nil] at hclimb
  exact hclimb

end UniMem.Library.BalancedTree
