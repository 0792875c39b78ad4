import Mathlib

/-!
# Left-balanced binary trees over a list of leaves

A list of leaves is cut at the largest power of two below its length. Roots, audit paths, siblings and climbs over
any combination, which is injective where that is asked for, with the induction rule `block_induction`.
-/

namespace UniMem.Library.BalancedTree

/-- The largest power of two strictly below `size`, for a size of at least two. -/
def pivot (size : ℕ) : ℕ := 2 ^ Nat.log 2 (size - 1)

theorem pivot_pos (size : ℕ) : 0 < pivot size := Nat.pow_pos (by decide)

variable {size : ℕ}

theorem pivot_lt (h : 2 ≤ size) : pivot size < size := by
  have hlog := Nat.pow_log_le_self 2 (by omega : size - 1 ≠ 0)
  unfold pivot
  omega

theorem le_two_mul_pivot (size : ℕ) : size ≤ 2 * pivot size := by
  have hlog := Nat.lt_pow_succ_log_self (by decide : 1 < 2) (size - 1)
  rw [Nat.pow_succ] at hlog
  unfold pivot
  omega

theorem pivot_block {exponent rest : ℕ} (hpos : 0 < rest) (hle : rest ≤ 2 ^ exponent) :
    pivot (2 ^ exponent + rest) = 2 ^ exponent := by
  have hlog : Nat.log 2 (2 ^ exponent + rest - 1) = exponent := by
    apply Nat.log_eq_of_pow_le_of_lt_pow
    · omega
    · rw [Nat.pow_succ]
      omega
  unfold pivot
  rw [hlog]

theorem pivot_le_of_le {exponent : ℕ} (htwo : 2 ≤ size) (h : size ≤ 2 ^ (exponent + 1)) :
    pivot size ≤ 2 ^ exponent := by
  apply Nat.pow_le_pow_right (by decide)
  have hlog := Nat.log_lt_of_lt_pow (by omega : size - 1 ≠ 0)
    (by omega : size - 1 < 2 ^ (exponent + 1))
  omega

variable {α : Type*}

theorem block_induction {motive : ∀ leaves : List α, leaves ≠ [] → Prop}
    (single : ∀ leaf, motive [leaf] (List.cons_ne_nil _ _))
    (join : ∀ (block rest : List α) (exponent : ℕ) (_ : block.length = 2 ^ exponent)
      (_ : 0 < rest.length) (_ : rest.length ≤ 2 ^ exponent) (hblock : block ≠ [])
      (hrest : rest ≠ []), motive block hblock → motive rest hrest →
      motive (block ++ rest) (List.append_ne_nil_of_left_ne_nil hblock rest))
    (leaves : List α) (hne : leaves ≠ []) : motive leaves hne := by
  induction hsize : leaves.length using Nat.strong_induction_on generalizing leaves with
  | _ size ih =>
    rcases Nat.lt_or_ge leaves.length 2 with hone | htwo
    · have hlength : leaves.length = 1 := by
        have := List.length_pos_of_ne_nil hne
        omega
      obtain ⟨leaf, rfl⟩ := List.length_eq_one_iff.mp hlength
      exact single leaf
    · have hlt := pivot_lt htwo
      have hle := le_two_mul_pivot leaves.length
      have hpos := pivot_pos leaves.length
      have hblock : (leaves.take (pivot leaves.length)).length = pivot leaves.length := by
        rw [List.length_take]
        omega
      have hrest : (leaves.drop (pivot leaves.length)).length =
          leaves.length - pivot leaves.length := List.length_drop
      have hblockne := List.ne_nil_of_length_pos (hblock ▸ hpos)
      have hrestne : leaves.drop (pivot leaves.length) ≠ [] :=
        List.ne_nil_of_length_pos (by omega)
      have hjoin := join (leaves.take (pivot leaves.length)) (leaves.drop (pivot leaves.length))
        (Nat.log 2 (leaves.length - 1)) hblock (by omega)
        (by
          rw [hrest]
          change _ ≤ pivot leaves.length
          omega)
        hblockne hrestne (ih _ (by omega) _ hblockne hblock) (ih _ (by omega) _ hrestne hrest)
      simpa only [List.take_append_drop] using hjoin

/-- The root of a left-balanced tree with the given leaves. -/
def root (node : α → α → α) (empty : α) : List α → α
  | [] => empty
  | [leaf] => leaf
  | first :: second :: tail =>
    have : 2 ≤ (first :: second :: tail).length := by simp
    have := pivot_lt this
    have := pivot_pos (first :: second :: tail).length
    node (root node empty ((first :: second :: tail).take (pivot (first :: second :: tail).length)))
      (root node empty ((first :: second :: tail).drop (pivot (first :: second :: tail).length)))
termination_by leaves => leaves.length
decreasing_by
  · rw [List.length_take]
    omega
  · rw [List.length_drop]
    omega

/-- The siblings on the way from one leaf to the root, lowest first. -/
def path (node : α → α → α) (empty : α) (leaves : List α) (index : ℕ) : List α :=
  if h : leaves.length ≤ 1 then []
  else
    have := pivot_lt (by omega : 2 ≤ leaves.length)
    have := pivot_pos leaves.length
    if index < pivot leaves.length then
      path node empty (leaves.take (pivot leaves.length)) index ++
        [root node empty (leaves.drop (pivot leaves.length))]
    else
      path node empty (leaves.drop (pivot leaves.length)) (index - pivot leaves.length) ++
        [root node empty (leaves.take (pivot leaves.length))]
termination_by leaves.length
decreasing_by
  · rw [List.length_take]
    omega
  · rw [List.length_drop]
    omega

/-- The side on which a sibling stands. -/
inductive Side where
  | left
  | right
  deriving DecidableEq, Repr

/-- The sides of the siblings of one leaf of a tree with `size` leaves, lowest first. -/
def sides (size index : ℕ) : List Side :=
  if h : size ≤ 1 then []
  else
    have := pivot_lt (by omega : 2 ≤ size)
    have := pivot_pos size
    if index < pivot size then sides (pivot size) index ++ [.right]
    else sides (size - pivot size) (index - pivot size) ++ [.left]
termination_by size

section Equations

variable (node : α → α → α) (empty : α)

@[simp]
theorem root_nil : root node empty [] = empty := by rw [root]

@[simp]
theorem root_singleton (leaf : α) : root node empty [leaf] = leaf := by rw [root]

theorem root_cut (leaves : List α) (h : 2 ≤ leaves.length) :
    root node empty leaves = node (root node empty (leaves.take (pivot leaves.length)))
        (root node empty (leaves.drop (pivot leaves.length))) := by
  match leaves, h with
  | first :: second :: tail, _ => rw [root]

theorem path_of_length_le_one (leaves : List α) (index : ℕ) (h : leaves.length ≤ 1) :
    path node empty leaves index = [] := by
  rw [path, dif_pos h]

theorem path_cut (leaves : List α) (index : ℕ) (h : 2 ≤ leaves.length) :
    path node empty leaves index = if index < pivot leaves.length then
        path node empty (leaves.take (pivot leaves.length)) index ++
          [root node empty (leaves.drop (pivot leaves.length))] else
        path node empty (leaves.drop (pivot leaves.length)) (index - pivot leaves.length) ++
          [root node empty (leaves.take (pivot leaves.length))] := by
  rw [path, dif_neg (by omega)]

end Equations

theorem sides_of_le_one (size index : ℕ) (h : size ≤ 1) : sides size index = [] := by
  rw [sides, dif_pos h]

theorem sides_cut (size index : ℕ) (h : 2 ≤ size) :
    sides size index = if index < pivot size then sides (pivot size) index ++ [.right]
      else sides (size - pivot size) (index - pivot size) ++ [.left] := by
  rw [sides, dif_neg (by omega)]

theorem length_sides_le (depth size index : ℕ) (h : size ≤ 2 ^ depth) :
    (sides size index).length ≤ depth := by
  induction depth generalizing size index with
  | zero =>
    rw [sides_of_le_one _ _ (by simpa using h)]
    exact le_rfl
  | succ depth ih =>
    rcases Nat.lt_or_ge 1 size with htwo | hone
    · have hpivot := pivot_le_of_le htwo h
      have hdouble := le_two_mul_pivot size
      rw [sides_cut size index htwo]
      split
      · have hchild := ih (pivot size) index hpivot
        rw [List.length_append, List.length_singleton]
        omega
      · have hchild := ih (size - pivot size) (index - pivot size) (by omega)
        rw [List.length_append, List.length_singleton]
        omega
    · rw [sides_of_le_one _ _ hone]
      exact Nat.zero_le _

section Blocks

variable (node : α → α → α) (empty : α) {block rest : List α} {exponent : ℕ}

section

variable (hblock : block.length = 2 ^ exponent)
include hblock

section

variable (hpos : 0 < rest.length)
include hpos

theorem pivot_append
    (hle : rest.length ≤ 2 ^ exponent) : pivot (block ++ rest).length = block.length := by
  rw [List.length_append, hblock]
  exact pivot_block hpos hle

theorem two_le_length_append :
    2 ≤ (block ++ rest).length := by
  have hpow : 0 < 2 ^ exponent := Nat.pow_pos (by decide)
  rw [List.length_append]
  omega

theorem root_append
    (hle : rest.length ≤ 2 ^ exponent) :
    root node empty (block ++ rest) = node (root node empty block) (root node empty rest) := by
  rw [root_cut node empty _ (two_le_length_append hblock hpos), pivot_append hblock hpos hle,
    List.take_left, List.drop_left]

theorem path_append_left
    (hle : rest.length ≤ 2 ^ exponent) (index : ℕ) (hindex : index < block.length) :
    path node empty (block ++ rest) index = path node empty block index ++ [root node empty rest] := by
  rw [path_cut node empty _ _ (two_le_length_append hblock hpos), pivot_append hblock hpos hle,
    if_pos hindex, List.take_left, List.drop_left]

theorem path_append_right
    (hle : rest.length ≤ 2 ^ exponent) (index : ℕ) (hindex : block.length ≤ index) :
    path node empty (block ++ rest) index =
      path node empty rest (index - block.length) ++ [root node empty block] := by
  rw [path_cut node empty _ _ (two_le_length_append hblock hpos), pivot_append hblock hpos hle,
    if_neg (by omega), List.take_left, List.drop_left]

theorem sides_append
    (hle : rest.length ≤ 2 ^ exponent) (index : ℕ) :
    sides (block ++ rest).length index = if index < block.length then sides block.length index ++ [.right]
      else sides rest.length (index - block.length) ++ [.left] := by
  rw [sides_cut _ _ (two_le_length_append hblock hpos), pivot_append hblock hpos hle]
  congr 3
  rw [List.length_append]
  omega

end

end

end Blocks

/-- Combine a value with one sibling. -/
def lift (node : α → α → α) (value : α) : Side × α → α
  | (.left, sibling) => node sibling value
  | (.right, sibling) => node value sibling

/-- Combine a value with its siblings, lowest first. -/
def climb (node : α → α → α) (value : α) (siblings : List (Side × α)) : α :=
  siblings.foldl (lift node) value

section Climb

variable (node : α → α → α) (empty : α)

@[simp]
theorem climb_nil (value : α) : climb node value [] = value := rfl

@[simp]
theorem climb_cons (value : α) (step : Side × α) (siblings : List (Side × α)) :
    climb node value (step :: siblings) = climb node (lift node value step) siblings := rfl

theorem climb_append (value : α) (first second : List (Side × α)) :
    climb node value (first ++ second) = climb node (climb node value first) second :=
  List.foldl_append

theorem climb_zip_concat (value sibling : α) (steps : List Side) (side : Side)
    (siblings : List α) (h : siblings[steps.length]? = some sibling) :
    climb node value ((steps ++ [side]).zip siblings) =
      lift node (climb node value (steps.zip siblings)) (side, sibling) := by
  obtain ⟨hlength, rfl⟩ := List.getElem?_eq_some_iff.mp h
  have hsplit : siblings = siblings.take steps.length ++ siblings.drop steps.length :=
    (List.take_append_drop _ _).symm
  have hdrop : siblings.drop steps.length =
      siblings[steps.length] :: siblings.drop (steps.length + 1) :=
    List.drop_eq_getElem_cons hlength
  have htake : steps.zip siblings = steps.zip (siblings.take steps.length) := by
    conv_lhs => rw [hsplit]
    rw [← List.append_nil steps, List.zip_append (by simp; omega)]
    simp
  conv_lhs => rw [hsplit]
  rw [List.zip_append (by simp; omega), climb_append, hdrop, htake]
  rfl

theorem length_path (leaves : List α) (hne : leaves ≠ []) (index : ℕ) :
    (path node empty leaves index).length = (sides leaves.length index).length := by
  induction leaves, hne using block_induction generalizing index with
  | single leaf =>
    rw [path_of_length_le_one _ _ _ _ (by simp), sides_of_le_one _ _ (by simp)]
    rfl
  | join block rest exponent hblock hpos hle _ _ ihblock ihrest =>
    rw [sides_append hblock hpos hle]
    by_cases hindex : index < block.length
    · rw [path_append_left node empty hblock hpos hle index hindex, if_pos hindex]
      simp [ihblock index]
    · rw [path_append_right node empty hblock hpos hle index (by omega), if_neg hindex]
      simp [ihrest (index - block.length)]

theorem climb_path (leaves : List α) (hne : leaves ≠ []) (index : ℕ) (leaf : α) (hleaf : leaves[index]? = some leaf) :
    climb node leaf ((sides leaves.length index).zip (path node empty leaves index)) = root node empty leaves := by
  induction leaves, hne using block_induction generalizing index with
  | single value =>
    rw [path_of_length_le_one _ _ _ _ (by simp), List.zip_nil_right, climb_nil, root_singleton]
    match index, hleaf with
    | 0, hleaf => exact (Option.some.inj hleaf).symm
  | join block rest exponent hblock hpos hle hblockne hrestne ihblock ihrest =>
    rw [root_append node empty hblock hpos hle, sides_append hblock hpos hle]
    by_cases hindex : index < block.length
    · rw [List.getElem?_append_left hindex] at hleaf
      rw [path_append_left node empty hblock hpos hle index hindex, if_pos hindex,
        List.zip_append (length_path node empty block hblockne index).symm, climb_append, ihblock index hleaf]
      rfl
    · rw [List.getElem?_append_right (by omega)] at hleaf
      rw [path_append_right node empty hblock hpos hle index (by omega), if_neg hindex,
        List.zip_append (length_path node empty rest hrestne _).symm, climb_append, ihrest _ hleaf]
      rfl

end Climb

/-! ## Uniqueness of siblings

A climb over fixed sides determines its start and all of its siblings, provided that the
combination is injective on pairs from a set that contains every value involved. -/

section Uniqueness

variable {node : α → α → α} {carrier : Set α}

variable {value sibling other : α} {first second : List α}

section

variable (hclosed : ∀ a ∈ carrier, ∀ b ∈ carrier, node a b ∈ carrier)
include hclosed

theorem lift_mem (hvalue : value ∈ carrier)
    (hsibling : sibling ∈ carrier) (side : Side) :
    lift node value (side, sibling) ∈ carrier := by
  cases side with
  | left => exact hclosed _ hsibling _ hvalue
  | right => exact hclosed _ hvalue _ hsibling

theorem climb_mem (steps : List (Side × α))
    (hvalue : value ∈ carrier) (hsteps : ∀ step ∈ steps, step.2 ∈ carrier) : climb node value steps ∈ carrier := by
  induction steps generalizing value with
  | nil => exact hvalue
  | cons step steps ih =>
    apply ih
    · exact lift_mem hclosed hvalue (hsteps step (by simp)) step.1
    · intro other hother
      exact hsteps other (by simp [hother])

omit hclosed in
theorem lift_inj
    (hinj : ∀ a ∈ carrier, ∀ b ∈ carrier, ∀ c ∈ carrier, ∀ d ∈ carrier, node a b = node c d → a = c ∧ b = d)
    {sibling' : α} (hvalue : value ∈ carrier) (hother : other ∈ carrier) (hsibling : sibling ∈ carrier)
    (hsibling' : sibling' ∈ carrier) (side : Side)
    (h : lift node value (side, sibling) = lift node other (side, sibling')) :
    value = other ∧ sibling = sibling' := by
  cases side with
  | left => exact (hinj _ hsibling _ hvalue _ hsibling' _ hother h).symm
  | right => exact hinj _ hvalue _ hsibling _ hother _ hsibling' h

theorem climb_inj
    (hinj : ∀ a ∈ carrier, ∀ b ∈ carrier, ∀ c ∈ carrier, ∀ d ∈ carrier, node a b = node c d → a = c ∧ b = d)
    (steps : List Side) (hvalue : value ∈ carrier) (hother : other ∈ carrier)
    (hfirst : ∀ sibling ∈ first, sibling ∈ carrier) (hsecond : ∀ sibling ∈ second, sibling ∈ carrier)
    (hfirstLength : first.length = steps.length) (hsecondLength : second.length = steps.length)
    (h : climb node value (steps.zip first) = climb node other (steps.zip second)) :
    value = other ∧ first = second := by
  induction steps generalizing first second value other with
  | nil =>
    rw [List.length_eq_zero_iff.mp hfirstLength, List.length_eq_zero_iff.mp hsecondLength]
    exact ⟨h, rfl⟩
  | cons side steps ih =>
    match first, second, hfirstLength, hsecondLength with
    | sibling :: first, sibling' :: second, hfirstLength, hsecondLength =>
      have hs : sibling ∈ carrier := hfirst sibling (by simp)
      have hs' : sibling' ∈ carrier := hsecond sibling' (by simp)
      have htail := ih (lift_mem hclosed hvalue hs side) (lift_mem hclosed hother hs' side)
        (fun x hx ↦ hfirst x (by simp [hx])) (fun x hx ↦ hsecond x (by simp [hx]))
        (by simpa using hfirstLength) (by simpa using hsecondLength) h
      have hhead := lift_inj hinj hvalue hother hs hs' side htail.1
      exact ⟨hhead.1, by rw [hhead.2, htail.2]⟩

variable {empty : α}

theorem root_mem {leaves : List α} (hne : leaves ≠ [])
    (h : ∀ leaf ∈ leaves, leaf ∈ carrier) : root node empty leaves ∈ carrier := by
  induction leaves, hne using block_induction with
  | single leaf =>
    rw [root_singleton]
    exact h leaf (by simp)
  | join block rest exponent hblock hpos hle _ _ ihblock ihrest =>
    have hleft := ihblock fun leaf hleaf ↦ h leaf (by simp [hleaf])
    have hright := ihrest fun leaf hleaf ↦ h leaf (by simp [hleaf])
    rw [root_append _ _ hblock hpos hle]
    exact hclosed _ hleft _ hright

end

theorem singleton_or_append {leaves : List α} (hne : leaves ≠ []) :
    (∃ leaf, leaves = [leaf]) ∨ ∃ left right, left ≠ [] ∧ right ≠ [] ∧ leaves = left ++ right ∧
      root node empty leaves = node (root node empty left) (root node empty right) := by
  induction leaves, hne using block_induction with
  | single leaf => exact Or.inl ⟨leaf, rfl⟩
  | join block rest exponent hblock hpos hle hleft hright =>
    exact Or.inr ⟨block, rest, hleft, hright, rfl, root_append _ _ hblock hpos hle⟩

theorem root_inj (hclosed : ∀ a ∈ carrier, ∀ b ∈ carrier, node a b ∈ carrier)
    (hinj : ∀ a ∈ carrier, ∀ b ∈ carrier, ∀ c ∈ carrier, ∀ d ∈ carrier, node a b = node c d → a = c ∧ b = d)
    {atoms : Set α} (hatoms : ∀ leaf ∈ atoms, leaf ∈ carrier ∧ ∀ a ∈ carrier, ∀ b ∈ carrier, leaf ≠ node a b)
    (hfirst : ∀ leaf ∈ first, leaf ∈ atoms) (hsecond : ∀ leaf ∈ second, leaf ∈ atoms) (hne : first ≠ [])
    (hne' : second ≠ []) (h : root node empty first = root node empty second) : first =
      second := by
  have hmem : ∀ leaves : List α, leaves ≠ [] → (∀ leaf ∈ leaves, leaf ∈ atoms) → root node empty leaves ∈ carrier :=
    fun leaves hleaves hall ↦ root_mem hclosed hleaves fun leaf hleaf ↦ (hatoms leaf (hall leaf hleaf)).1
  induction first, hne using block_induction generalizing second with
  | single leaf =>
    have hleaf := hatoms leaf (hfirst leaf (by simp))
    obtain ⟨other, rfl⟩ | ⟨left, right, hleft, hright, rfl, hroot⟩ := @singleton_or_append _ node empty _ hne'
    · rw [root_singleton, root_singleton] at h
      rw [h]
    · rw [root_singleton, hroot] at h
      rw [List.forall_mem_append] at hsecond
      exact absurd h (hleaf.2 _ (hmem left hleft hsecond.1) _ (hmem right hright hsecond.2))
  | join block rest exponent hblock hpos hle hleft hright ihblock ihrest =>
    rw [List.forall_mem_append] at hfirst
    rw [root_append _ _ hblock hpos hle] at h
    have hblockmem := hmem block hleft hfirst.1
    have hrestmem := hmem rest hright hfirst.2
    obtain ⟨other, rfl⟩ | ⟨left, right, hleft', hright', rfl, hroot⟩ := @singleton_or_append _ node empty _ hne'
    · rw [root_singleton] at h
      exact absurd h.symm ((hatoms other (hsecond other (by simp))).2 _ hblockmem _ hrestmem)
    · rw [List.forall_mem_append] at hsecond
      rw [hroot] at h
      obtain ⟨hfront, hback⟩ := hinj _ hblockmem _ hrestmem _ (hmem left hleft' hsecond.1) _
        (hmem right hright' hsecond.2) h
      rw [ihblock hfirst.1 hsecond.1 hleft' hfront, ihrest hfirst.2 hsecond.2 hright' hback]

end Uniqueness

end UniMem.Library.BalancedTree
