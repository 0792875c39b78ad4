import UniMem.Library.BalancedTree
import UniMem.FrontierProtocol.Values

/-!
# Merkle trees of the transparency log

Hashes are opaque values with a decidable canonical form. Collision freedom cannot hold for digests of a fixed
length, so it is a separate predicate.
-/

namespace UniMem.TransparencyLog

open Library.BalancedTree FrontierProtocol

/-- `MAX_TREE_LEAVES`. -/
@[irreducible]
def maxTreeLeaves : ℕ := 1_000_000

theorem one_le_maxTreeLeaves : 1 ≤ maxTreeLeaves := by norm_num [maxTreeLeaves]

theorem maxTreeLeaves_le_two_pow : maxTreeLeaves ≤ 2 ^ 20 := by norm_num [maxTreeLeaves]

theorem two_pow_le_maxTreeLeaves : 2 ^ 19 ≤ maxTreeLeaves := by norm_num [maxTreeLeaves]

/-- The hashes of the log: `_HASH.fullmatch`, the `0x01` node and `EMPTY`. -/
structure HashSuite (Hash : Type) where
  canonical : Hash → Bool
  combine : Hash → Hash → Hash
  emptyHash : Hash
  /-- The text `""`, which Python treats as false. -/
  blank : Hash
  canonical_combine : ∀ left right, canonical (combine left right) = true
  canonical_emptyHash : canonical emptyHash = true
  canonical_blank : canonical blank = false

variable {Hash : Type}

/-- Distinct pairs of canonical hashes have distinct node hashes. -/
def HashSuite.CollisionFree (S : HashSuite Hash) : Prop :=
  ∀ a b c d, S.canonical a → S.canonical b → S.canonical c → S.canonical d →
    S.combine a b = S.combine c d → a = c ∧ b = d

/-- `_hash`. -/
def HashSuite.hash (S : HashSuite Hash) (value : Hash) : Py Hash :=
  if S.canonical value then .ok value
  else .error (.valueError "Merkle hashes must be canonical 32-byte lowercase hex")

/-- `node_hash`. -/
def HashSuite.nodeHash (S : HashSuite Hash) (left right : Hash) : Py Hash := do
  let _ ← S.hash left
  let _ ← S.hash right
  return S.combine left right

/-- `_split`. -/
def split (size : ℕ) : ℕ := 1 <<< (bitLength (size - 1) - 1)

theorem split_eq_pivot {size : ℕ} (h : 2 ≤ size) : split size = pivot size := by
  unfold split pivot bitLength
  rw [if_neg (by omega), Nat.add_sub_cancel, Nat.shiftLeft_eq, one_mul, Nat.log2_eq_log_two]

theorem split_lt {size : ℕ} (h : 2 ≤ size) : split size < size := by
  rw [split_eq_pivot h]
  exact pivot_lt h

theorem split_pos (size : ℕ) : 0 < split size := by
  unfold split
  rw [Nat.shiftLeft_eq, one_mul]
  exact Nat.pow_pos (by decide)

/-- `tree_hash`. -/
def treeHash (S : HashSuite Hash) : List Hash → Py Hash
  | [] => do
    let _ ← count 0 0 maxTreeLeaves "count"
    return S.emptyHash
  | [leaf] => do
    let _ ← count 1 0 maxTreeLeaves "count"
    S.hash leaf
  | first :: second :: tail => do
    let hashes := first :: second :: tail
    let _ ← count hashes.length 0 maxTreeLeaves "count"
    let left ← treeHash S (hashes.take (split hashes.length))
    let right ← treeHash S (hashes.drop (split hashes.length))
    S.nodeHash left right
termination_by hashes => hashes.length
decreasing_by
  · have := split_lt (by simp : 2 ≤ (first :: second :: tail).length)
    rw [List.length_take]
    omega
  · have := split_pos (first :: second :: tail).length
    rw [List.length_drop]
    simp only [List.length_cons] at *
    omega

section Suite

variable (S : HashSuite Hash)

/-- The set of canonical hashes. -/
def HashSuite.carrier : Set Hash := {value | S.canonical value = true}

/-- The root of a list of leaves without the checks of the source. -/
def HashSuite.root (hashes : List Hash) : Hash :=
  Library.BalancedTree.root S.combine S.emptyHash hashes

variable {S}

theorem hash_eq_ok {value : Hash} (h : S.canonical value) : S.hash value = .ok value := if_pos h

theorem hash_eq_ok_iff {value result : Hash} :
    S.hash value = .ok result ↔ S.canonical value ∧ value = result := by
  unfold HashSuite.hash
  split <;> simp_all

theorem nodeHash_eq_ok {left right : Hash} (hleft : S.canonical left) (hright : S.canonical right) :
    S.nodeHash left right = .ok (S.combine left right) := by
  simp [HashSuite.nodeHash, hash_eq_ok hleft, hash_eq_ok hright]

theorem carrier_closed (a : Hash) (_ : a ∈ S.carrier) (b : Hash) (_ : b ∈ S.carrier) :
    S.combine a b ∈ S.carrier := S.canonical_combine a b

theorem HashSuite.CollisionFree.injOn (h : S.CollisionFree) :
    ∀ a ∈ S.carrier, ∀ b ∈ S.carrier, ∀ c ∈ S.carrier, ∀ d ∈ S.carrier,
      S.combine a b = S.combine c d → a = c ∧ b = d := by
  intro a ha b hb c hc d hd
  exact h a b c d ha hb hc hd

theorem canonical_root (hashes : List Hash) (hcanonical : ∀ leaf ∈ hashes, S.canonical leaf) :
    S.canonical (S.root hashes) := by
  match hashes with
  | [] => simpa [HashSuite.root] using S.canonical_emptyHash
  | [leaf] => simpa [HashSuite.root] using hcanonical leaf (by simp)
  | first :: second :: tail =>
    rw [HashSuite.root, root_cut _ _ _ (by simp)]
    exact S.canonical_combine _ _

theorem treeHash_of_length_gt (hashes : List Hash) (h : maxTreeLeaves < hashes.length) :
    ∃ message, treeHash S hashes = .error (.valueError message) := by
  match hashes with
  | [] => simp at h
  | [leaf] =>
    have hone := one_le_maxTreeLeaves
    rw [List.length_singleton] at h
    omega
  | first :: second :: tail =>
    rw [treeHash, count, if_neg (by omega), Py.bind_error]
    exact ⟨_, rfl⟩

theorem treeHash_cut (hashes : List Hash) (hlength : 2 ≤ hashes.length) (hbound : hashes.length ≤ maxTreeLeaves) :
    treeHash S hashes = (do
      let left ← treeHash S (hashes.take (pivot hashes.length))
      let right ← treeHash S (hashes.drop (pivot hashes.length))
      S.nodeHash left right) := by
  rw [← split_eq_pivot hlength]
  match hashes, hlength with
  | first :: second :: tail, _ =>
    rw [treeHash, count_of_mem _ (by omega) (by omega), Py.bind_ok]

theorem treeHash_eq_root (hashes : List Hash) (hcanonical : ∀ leaf ∈ hashes, S.canonical leaf)
    (hbound : hashes.length ≤ maxTreeLeaves) : treeHash S hashes = .ok (S.root hashes) := by
  have hone := one_le_maxTreeLeaves
  rcases eq_or_ne hashes [] with rfl | hne
  · rw [treeHash, count_of_mem _ (by omega) (by omega), Py.bind_ok, HashSuite.root, root_nil]
    rfl
  induction hashes, hne using block_induction with
  | single leaf =>
    rw [treeHash, count_of_mem _ (by omega) (by omega), Py.bind_ok, HashSuite.root,
      root_singleton, hash_eq_ok (hcanonical leaf (by simp))]
  | join block rest exponent hblock hpos hle _ _ ihblock ihrest =>
    obtain ⟨hblockCanonical, hrestCanonical⟩ := List.forall_mem_append.mp hcanonical
    have hsum : block.length + rest.length ≤ maxTreeLeaves := by
      rwa [List.length_append] at hbound
    rw [treeHash_cut _ (two_le_length_append hblock hpos) hbound, pivot_append hblock hpos hle,
      List.take_left, List.drop_left, ihblock hblockCanonical (by omega),
      ihrest hrestCanonical (by omega), Py.bind_ok, Py.bind_ok,
      nodeHash_eq_ok (canonical_root _ hblockCanonical) (canonical_root _ hrestCanonical),
      HashSuite.root, HashSuite.root, HashSuite.root, root_append _ _ hblock hpos hle]

end Suite

/-- Hash terms: atoms, and nodes that keep both children. -/
inductive FreeHash where
  | blank
  | emptyRoot
  | leaf (name : ℕ)
  | node (left right : FreeHash)
  deriving DecidableEq, Repr

/-- The suite of symbolic hashes, in which every term but the blank one is canonical. -/
def FreeHash.suite : HashSuite FreeHash where
  canonical value := value ≠ .blank
  combine := .node
  emptyHash := .emptyRoot
  blank := .blank
  canonical_combine := by simp
  canonical_emptyHash := by simp
  canonical_blank := by simp

theorem FreeHash.suite_collisionFree : FreeHash.suite.CollisionFree := by
  intro a b c d _ _ _ _ h
  exact FreeHash.node.inj h

end UniMem.TransparencyLog
