import UniMem.TransparencyLog.Frontier

/-!
# The cached tree of a log

A `_Tree` keeps the hashes of the leaves, the root after each leaf, and the hashes of ranges whose size is a power of
two. A range of leaves that is full stays as it is when the tree grows, so its hash never changes.
-/

namespace UniMem.TransparencyLog.NodeCache

open Library.BalancedTree FrontierProtocol

variable {Hash : Type}

/-- Hashes of ranges, by the start and the size of a range. -/
abbrev Nodes (Hash : Type) := List ((ℕ × ℕ) × Hash)

/-- `hashes[start:start+size]`. -/
def slice (hashes : List Hash) (start size : ℕ) : List Hash := (hashes.drop start).take size

/-- `state.nodes[key] = result` when the size is a power of two. -/
def keep (start size : ℕ) : Py Hash × Nodes Hash → Py Hash × Nodes Hash
  | (.error error, nodes) => (.error error, nodes)
  | (.ok result, nodes) => (.ok result, if size &&& (size - 1) = 0 then ((start, size), result) :: nodes else nodes)

variable {α β : Type}

/-- A call after another one that returned, on the nodes that it left. -/
def andThen : Py α × Nodes Hash → (α → Nodes Hash → Py β × Nodes Hash) → Py β × Nodes Hash
  | (.error error, nodes), _ => (.error error, nodes)
  | (.ok value, nodes), next => next value nodes

/-- `_range`. -/
def range (S : HashSuite Hash) (hashes : List Hash) (start size : ℕ) (nodes : Nodes Hash) : Py Hash × Nodes Hash :=
  if size = 0 then (.ok S.emptyHash, nodes)
  else
    match nodes.lookup (start, size) with
    | some node => (.ok node, nodes)
    | none =>
      if h : size ≤ 1 then keep start size (siblingAt hashes start, nodes)
      else
        have := split_lt (by omega : 2 ≤ size)
        have := split_pos size
        andThen (range S hashes start (split size) nodes) fun left nodes ↦
          andThen (range S hashes (start + split size) (size - split size) nodes) fun right nodes ↦
            keep start size (S.nodeHash left right, nodes)
termination_by size

/-- `_proof`. On an empty tree it comes to a leaf that does not exist. -/
def proof (S : HashSuite Hash) (hashes : List Hash) (index start size : ℕ) (nodes : Nodes Hash) :
    Py (List Hash) × Nodes Hash :=
  if h : size ≤ 1 then (if size = 0 then .error (.indexError "list index out of range") else .ok [], nodes)
  else
    have := split_lt (by omega : 2 ≤ size)
    have := split_pos size
    if index < start + split size then
      andThen (proof S hashes index start (split size) nodes) fun siblings nodes ↦
        andThen (range S hashes (start + split size) (size - split size) nodes) fun sibling nodes ↦
          (.ok (siblings ++ [sibling]), nodes)
    else
      andThen (proof S hashes index (start + split size) (size - split size) nodes) fun siblings nodes ↦
        andThen (range S hashes start (split size) nodes) fun sibling nodes ↦ (.ok (siblings ++ [sibling]), nodes)
termination_by size

/-- `_Tree`, without the ends of its journals. -/
structure Tree (Hash : Type) where
  hashes : List Hash
  roots : List Hash
  nodes : Nodes Hash

/-- `prefix_roots`. -/
def prefixRoots [DecidableEq Hash] (S : HashSuite Hash) (hashes : List Hash) : Py (List Hash) := do
  let (_, roots) ← hashes.foldlM (fun (state : List (Option Hash) × List Hash) leaf ↦ do
    let frontier ← frontierAppend S state.1 leaf
    let root ← frontierRoot S frontier
    return (frontier, state.2 ++ [root])) ([], [S.emptyHash])
  return roots

/-- The tree that `_tree` builds from the hashes of a journal. -/
def Tree.load [DecidableEq Hash] (S : HashSuite Hash) (hashes : List Hash) : Py (Tree Hash) := do
  Py.require (hashes.length ≤ maxRows) (.valueError "journal is truncated or exceeds its size limit; rotate it")
  let roots ← prefixRoots S hashes
  return ⟨hashes, roots, []⟩

/-- A use of a tree. A statement has a canonical hash. -/
inductive Use (S : HashSuite Hash) where
  | append (leaf : Hash) (hleaf : S.canonical leaf)
  | range (start size : ℕ)
  | proof (index : ℕ)

/-- The tree after a use, which may raise. The journal refuses a row above its limit. -/
def Tree.step {S : HashSuite Hash} (tree : Tree Hash) : Use S → Tree Hash
  | .append leaf _ =>
    if maxRows ≤ tree.hashes.length then tree
    else
      let hashes := tree.hashes ++ [leaf]
      let (result, nodes) := NodeCache.range S hashes 0 hashes.length tree.nodes
      ⟨hashes, tree.roots ++ result.toOption.toList, nodes⟩
  | .range start size => { tree with nodes := (NodeCache.range S tree.hashes start size tree.nodes).2 }
  | .proof index => { tree with
      nodes := (NodeCache.proof S tree.hashes index 0 tree.hashes.length tree.nodes).2 }

variable {S : HashSuite Hash} {hashes : List Hash} {nodes : Nodes Hash} {start size index : ℕ}

/-- The cached nodes are roots of ranges of the tree. -/
def Sound (S : HashSuite Hash) (hashes : List Hash) (nodes : Nodes Hash) : Prop :=
  ∀ start size node, nodes.lookup (start, size) = some node →
    start + size ≤ hashes.length ∧ node = S.root (slice hashes start size)

theorem andThen_ok {first : Py α × Nodes Hash} {next : α → Nodes Hash → Py β × Nodes Hash} {value : α}
    (h : first.1 = .ok value) : andThen first next = next value first.2 := by
  obtain ⟨result, nodes⟩ := first
  obtain rfl : result = _ := h
  rfl

theorem andThen_error {first : Py α × Nodes Hash} {next : α → Nodes Hash → Py β × Nodes Hash} {error : PyError}
    (h : first.1 = .error error) : andThen first next = (.error error, first.2) := by
  obtain ⟨result, nodes⟩ := first
  obtain rfl : result = _ := h
  rfl

theorem length_slice (h : start + size ≤ hashes.length) : (slice hashes start size).length = size := by
  rw [slice, List.length_take, List.length_drop]
  omega

theorem take_slice {part : ℕ} (h : part ≤ size) : (slice hashes start size).take part = slice hashes start part := by
  rw [slice, List.take_take, min_eq_left h, slice]

theorem drop_slice (part : ℕ) :
    (slice hashes start size).drop part = slice hashes (start + part) (size - part) := by
  rw [slice, List.drop_take, List.drop_drop, slice]

theorem slice_append (h : start + size ≤ hashes.length) (more : List Hash) :
    slice (hashes ++ more) start size = slice hashes start size := by
  rw [slice, List.drop_append_of_le_length (by omega), List.take_append_of_le_length, slice]
  rw [List.length_drop]
  omega

theorem mem_slice {leaf : Hash} (h : leaf ∈ slice hashes start size) : leaf ∈ hashes :=
  List.mem_of_mem_drop (List.mem_of_mem_take h)

theorem root_slice (htwo : 2 ≤ size) (h : start + size ≤ hashes.length) :
    S.root (slice hashes start size) = S.combine (S.root (slice hashes start (split size)))
      (S.root (slice hashes (start + split size) (size - split size))) := by
  have hlength := length_slice h
  rw [HashSuite.root, root_cut _ _ _ (by omega), hlength, ← split_eq_pivot htwo, take_slice (split_lt htwo).le,
    drop_slice]
  rfl

theorem Sound.append (h : Sound S hashes nodes) (more : List Hash) : Sound S (hashes ++ more) nodes := by
  intro start size node hnode
  obtain ⟨hle, rfl⟩ := h start size node hnode
  exact ⟨hle.trans (List.length_append ▸ Nat.le_add_right _ _), by rw [slice_append hle]⟩

theorem Sound.keep (h : Sound S hashes nodes) (hle : start + size ≤ hashes.length) :
    Sound S hashes (NodeCache.keep start size (.ok (S.root (slice hashes start size)), nodes)).2 := by
  rw [NodeCache.keep]
  split_ifs
  · intro other width node hnode
    rw [List.lookup_cons] at hnode
    split at hnode
    · next heq =>
      obtain ⟨rfl, rfl⟩ := Prod.mk.inj (beq_iff_eq.mp heq)
      exact ⟨hle, (Option.some.inj hnode).symm⟩
    · exact h other width node hnode
  · exact h

/-- What `_range` answers: the root of a range of the tree. -/
def answer (S : HashSuite Hash) (hashes : List Hash) (start size : ℕ) : Py Hash :=
  if size = 0 ∨ start + size ≤ hashes.length then .ok (S.root (slice hashes start size))
  else .error (.indexError "list index out of range")

/-- Any query of a range is answered from the leaves and leaves a sound cache. -/
theorem range_spec (hcanonical : ∀ leaf ∈ hashes, S.canonical leaf) (h : Sound S hashes nodes) (start size : ℕ) :
    (range S hashes start size nodes).1 = answer S hashes start size ∧
      Sound S hashes (range S hashes start size nodes).2 := by
  induction size using Nat.strong_induction_on generalizing start nodes with
  | _ size ih =>
    rw [range]
    by_cases hzero : size = 0
    · subst hzero
      exact ⟨by simp [answer, slice, HashSuite.root], h⟩
    rw [if_neg hzero]
    cases hlookup : nodes.lookup (start, size) with
    | some node =>
      obtain ⟨hle, rfl⟩ := h start size node hlookup
      exact ⟨by rw [answer, if_pos (.inr hle)], h⟩
    | none =>
      simp only
      by_cases hone : size ≤ 1
      · obtain rfl : size = 1 := by omega
        rw [dif_pos hone, siblingAt]
        by_cases hin : start < hashes.length
        · have hroot : hashes[start] = S.root (slice hashes start 1) := by
            rw [slice, List.drop_eq_getElem_cons hin, List.take_succ_cons, List.take_zero, HashSuite.root,
              root_singleton]
          rw [List.getElem?_eq_getElem hin, hroot]
          exact ⟨by rw [answer, if_pos (.inr hin)]; rfl, h.keep hin⟩
        · rw [List.getElem?_eq_none (by omega)]
          exact ⟨by rw [answer, if_neg (by omega)]; rfl, h⟩
      · have hlt := split_lt (by omega : 2 ≤ size)
        have hpos := split_pos size
        obtain ⟨hleft, hsound⟩ := ih _ hlt h start
        rw [dif_neg hone]
        obtain ⟨hright, hlast⟩ := ih (size - split size) (by omega) hsound (start + split size)
        by_cases hle : start + size ≤ hashes.length
        · have hall : ∀ start size, S.canonical (S.root (slice hashes start size)) := fun start size ↦
            canonical_root _ fun leaf hleaf ↦ hcanonical leaf (mem_slice hleaf)
          rw [answer, if_pos (.inr (by omega))] at hleft hright
          rw [andThen_ok hleft, andThen_ok hright, nodeHash_eq_ok (hall _ _) (hall _ _), ← root_slice (by omega) hle,
            answer, if_pos (.inr hle)]
          exact ⟨rfl, hlast.keep hle⟩
        · rw [answer, if_neg (by omega)] at hright
          rw [answer, if_neg (by omega)]
          by_cases hin : start + split size ≤ hashes.length
          · rw [answer, if_pos (.inr hin)] at hleft
            rw [andThen_ok hleft, andThen_error hright]
            exact ⟨rfl, hlast⟩
          · rw [answer, if_neg (by omega)] at hleft
            rw [andThen_error hleft]
            exact ⟨rfl, hsound⟩

theorem andThen_spec (hcanonical : ∀ leaf ∈ hashes, S.canonical leaf) {below : Py (List Hash) × Nodes Hash}
    (h : Sound S hashes below.2) (start size : ℕ) :
    let last := andThen below fun siblings nodes ↦ andThen (range S hashes start size nodes) fun sibling nodes ↦
      (.ok (siblings ++ [sibling]), nodes)
    Sound S hashes last.2 ∧ ∀ siblings, below.1 = .ok siblings → start + size ≤ hashes.length →
      last.1 = .ok (siblings ++ [S.root (slice hashes start size)]) := by
  obtain ⟨result, nodes⟩ := below
  obtain ⟨hanswer, hsound⟩ := range_spec hcanonical h start size
  cases result with
  | error error => exact ⟨h, fun _ hbelow ↦ by cases hbelow⟩
  | ok found =>
    rw [answer] at hanswer
    simp only [andThen_ok (rfl : ((.ok found : Py (List Hash)), nodes).1 = _)]
    split_ifs at hanswer with hin
    · rw [andThen_ok hanswer]
      refine ⟨hsound, fun siblings hbelow _ ↦ ?_⟩
      obtain rfl := Except.ok.inj hbelow
      rfl
    · rw [andThen_error hanswer]
      exact ⟨hsound, fun _ _ hle ↦ absurd (.inr hle) hin⟩

/-- A proof leaves a sound cache, and is the path of a leaf to the root. -/
theorem proof_spec (hcanonical : ∀ leaf ∈ hashes, S.canonical leaf) (h : Sound S hashes nodes) (start size : ℕ) :
    Sound S hashes (proof S hashes index start size nodes).2 ∧
      (start ≤ index → index < start + size → start + size ≤ hashes.length →
        (proof S hashes index start size nodes).1 =
          .ok (path S.combine S.emptyHash (slice hashes start size) (index - start))) := by
  induction size using Nat.strong_induction_on generalizing start nodes with
  | _ size ih =>
    rw [proof]
    by_cases hone : size ≤ 1
    · rw [dif_pos hone]
      refine ⟨h, fun hstart hend hle ↦ ?_⟩
      rw [if_neg (by omega), path_of_length_le_one _ _ _ _ (by rw [length_slice hle]; exact hone)]
    · have htwo : 2 ≤ size := by omega
      have hlt := split_lt htwo
      have hpos := split_pos size
      rw [dif_neg hone]
      have hpath : start + size ≤ hashes.length → ∀ i, path S.combine S.emptyHash (slice hashes start size) i =
          if i < split size then path S.combine S.emptyHash (slice hashes start (split size)) i ++
            [S.root (slice hashes (start + split size) (size - split size))]
          else path S.combine S.emptyHash (slice hashes (start + split size) (size - split size)) (i - split size) ++
            [S.root (slice hashes start (split size))] := by
        intro hle i
        have hlength := length_slice hle
        rw [path_cut _ _ _ _ (by omega), hlength, ← split_eq_pivot htwo, take_slice hlt.le, drop_slice]
        rfl
      by_cases hleft : index < start + split size
      · obtain ⟨hsound, hbelow⟩ := ih _ hlt h start
        obtain ⟨hlast, hanswer⟩ := andThen_spec hcanonical hsound (start + split size) (size - split size)
        simp only [if_pos hleft]
        refine ⟨hlast, fun hstart hend hle ↦ ?_⟩
        rw [hanswer _ (hbelow hstart hleft (by omega)) (by omega), hpath hle, if_pos (by omega)]
      · obtain ⟨hsound, hbelow⟩ := ih (size - split size) (by omega) h (start + split size)
        obtain ⟨hlast, hanswer⟩ := andThen_spec hcanonical hsound start (split size)
        simp only [if_neg hleft]
        refine ⟨hlast, fun hstart hend hle ↦ ?_⟩
        rw [hanswer _ (hbelow (by omega) (by omega) (by omega)) (by omega), hpath hle, if_neg (by omega),
          Nat.sub_sub]

/-- The roots of all prefixes of a list. -/
def rootsOf (S : HashSuite Hash) (hashes : List Hash) : List Hash :=
  (List.range (hashes.length + 1)).map fun size ↦ S.root (hashes.take size)

/-- A tree with a sound cache and its roots. -/
structure Exact (S : HashSuite Hash) (tree : Tree Hash) : Prop where
  small : tree.hashes.length ≤ maxRows
  canonical : ∀ leaf ∈ tree.hashes, S.canonical leaf
  sound : Sound S tree.hashes tree.nodes
  roots : tree.roots = rootsOf S tree.hashes

theorem rootsOf_append (leaf : Hash) :
    rootsOf S (hashes ++ [leaf]) = rootsOf S hashes ++ [S.root (hashes ++ [leaf])] := by
  have hsame : ∀ size ∈ List.range (hashes.length + 1), S.root ((hashes ++ [leaf]).take size) =
      S.root (hashes.take size) := by
    intro size hsize
    rw [List.take_append_of_le_length (Nat.lt_succ_iff.mp (List.mem_range.mp hsize))]
  rw [rootsOf, List.length_append, List.length_singleton, List.range_succ, List.map_append, List.map_congr_left hsame,
    List.map_singleton, List.take_of_length_le (by simp), rootsOf]

theorem prefixRoots_eq [DecidableEq Hash] (hcanonical : ∀ leaf ∈ hashes, S.canonical leaf) :
    prefixRoots S hashes = .ok (rootsOf S hashes) := by
  have hfold : ∃ frontier, Summarizes S 0 frontier hashes ∧
      hashes.foldlM (fun (state : List (Option Hash) × List Hash) leaf ↦ do
        let frontier ← frontierAppend S state.1 leaf
        let root ← frontierRoot S frontier
        return (frontier, state.2 ++ [root])) ([], [S.emptyHash]) = .ok (frontier, rootsOf S hashes) := by
    induction hashes using List.reverseRecOn with
    | nil => exact ⟨[], .nil 0, by simp [rootsOf, HashSuite.root]⟩
    | append_singleton hashes leaf ih =>
      obtain ⟨hbefore, hleaf⟩ := List.forall_mem_append.mp hcanonical
      obtain ⟨frontier, hsummary, hfold⟩ := ih hbefore
      obtain ⟨next, happend, hnext⟩ := hsummary.frontierAppend [leaf] hbefore hleaf rfl
      rw [HashSuite.root, root_singleton] at happend
      refine ⟨next, hnext, ?_⟩
      rw [List.foldlM_append, hfold, Py.bind_ok, List.foldlM_cons, happend, Py.bind_ok, hnext.frontierRoot hcanonical,
        rootsOf_append]
      rfl
  obtain ⟨frontier, -, hfold⟩ := hfold
  rw [prefixRoots, hfold]
  rfl

theorem Exact.load [DecidableEq Hash] {tree : Tree Hash} (hcanonical : ∀ leaf ∈ hashes, S.canonical leaf)
    (h : Tree.load S hashes = .ok tree) : Exact S tree := by
  obtain ⟨_, hsmall, h⟩ := Py.of_bind h
  obtain ⟨_, hroots, h⟩ := Py.of_bind h
  rw [prefixRoots_eq hcanonical] at hroots
  obtain rfl := Except.ok.inj hroots
  obtain rfl := Except.ok.inj h
  exact ⟨of_decide_eq_true (Py.require_eq_ok_iff.mp hsmall), hcanonical, fun _ _ _ hnode ↦ (nomatch hnode), rfl⟩

theorem Exact.step {tree : Tree Hash} (h : Exact S tree) (use : Use S) : Exact S (tree.step use) := by
  cases use with
  | range start size => exact ⟨h.small, h.canonical, (range_spec h.canonical h.sound start size).2, h.roots⟩
  | proof index => exact ⟨h.small, h.canonical, (proof_spec h.canonical h.sound 0 _).1, h.roots⟩
  | append leaf hleaf =>
    rw [Tree.step]
    split_ifs with hfull
    · exact h
    · have hcanonical : ∀ other ∈ tree.hashes ++ [leaf], S.canonical other :=
        List.forall_mem_append.mpr ⟨h.canonical, List.forall_mem_singleton.mpr hleaf⟩
      obtain ⟨hanswer, hsound⟩ := range_spec hcanonical (h.sound.append [leaf]) 0 (tree.hashes ++ [leaf]).length
      rw [answer, if_pos (.inr (Nat.zero_add _).le), slice, List.drop_zero, List.take_length] at hanswer
      have hsmall : (tree.hashes ++ [leaf]).length ≤ maxRows := by
        rw [List.length_append]
        exact Nat.lt_of_not_le hfull
      refine ⟨hsmall, hcanonical, hsound, ?_⟩
      rw [rootsOf_append, ← h.roots]
      simp only [hanswer]
      rfl

theorem Exact.run {tree : Tree Hash} (h : Exact S tree) (uses : List (Use S)) :
    Exact S (uses.foldl Tree.step tree) := by
  induction uses generalizing tree with
  | nil => exact h
  | cons use uses ih => exact ih (h.step use)

/-- Every cached node is the hash of its range, every root that of its prefix, and proofs agree. -/
structure Agrees (S : HashSuite Hash) (tree : Tree Hash) : Prop where
  node : ∀ start size node, tree.nodes.lookup (start, size) = some node →
    start + size ≤ tree.hashes.length ∧ treeHash S (slice tree.hashes start size) = .ok node
  count : tree.roots.length = tree.hashes.length + 1
  root : ∀ size ≤ tree.hashes.length, ∃ root, tree.roots[size]? = some root ∧
    treeHash S (tree.hashes.take size) = .ok root
  proof : ∀ index < tree.hashes.length,
    (NodeCache.proof S tree.hashes index 0 tree.hashes.length tree.nodes).1 = inclusion S tree.hashes index

/-- The cache is exact in every state of a tree. -/
theorem cached_tree_exact [DecidableEq Hash] (S : HashSuite Hash) (hashes : List Hash)
    (hcanonical : ∀ leaf ∈ hashes, S.canonical leaf) (start : Tree Hash) (hload : Tree.load S hashes = .ok start)
    (uses : List (Use S)) : Agrees S (uses.foldl Tree.step start) := by
  have hexact := (Exact.load hcanonical hload).run uses
  generalize uses.foldl Tree.step start = tree at hexact
  have hlimit : maxRows ≤ 2 ^ 19 := by decide
  have hsmall := hexact.small
  have hbound := two_pow_le_maxTreeLeaves
  refine ⟨fun start size node hnode ↦ ?_, ?_, fun size hsize ↦ ?_, fun index hindex ↦ ?_⟩
  · obtain ⟨hle, rfl⟩ := hexact.sound start size node hnode
    refine ⟨hle, treeHash_eq_root _ (fun leaf hleaf ↦ hexact.canonical leaf (mem_slice hleaf)) ?_⟩
    rw [length_slice hle]
    omega
  · rw [hexact.roots, rootsOf, List.length_map, List.length_range]
  · refine ⟨S.root (tree.hashes.take size), ?_, treeHash_eq_root _ (fun leaf hleaf ↦
      hexact.canonical leaf (List.mem_of_mem_take hleaf)) ((List.length_take_le _ _).trans ?_)⟩
    · rw [hexact.roots, rootsOf, List.getElem?_map, List.getElem?_range (by omega), Option.map_some]
    · omega
  · have hne : tree.hashes ≠ [] := List.ne_nil_of_length_pos (by omega)
    obtain ⟨-, hproof⟩ := @proof_spec _ _ _ _ index hexact.canonical hexact.sound 0 tree.hashes.length
    rw [hproof (Nat.zero_le _) (by omega) (by omega), slice, List.drop_zero, List.take_length, Nat.sub_zero,
      inclusion_eq_path _ hne hexact.canonical (by omega) index hindex]

/-- Two appends around queries, on a log with one leaf. -/
theorem cached_tree_exact_three : Agrees FreeHash.suite
    (([.append (.leaf 1) rfl, .range 0 2, .proof 1, .append (.leaf 2) rfl] : List (Use FreeHash.suite)).foldl
      Tree.step ⟨[.leaf 0], [.emptyRoot, .leaf 0], []⟩) :=
  cached_tree_exact FreeHash.suite [.leaf 0] (by decide) _ rfl _

theorem roots_prefix_step (tree : Tree Hash) (use : Use S) : tree.roots <+: (tree.step use).roots := by
  cases use with
  | append leaf hleaf =>
    rw [Tree.step]
    split_ifs
    · exact List.prefix_rfl
    · exact List.prefix_append _ _
  | range start size => exact List.prefix_rfl
  | proof index => exact List.prefix_rfl

theorem roots_prefix_run (tree : Tree Hash) (uses : List (Use S)) :
    tree.roots <+: (uses.foldl Tree.step tree).roots := by
  induction uses generalizing tree with
  | nil => exact List.prefix_rfl
  | cons use uses ih => exact (roots_prefix_step tree use).trans (ih _)

/-- Every leaf of a tree has a proof from its cache that is accepted under its last root. -/
def Proves [DecidableEq Hash] (S : HashSuite Hash) (tree : Tree Hash) : Prop :=
  ∀ index leaf, tree.hashes[index]? = some leaf → ∃ siblings root,
    (proof S tree.hashes index 0 tree.hashes.length tree.nodes).1 = .ok siblings ∧
      tree.roots.getLast? = some root ∧ verifyInclusion S leaf index tree.hashes.length siblings root = .ok true

/-- In every run the roots that a tree has shown stay, and its leaves are proved. -/
theorem receipts_accepted [DecidableEq Hash] (S : HashSuite Hash) (hashes : List Hash)
    (hcanonical : ∀ leaf ∈ hashes, S.canonical leaf) (start : Tree Hash) (hload : Tree.load S hashes = .ok start)
    (uses more : List (Use S)) :
    (uses.foldl Tree.step start).roots <+: ((uses ++ more).foldl Tree.step start).roots ∧
      Proves S ((uses ++ more).foldl Tree.step start) := by
  have hexact := (Exact.load hcanonical hload).run (uses ++ more)
  refine ⟨by rw [List.foldl_append]; exact roots_prefix_run _ more, ?_⟩
  generalize (uses ++ more).foldl Tree.step start = tree at hexact
  intro index leaf hleaf
  have hlimit : maxRows ≤ 2 ^ 19 := by decide
  have hsmall := hexact.small
  have hbound := two_pow_le_maxTreeLeaves
  have hindex := (List.getElem?_eq_some_iff.mp hleaf).1
  have hne : tree.hashes ≠ [] := List.ne_nil_of_length_pos (by omega)
  obtain ⟨-, hproof⟩ := @proof_spec _ _ _ _ index hexact.canonical hexact.sound 0 tree.hashes.length
  have hpath := hproof (Nat.zero_le _) (by omega) (by omega)
  rw [slice, List.drop_zero, List.take_length, Nat.sub_zero] at hpath
  refine ⟨_, S.root tree.hashes, hpath, ?_, ?_⟩
  · rw [hexact.roots, rootsOf, List.range_succ, List.map_append, List.map_singleton, List.getLast?_concat,
      List.take_length]
  · have hdepth := length_sides_le 20 tree.hashes.length index (by omega)
    have hlength := length_path S.combine S.emptyHash tree.hashes hne index
    rw [verifyInclusion_eq_true_iff _ _ _ _ _ (by omega) (by omega) hindex]
    exact ⟨hexact.canonical leaf (List.mem_of_getElem? hleaf), canonical_root _ hexact.canonical, by omega,
      canonical_path _ hexact.canonical index, hlength, climb_path _ _ _ hne index leaf hleaf⟩

/-- A log with one leaf, and a proof of it between two appends. -/
theorem receipts_accepted_three : ∃ uses more : List (Use FreeHash.suite), uses.length = 2 ∧ more.length = 1 ∧
    (uses.foldl Tree.step ⟨[.leaf 0], [.emptyRoot, .leaf 0], []⟩).roots <+:
      ((uses ++ more).foldl Tree.step ⟨[.leaf 0], [.emptyRoot, .leaf 0], []⟩).roots ∧
    Proves FreeHash.suite ((uses ++ more).foldl Tree.step ⟨[.leaf 0], [.emptyRoot, .leaf 0], []⟩) :=
  ⟨[.append (.leaf 1) rfl, .proof 0], [.append (.leaf 2) rfl], rfl, rfl,
    receipts_accepted FreeHash.suite [.leaf 0] (by decide) _ rfl _ _⟩

end UniMem.TransparencyLog.NodeCache
