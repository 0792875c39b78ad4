import UniMem.Library.Grouping

/-!
# Breadth-first search

The state of a search is a tree of parents and a queue of nodes. A node that was not seen when the queue is empty is
out of reach, and a node is first seen at its distance.
-/

namespace UniMem.Library.BreadthFirst

variable {α β : Type}

/-- The nodes and the labels of a walk. -/
inductive Trail (step : α → β → α → Prop) : List α → List β → Prop where
  | single (node : α) : Trail step [node] []
  | cons {node next : α} {label : β} {nodes : List α} {labels : List β} (hstep : step node label next)
      (hrest : Trail step (next :: nodes) labels) : Trail step (node :: next :: nodes) (label :: labels)

/-- A walk from one node to another. -/
structure Leads (step : α → β → α → Prop) (source target : α) (nodes : List α) (labels : List β) : Prop where
  trail : Trail step nodes labels
  head : nodes.head? = some source
  last : nodes.getLast? = some target

variable {step : α → β → α → Prop}

theorem Leads.single (node : α) : Leads step node node [node] [] := ⟨.single node, rfl, rfl⟩

variable {nodes : List α} {labels : List β} {node next target : α} {label : β} {bound : ℕ}

theorem Trail.concat (h : Trail step nodes labels) (hlast : nodes.getLast? = some node)
    (hstep : step node label next) :
    Trail step (nodes ++ [next]) (labels ++ [label]) := by
  induction h with
  | single first =>
    obtain rfl := Option.some.inj hlast
    exact .cons hstep (.single next)
  | cons hfirst _ ih =>
    rw [List.getLast?_cons_cons] at hlast
    exact .cons hfirst (ih hlast)

theorem Leads.concat {source : α} (h : Leads step source node nodes labels) (hstep : step node label next) :
    Leads step source next (nodes ++ [next]) (labels ++ [label]) := by
  refine ⟨h.trail.concat h.last hstep, ?_, List.getLast?_concat⟩
  cases nodes with
  | nil => cases h.head
  | cons first rest => exact h.head

/-- The parent of a node and the label of the step from it; the source has none. -/
abbrev Parents (α β : Type) := List (α × Option (α × β))

/-- The nodes that were seen. -/
def seen (parents : Parents α β) : List α := parents.map Prod.fst

theorem seen_concat (parents : Parents α β) (node : α) (link : Option (α × β)) :
    seen (parents ++ [(node, link)]) = seen parents ++ [node] := by
  rw [seen, List.map_append, List.map_singleton, seen]

/-- Parents that form a tree: a node lies one step below its parent. -/
structure Tree (step : α → β → α → Prop) (source : α) (parents : Parents α β) (depth : α → ℕ) : Prop where
  nodup : (seen parents).Nodup
  source_mem : (source, none) ∈ parents
  root : ∀ node, (node, none) ∈ parents → node = source
  link : ∀ node parent label, (node, some (parent, label)) ∈ parents →
    parent ∈ seen parents ∧ step parent label node ∧ depth node = depth parent + 1
  depth_source : depth source = 0
  depth_lt : ∀ node ∈ seen parents, depth node < parents.length

/-- A node all of whose steps lead to nodes that were seen, or too deep for a step. -/
def Closed (step : α → β → α → Prop) (limit : ℕ) (parents : Parents α β) (depth : α → ℕ) (node : α) : Prop :=
  limit ≤ depth node ∨
    ∀ label next, step node label next → next ∈ seen parents ∧ depth next ≤ depth node + 1

/-- The search between two nodes: what was seen is closed, or queued by depth. -/
structure Frontier (step : α → β → α → Prop) (limit : ℕ) (source : α) (parents : Parents α β)
    (queue : List (α × ℕ)) (depth : α → ℕ) : Prop where
  tree : Tree step source parents depth
  queued : ∀ entry ∈ queue, entry.1 ∈ seen parents ∧ depth entry.1 = entry.2
  sorted : queue.Pairwise fun first second ↦ first.2 ≤ second.2
  high : ∀ first ∈ queue.head?, ∀ node ∈ seen parents, depth node ≤ first.2 + 1
  closed : ∀ node ∈ seen parents, node ∈ queue.map Prod.fst ∨ Closed step limit parents depth node

/-- The search at a node whose steps with some labels were examined. -/
structure Scanning (step : α → β → α → Prop) (limit : ℕ) (source : α) (parents : Parents α β)
    (queue : List (α × ℕ)) (depth : α → ℕ) (current : α) (level : ℕ) (done : β → Prop) : Prop where
  tree : Tree step source parents depth
  current_mem : current ∈ seen parents
  depth_current : depth current = level
  level_lt : level < limit
  queued : ∀ entry ∈ queue, entry.1 ∈ seen parents ∧ depth entry.1 = entry.2
  sorted : queue.Pairwise fun first second ↦ first.2 ≤ second.2
  low : ∀ entry ∈ queue, level ≤ entry.2
  high : ∀ node ∈ seen parents, depth node ≤ level + 1
  closed : ∀ node ∈ seen parents, node ≠ current →
    node ∈ queue.map Prod.fst ∨ Closed step limit parents depth node
  scanned : ∀ label next, done label → step current label next → next ∈ seen parents

variable {limit : ℕ} {source : α} {parents : Parents α β} {queue : List (α × ℕ)} {depth : α → ℕ}

theorem Frontier.initial (step : α → β → α → Prop) (limit : ℕ) (source : α) :
    Frontier step limit source [(source, none)] [(source, 0)] fun _ ↦ 0 where
  tree := {
    nodup := List.nodup_singleton _
    source_mem := List.mem_singleton.mpr rfl
    root := fun node h ↦ (Prod.mk.inj (List.mem_singleton.mp h)).1
    link := fun node parent label h ↦ nomatch (Prod.mk.inj (List.mem_singleton.mp h)).2
    depth_source := rfl
    depth_lt := fun _ _ ↦ Nat.one_pos }
  queued := by
    intro entry hentry
    obtain rfl := List.mem_singleton.mp hentry
    exact ⟨List.mem_singleton.mpr rfl, rfl⟩
  sorted := List.pairwise_singleton _ _
  high := fun _ _ _ _ ↦ Nat.zero_le _
  closed := fun node hnode ↦ Or.inl hnode

theorem Frontier.skip {current : α} {level : ℕ}
    (h : Frontier step limit source parents ((current, level) :: queue) depth) (hlevel : limit ≤ level) :
    Frontier step limit source parents queue depth where
  tree := h.tree
  queued := fun entry hentry ↦ h.queued entry (List.mem_cons_of_mem _ hentry)
  sorted := (List.pairwise_cons.mp h.sorted).2
  high := by
    intro first hfirst node hnode
    have hlater := (List.pairwise_cons.mp h.sorted).1 first (List.mem_of_mem_head? hfirst)
    have hbound := h.high (current, level) rfl node hnode
    dsimp only at hlater hbound
    omega
  closed := by
    intro node hnode
    obtain hqueued | hclosed := h.closed node hnode
    · rw [List.map_cons, List.mem_cons] at hqueued
      obtain rfl | hqueued := hqueued
      · have hdepth := (h.queued (node, level) List.mem_cons_self).2
        exact Or.inr (Or.inl (hlevel.trans hdepth.ge))
      · exact Or.inl hqueued
    · exact Or.inr hclosed

theorem Frontier.scan {current : α} {level : ℕ}
    (h : Frontier step limit source parents ((current, level) :: queue) depth) (hlevel : level < limit) :
    Scanning step limit source parents queue depth current level fun _ ↦ False where
  tree := h.tree
  current_mem := (h.queued (current, level) List.mem_cons_self).1
  depth_current := (h.queued (current, level) List.mem_cons_self).2
  level_lt := hlevel
  queued := fun entry hentry ↦ h.queued entry (List.mem_cons_of_mem _ hentry)
  sorted := (List.pairwise_cons.mp h.sorted).2
  low := (List.pairwise_cons.mp h.sorted).1
  high := h.high (current, level) rfl
  closed := by
    intro node hnode hne
    obtain hqueued | hclosed := h.closed node hnode
    · rw [List.map_cons, List.mem_cons] at hqueued
      exact Or.inl (hqueued.resolve_left hne)
    · exact Or.inr hclosed
  scanned := fun _ _ hfalse ↦ hfalse.elim

section Scanning

variable {current : α} {level : ℕ} {done : β → Prop}

theorem Scanning.advance (h : Scanning step limit source parents queue depth current level done)
    (hlabel : ∀ next, step current label next → next ∈ seen parents) :
    Scanning step limit source parents queue depth current level fun other ↦ done other ∨ other = label :=
  { h with
    scanned := by
      intro other next hdone hstep
      obtain hdone | rfl := hdone
      · exact h.scanned other next hdone hstep
      · exact hlabel next hstep }

variable [DecidableEq α]

theorem Tree.insert (h : Tree step source parents depth) (hcurrent : current ∈ seen parents)
    (hstep : step current label next) (hnew : next ∉ seen parents) :
    Tree step source (parents ++ [(next, some (current, label))])
      (Function.update depth next (depth current + 1)) := by
  have hold : ∀ node ∈ seen parents, Function.update depth next (depth current + 1) node = depth node := by
    intro node hnode
    apply Function.update_of_ne
    rintro rfl
    exact hnew hnode
  refine ⟨?_, List.mem_append_left _ h.source_mem, ?_, ?_, ?_, ?_⟩
  · rw [seen_concat, ← List.concat_eq_append]
    exact h.nodup.concat hnew
  · intro node hnode
    obtain hnode | hnode := List.mem_append.mp hnode
    · exact h.root node hnode
    · exact nomatch (Prod.mk.inj (List.mem_singleton.mp hnode)).2
  · intro node parent found hlink
    rw [seen_concat]
    obtain hlink | hlink := List.mem_append.mp hlink
    · obtain ⟨hparent, hfound, hdepth⟩ := h.link node parent found hlink
      refine ⟨List.mem_append_left _ hparent, hfound, ?_⟩
      rw [hold node (List.mem_map_of_mem hlink), hold parent hparent, hdepth]
    · obtain ⟨rfl, hpair⟩ := Prod.mk.inj (List.mem_singleton.mp hlink)
      obtain ⟨rfl, rfl⟩ := Prod.mk.inj (Option.some.inj hpair)
      refine ⟨List.mem_append_left _ hcurrent, hstep, ?_⟩
      rw [Function.update_self, hold parent hcurrent]
  · rw [hold source (List.mem_map_of_mem h.source_mem)]
    exact h.depth_source
  · intro node hnode
    rw [seen_concat] at hnode
    rw [List.length_append, List.length_singleton]
    obtain hnode | hnode := List.mem_append.mp hnode
    · rw [hold node hnode]
      exact (h.depth_lt node hnode).trans (Nat.lt_succ_self _)
    · obtain rfl := List.mem_singleton.mp hnode
      rw [Function.update_self]
      exact Nat.succ_lt_succ (h.depth_lt current hcurrent)

theorem Scanning.insert (h : Scanning step limit source parents queue depth current level done)
    (hstep : step current label next) (honly : ∀ other, step current label other → other = next)
    (hnew : next ∉ seen parents) :
    Scanning step limit source (parents ++ [(next, some (current, label))]) (queue ++ [(next, level + 1)])
      (Function.update depth next (level + 1)) current level fun other ↦ done other ∨ other = label := by
  have hold : ∀ node ∈ seen parents, Function.update depth next (level + 1) node = depth node := by
    intro node hnode
    apply Function.update_of_ne
    rintro rfl
    exact hnew hnode
  have hmem : ∀ node, node ∈ seen (parents ++ [(next, some (current, label))]) ↔
      node ∈ seen parents ∨ node = next := by
    intro node
    rw [seen_concat, List.mem_append, List.mem_singleton]
  have hhigh : ∀ node ∈ seen parents, depth node ≤ level + 1 := h.high
  refine ⟨?_, (hmem _).mpr (Or.inl h.current_mem), ?_, h.level_lt, ?_, ?_, ?_, ?_, ?_, ?_⟩
  · have htree := h.tree.insert h.current_mem hstep hnew
    rwa [h.depth_current] at htree
  · rw [hold current h.current_mem]
    exact h.depth_current
  · intro entry hentry
    obtain hentry | hentry := List.mem_append.mp hentry
    · obtain ⟨hseen, hdepth⟩ := h.queued entry hentry
      exact ⟨(hmem _).mpr (Or.inl hseen), (hold _ hseen).trans hdepth⟩
    · obtain rfl := List.mem_singleton.mp hentry
      exact ⟨(hmem _).mpr (Or.inr rfl), Function.update_self _ _ _⟩
  · refine List.pairwise_append.mpr ⟨h.sorted, List.pairwise_singleton _ _, ?_⟩
    intro first hfirst second hsecond
    obtain rfl := List.mem_singleton.mp hsecond
    obtain ⟨hseen, hdepth⟩ := h.queued first hfirst
    exact hdepth.ge.trans (hhigh _ hseen)
  · intro entry hentry
    obtain hentry | hentry := List.mem_append.mp hentry
    · exact h.low entry hentry
    · obtain rfl := List.mem_singleton.mp hentry
      exact Nat.le_succ _
  · intro node hnode
    obtain hnode | rfl := (hmem node).mp hnode
    · rw [hold node hnode]
      exact hhigh node hnode
    · rw [Function.update_self]
  · intro node hnode hne
    rw [List.map_append, List.map_singleton, List.mem_append, List.mem_singleton]
    obtain hnode | rfl := (hmem node).mp hnode
    · obtain hqueued | hclosed := h.closed node hnode hne
      · exact Or.inl (Or.inl hqueued)
      · refine Or.inr ?_
        unfold Closed
        rw [hold node hnode]
        obtain hdeep | hall := hclosed
        · exact Or.inl hdeep
        · refine Or.inr fun other far hfar ↦ ?_
          obtain ⟨hseen, hdepth⟩ := hall other far hfar
          exact ⟨(hmem far).mpr (Or.inl hseen), (hold far hseen).le.trans hdepth⟩
    · exact Or.inl (Or.inr rfl)
  · intro other far hdone hfar
    obtain hdone | rfl := hdone
    · exact (hmem far).mpr (Or.inl (h.scanned other far hdone hfar))
    · exact (hmem far).mpr (Or.inr (honly far hfar))

omit [DecidableEq α] in
theorem Scanning.finish (h : Scanning step limit source parents queue depth current level done)
    (hdone : ∀ label next, step current label next → done label) :
    Frontier step limit source parents queue depth where
  tree := h.tree
  queued := h.queued
  sorted := h.sorted
  high := by
    intro first hfirst node hnode
    exact (h.high node hnode).trans (Nat.succ_le_succ (h.low first (List.mem_of_mem_head? hfirst)))
  closed := by
    intro node hnode
    by_cases hcurrent : node = current
    · subst hcurrent
      refine Or.inr (Or.inr fun label next hstep ↦ ?_)
      have hseen := h.scanned label next (hdone label next hstep) hstep
      exact ⟨hseen, (h.high next hseen).trans (Nat.succ_le_succ h.depth_current.ge)⟩
    · exact h.closed node hnode hcurrent

end Scanning

theorem Trail.last_seen
    (hclosed : ∀ node ∈ seen parents, depth node < bound → ∀ label next, step node label next →
      next ∈ seen parents ∧ depth next ≤ depth node + 1)
    (h : Trail step nodes labels) : ∀ first ∈ nodes.head?, first ∈ seen parents →
      depth first + labels.length ≤ bound → ∀ last ∈ nodes.getLast?, last ∈ seen parents := by
  induction h with
  | single node =>
    intro first hfirst hseen _ last hlast
    obtain rfl := Option.some.inj hfirst
    obtain rfl := Option.some.inj hlast
    exact hseen
  | @cons node next label nodes labels hstep _ ih =>
    intro first hfirst hseen hbound last hlast
    obtain rfl := Option.some.inj hfirst
    rw [List.length_cons] at hbound
    obtain ⟨hnext, hdepth⟩ := hclosed _ hseen (by omega) label next hstep
    rw [List.getLast?_cons_cons] at hlast
    exact ih next rfl hnext (by omega) last hlast

theorem Tree.source_seen (h : Tree step source parents depth) : source ∈ seen parents :=
  List.mem_map_of_mem h.source_mem

theorem Leads.last_seen (htree : Tree step source parents depth)
    (hclosed : ∀ node ∈ seen parents, depth node < bound → ∀ label next, step node label next →
      next ∈ seen parents ∧ depth next ≤ depth node + 1)
    (h : Leads step source target nodes labels) (hle : labels.length ≤ bound) : target ∈ seen parents := by
  refine h.trail.last_seen hclosed source h.head htree.source_seen ?_ target h.last
  rw [htree.depth_source]
  omega

theorem Frontier.unreachable (h : Frontier step limit source parents [] depth) (htarget : target ∉ seen parents)
    (hleads : Leads step source target nodes labels) : limit < labels.length := by
  have hclosed : ∀ node ∈ seen parents, depth node < limit → ∀ label next, step node label next →
      next ∈ seen parents ∧ depth next ≤ depth node + 1 := by
    intro node hnode hlt label next hstep
    obtain hqueued | hdeep | hall := h.closed node hnode
    · cases hqueued
    · omega
    · exact hall label next hstep
  by_contra hle
  exact htarget (hleads.last_seen h.tree hclosed (not_lt.mp hle))

theorem Scanning.lt_length {current : α} {level : ℕ} {done : β → Prop}
    (h : Scanning step limit source parents queue depth current level done) (htarget : target ∉ seen parents)
    (hleads : Leads step source target nodes labels) : level < labels.length := by
  have hclosed : ∀ node ∈ seen parents, depth node < level → ∀ label next, step node label next →
      next ∈ seen parents ∧ depth next ≤ depth node + 1 := by
    intro node hnode hlt label next hstep
    have hne : node ≠ current := by
      rintro rfl
      exact absurd h.depth_current hlt.ne
    obtain hqueued | hdeep | hall := h.closed node hnode hne
    · obtain ⟨entry, hentry, rfl⟩ := List.mem_map.mp hqueued
      have hlow := h.low entry hentry
      have hdepth := (h.queued entry hentry).2
      omega
    · have hlimit := h.level_lt
      omega
    · exact hall label next hstep
  by_contra hle
  exact htarget (hleads.last_seen h.tree hclosed (not_lt.mp hle))

variable [DecidableEq α]

/-- The parents and labels on the way from a node back to the source. -/
def back (parents : Parents α β) : ℕ → α → Option (List (α × β))
  | 0, _ => none
  | fuel + 1, node =>
    match parents.lookup node with
    | some (some (parent, label)) => ((parent, label) :: ·) <$> back parents fuel parent
    | some none => some []
    | none => none

theorem Tree.back_spec (h : Tree step source parents depth) {fuel : ℕ} (hnode : node ∈ seen parents)
    (hfuel : depth node < fuel) :
    ∃ links, back parents fuel node = some links ∧ links.length = depth node ∧
      Leads step source node (node :: links.map Prod.fst).reverse (links.map Prod.snd).reverse := by
  induction fuel generalizing node with
  | zero => omega
  | succ fuel ih =>
    obtain ⟨⟨found, link⟩, hmem, rfl⟩ := List.mem_map.mp hnode
    have hlookup : parents.lookup found = some link := (lookup_eq_some_iff_mem h.nodup).mpr hmem
    cases link with
    | none =>
      obtain rfl := h.root found hmem
      refine ⟨[], ?_, h.depth_source.symm, Leads.single _⟩
      rw [back, hlookup]
    | some pair =>
      obtain ⟨parent, label⟩ := pair
      obtain ⟨hparent, hstep, hdepth⟩ := h.link found parent label hmem
      obtain ⟨links, hback, hlength, hleads⟩ := ih hparent (by dsimp only at hfuel; omega)
      refine ⟨(parent, label) :: links, ?_, ?_, ?_⟩
      · rw [back, hlookup]
        simp only [hback, Option.map_eq_map, Option.map_some]
      · rw [List.length_cons, hlength, hdepth]
      · have hnext := hleads.concat hstep
        rwa [List.map_cons, List.map_cons, List.reverse_cons, @List.reverse_cons _ label]

end UniMem.Library.BreadthFirst
