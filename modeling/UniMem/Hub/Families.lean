import UniMem.Hub.Traces

/-!
# Families of traces

Versions that pointers join are a family, and the amendment chain of a trace is its family. All amendments that were
ever made join no other stored versions.
-/

namespace UniMem.Hub

open Library Relation

/-- What a family depends on: a version, its organization and its predecessor. -/
structure Node where
  id : String
  orgId : String
  supersedes : Option String
  deriving DecidableEq

def Trace.node (trace : Trace) : Node := ⟨trace.id, trace.orgId, trace.supersedesTraceId⟩

def Database.nodes (database : Database) : List Node := database.traces.map Trace.node

/-- A stored version points at another version. -/
def Points (nodes : List Node) (first second : String) : Prop :=
  ∃ node ∈ nodes, node.id = first ∧ node.supersedes = some second

/-- Two versions have a common ancestor along stored pointers. -/
def Joined (nodes : List Node) : String → String → Prop := Join (ReflTransGen (Points nodes))

/-- Two versions are connected by amendments. -/
def Connected (amendments : List (String × String)) : String → String → Prop :=
  EqvGen fun first second ↦ (first, second) ∈ amendments

/-- The pointers that are stored. -/
def pointers (nodes : List Node) : List (String × String) :=
  nodes.filterMap fun node ↦ node.supersedes.map fun target ↦ (node.id, target)

variable {nodes others : List Node} {amendments : List (String × String)} {first second third : String}

theorem mem_pointers : (first, second) ∈ pointers nodes ↔ Points nodes first second := by
  simp only [pointers, List.mem_filterMap, Option.map_eq_some_iff, Points, Prod.mk.injEq]
  constructor
  · rintro ⟨node, hmem, target, htarget, rfl, rfl⟩
    exact ⟨node, hmem, rfl, htarget⟩
  · rintro ⟨node, hmem, rfl, htarget⟩
    exact ⟨node, hmem, second, htarget, rfl, rfl⟩

theorem Points.mono (h : nodes ⊆ others) (hpoints : Points nodes first second) : Points others first second := by
  obtain ⟨node, hmem, hid, htarget⟩ := hpoints
  exact ⟨node, h hmem, hid, htarget⟩

theorem Joined.mono (h : nodes ⊆ others) (hjoined : Joined nodes first second) : Joined others first second := by
  obtain ⟨common, hfirst, hsecond⟩ := hjoined
  have hpath : ∀ {source}, ReflTransGen (Points nodes) source common → ReflTransGen (Points others) source common :=
    fun hpath ↦ ReflTransGen.mono (fun _ _ ↦ Points.mono h) _ _ hpath
  exact ⟨common, hpath hfirst, hpath hsecond⟩

theorem equivalence_joined (hkeys : (nodes.map Node.id).Nodup) : Equivalence (Joined nodes) := by
  apply equivalence_join_reflTransGen
  rintro source _ _ ⟨node, hmem, rfl, htarget⟩ ⟨other, hother, hid, htarget'⟩
  obtain rfl := List.inj_on_of_nodup_map hkeys hother hmem hid
  obtain rfl := Option.some.inj (htarget.symm.trans htarget')
  exact ⟨_, .refl, .refl⟩

theorem joined_of_path (h : ReflTransGen (Points nodes) first second) : Joined nodes first second :=
  ⟨second, h, .refl⟩

theorem Joined.connected (hknown : pointers nodes ⊆ amendments) (h : Joined nodes first second) :
    Connected amendments first second := by
  have hpath : ∀ {source target}, ReflTransGen (Points nodes) source target → Connected amendments source target := by
    intro source target hpath
    induction hpath with
    | refl => exact EqvGen.refl _
    | tail _ hedge ih => exact ih.trans _ _ _ (.rel _ _ (hknown (mem_pointers.mpr hedge)))
  obtain ⟨common, hfirst, hsecond⟩ := h
  exact (hpath hfirst).trans _ _ _ (hpath hsecond).symm

theorem Connected.mono {amendments' : List (String × String)} (h : amendments ⊆ amendments')
    (hconnected : Connected amendments first second) : Connected amendments' first second :=
  EqvGen.mono (fun _ _ hmem ↦ h hmem) _ _ hconnected

theorem Connected.symm (h : Connected amendments first second) : Connected amendments second first :=
  EqvGen.symm _ _ h

theorem Connected.trans (h : Connected amendments first second) (h' : Connected amendments second third) :
    Connected amendments first third := EqvGen.trans _ _ _ h h'

section Chain

variable {traces : List Trace}

theorem mem_superseded : second ∈ superseded traces first ↔ Points (traces.map Trace.node) first second := by
  simp [superseded, Points, Trace.node, and_assoc]

theorem mem_superseding : second ∈ superseding traces first ↔ Points (traces.map Trace.node) second first := by
  simp [superseding, Points, Trace.node]
  grind

theorem mem_amendmentChain : second ∈ amendmentChain traces first ↔ Joined (traces.map Trace.node) first second := by
  have hancestors : ∀ value, value ∈ RecursiveQuery.query (superseded traces)
      (traces.filterMap Trace.supersedesTraceId) [first] ↔
        ReflTransGen (Points (traces.map Trace.node)) first value := by
    intro value
    rw [RecursiveQuery.mem_query_iff]
    · simp only [List.mem_singleton, exists_eq_left, mem_superseded]
    · intro source target htarget
      obtain ⟨trace, htrace, hsome⟩ := List.mem_filterMap.mp htarget
      exact List.mem_filterMap.mpr ⟨trace, List.mem_of_mem_filter htrace, hsome⟩
  have hdescendants : ∀ starts value, value ∈ RecursiveQuery.query (superseding traces) (traces.map Trace.id) starts ↔
      ∃ start ∈ starts, ReflTransGen (fun source target ↦ target ∈ superseding traces source) start value := by
    intro starts value
    apply RecursiveQuery.mem_query_iff
    intro source target htarget
    obtain ⟨trace, htrace, rfl⟩ := List.mem_map.mp htarget
    exact List.mem_map.mpr ⟨trace, List.mem_of_mem_filter htrace, rfl⟩
  rw [amendmentChain, List.mem_append, hdescendants, hancestors]
  simp only [hancestors, mem_superseding]
  constructor
  · rintro (hpath | ⟨common, hpath, hback⟩)
    · exact joined_of_path hpath
    · exact ⟨common, hpath, reflTransGen_swap.mp hback⟩
  · rintro ⟨common, hpath, hback⟩
    exact Or.inr ⟨common, hpath, reflTransGen_swap.mpr hback⟩

end Chain

/-- Stored versions that amendments connect are joined by pointers, within one organization. -/
structure Sound (nodes : List Node) (amendments : List (String × String)) : Prop where
  keys : (nodes.map Node.id).Nodup
  uuids : ∀ node ∈ nodes, isUuid node.id = true
  known : pointers nodes ⊆ amendments
  joined : ∀ node ∈ nodes, ∀ other ∈ nodes, Connected amendments node.id other.id → Joined nodes node.id other.id
  owner : ∀ node ∈ nodes, ∀ other ∈ nodes, Connected amendments node.id other.id → node.orgId = other.orgId

/-- An id that no version had. -/
structure Fresh (nodes : List Node) (amendments : List (String × String)) (id : String) : Prop where
  uuid : isUuid id = true
  unstored : id ∉ nodes.map Node.id
  unlinked : ∀ link ∈ amendments, link.1 ≠ id ∧ link.2 ≠ id

theorem sound_nil : Sound [] [] := by
  constructor <;> simp [pointers]

theorem pointers_append (nodes others : List Node) : pointers (nodes ++ others) = pointers nodes ++ pointers others :=
  List.filterMap_append

theorem connected_append (h : pointers nodes ⊆ amendments) :
    Connected (amendments ++ pointers nodes) first second ↔ Connected amendments first second :=
  ⟨Connected.mono (List.append_subset.mpr ⟨List.Subset.refl _, h⟩), Connected.mono (List.subset_append_left _ _)⟩

theorem Sound.contribute {node : Node} (hsound : Sound nodes amendments) (hfresh : Fresh nodes amendments node.id)
    (hroot : node.supersedes = none) : Sound (nodes ++ [node]) amendments := by
  have halone : ∀ {value}, Connected amendments node.id value → value = node.id := by
    have hboth : ∀ {first second}, Connected amendments first second → (first = node.id ↔ second = node.id) := by
      intro first second h
      induction h with
      | rel first second hmem =>
        exact iff_of_false (hfresh.unlinked _ hmem).1 (hfresh.unlinked _ hmem).2
      | refl => exact Iff.rfl
      | symm _ _ _ ih => exact ih.symm
      | trans _ _ _ _ _ ih ih' => exact ih.trans ih'
    intro value h
    exact (hboth h).mp rfl
  have hold : ∀ other ∈ nodes, ¬Connected amendments node.id other.id := fun other hmem h ↦
    hfresh.unstored (halone h ▸ List.mem_map.mpr ⟨other, hmem, rfl⟩)
  constructor
  · rw [List.map_append, List.map_singleton, ← List.concat_eq_append]
    exact hsound.keys.concat hfresh.unstored
  · intro other hmem
    obtain hmem | hmem := List.mem_append.mp hmem
    · exact hsound.uuids other hmem
    · rw [List.mem_singleton.mp hmem]
      exact hfresh.uuid
  · rw [pointers_append]
    simpa [pointers, hroot] using hsound.known
  · intro first hfirst second hsecond h
    obtain hfirst | hfirst := List.mem_append.mp hfirst
    · obtain hsecond | hsecond := List.mem_append.mp hsecond
      · exact (hsound.joined first hfirst second hsecond h).mono (List.subset_append_left _ _)
      · rw [List.mem_singleton.mp hsecond] at h
        exact absurd h.symm (hold first hfirst)
    · rw [List.mem_singleton.mp hfirst] at h ⊢
      rw [halone h]
      exact joined_of_path .refl
  · intro first hfirst second hsecond h
    obtain hfirst | hfirst := List.mem_append.mp hfirst
    · obtain hsecond | hsecond := List.mem_append.mp hsecond
      · exact hsound.owner first hfirst second hsecond h
      · rw [List.mem_singleton.mp hsecond] at h
        exact absurd h.symm (hold first hfirst)
    · obtain hsecond | hsecond := List.mem_append.mp hsecond
      · rw [List.mem_singleton.mp hfirst] at h
        exact absurd h (hold second hsecond)
      · rw [List.mem_singleton.mp hfirst, List.mem_singleton.mp hsecond]

theorem Sound.amend {node original : Node} (hsound : Sound nodes amendments)
    (hfresh : Fresh nodes amendments node.id) (hmem : original ∈ nodes)
    (hpoints : node.supersedes = some original.id) (horg : node.orgId = original.orgId) :
    Sound (nodes ++ [node]) (amendments ++ [(node.id, original.id)]) := by
  -- what amendments connect now, they connected before with the original in the place of the new version
  have hcontract : ∀ {first second}, Connected (amendments ++ [(node.id, original.id)]) first second →
      Connected amendments (if first = node.id then original.id else first)
        (if second = node.id then original.id else second) := by
    intro first second h
    induction h with
    | rel first second hlink =>
      obtain hlink | hlink := List.mem_append.mp hlink
      · rw [if_neg (hfresh.unlinked _ hlink).1, if_neg (hfresh.unlinked _ hlink).2]
        exact EqvGen.rel _ _ hlink
      · obtain ⟨rfl, rfl⟩ := Prod.mk.inj (List.mem_singleton.mp hlink)
        rw [if_pos rfl]
        split_ifs <;> exact EqvGen.refl _
    | refl => exact EqvGen.refl _
    | symm _ _ _ ih => exact ih.symm
    | trans _ _ _ _ _ ih ih' => exact ih.trans ih'
  -- a version, or the original in the place of the new one
  have hplace : ∀ other ∈ nodes ++ [node], ∃ place ∈ nodes,
      place.id = (if other.id = node.id then original.id else other.id) ∧ place.orgId = other.orgId ∧
        Joined (nodes ++ [node]) other.id place.id := by
    intro other hother
    obtain hother | hother := List.mem_append.mp hother
    · have hne : other.id ≠ node.id := fun heq ↦ hfresh.unstored (heq ▸ List.mem_map.mpr ⟨other, hother, rfl⟩)
      exact ⟨other, hother, by rw [if_neg hne], rfl, joined_of_path .refl⟩
    · rw [List.mem_singleton.mp hother]
      refine ⟨original, hmem, by rw [if_pos rfl], horg.symm, joined_of_path (.single ?_)⟩
      exact ⟨node, List.mem_append_right _ (List.mem_singleton_self _), rfl, hpoints⟩
  have hkeys : ((nodes ++ [node]).map Node.id).Nodup := by
    rw [List.map_append, List.map_singleton, ← List.concat_eq_append]
    exact hsound.keys.concat hfresh.unstored
  constructor
  · exact hkeys
  · intro other hother
    obtain hother | hother := List.mem_append.mp hother
    · exact hsound.uuids other hother
    · rw [List.mem_singleton.mp hother]
      exact hfresh.uuid
  · rw [pointers_append]
    refine List.append_subset.mpr ⟨List.Subset.trans hsound.known (List.subset_append_left _ _), ?_⟩
    simp [pointers, hpoints]
  · intro first hfirst second hsecond h
    obtain ⟨place, hplaceMem, hplaceId, -, hjoined⟩ := hplace first hfirst
    obtain ⟨place', hplaceMem', hplaceId', -, hjoined'⟩ := hplace second hsecond
    have hold := hsound.joined place hplaceMem place' hplaceMem' (hplaceId ▸ hplaceId' ▸ hcontract h)
    have hequivalence := equivalence_joined hkeys
    exact hequivalence.trans hjoined
      (hequivalence.trans (hold.mono (List.subset_append_left _ _)) (hequivalence.symm hjoined'))
  · intro first hfirst second hsecond h
    obtain ⟨place, hplaceMem, hplaceId, hsame, -⟩ := hplace first hfirst
    obtain ⟨place', hplaceMem', hplaceId', hsame', -⟩ := hplace second hsecond
    rw [← hsame, ← hsame']
    exact hsound.owner place hplaceMem place' hplaceMem' (hplaceId ▸ hplaceId' ▸ hcontract h)

theorem pointers_subset (h : others ⊆ nodes) : pointers others ⊆ pointers nodes := by
  rintro ⟨source, target⟩ hmem
  exact mem_pointers.mpr ((mem_pointers.mp hmem).mono h)

theorem Sound.shrink (hsound : Sound nodes amendments) (h : others.Sublist nodes)
    (hjoined : ∀ node ∈ others, ∀ other ∈ others, Joined nodes node.id other.id → Joined others node.id other.id) :
    Sound others amendments where
  keys := hsound.keys.sublist (h.map _)
  uuids := fun node hmem ↦ hsound.uuids node (h.subset hmem)
  known := List.Subset.trans (pointers_subset h.subset) hsound.known
  joined := fun node hmem other hother hconnected ↦ hjoined node hmem other hother
    (hsound.joined node (h.subset hmem) other (h.subset hother) hconnected)
  owner := fun node hmem other hother hconnected ↦
    hsound.owner node (h.subset hmem) other (h.subset hother) hconnected

/-- The versions of an organization outside the family of a version. -/
def outside (nodes : List Node) (family : List String) (orgId : String) : List Node :=
  nodes.filter fun node ↦ !(node.id ∈ family && node.orgId = orgId)

theorem Sound.delete {family : List String} {orgId : String} (hsound : Sound nodes amendments)
    (hfamily : ∀ id, id ∈ family ↔ Joined nodes first id) : Sound (outside nodes family orgId) amendments := by
  have hmem : ∀ node, node ∈ outside nodes family orgId ↔
      node ∈ nodes ∧ ¬(Joined nodes first node.id ∧ node.orgId = orgId) := by
    intro node
    simp [outside, hfamily, or_iff_not_imp_left]
  have hequivalence := equivalence_joined hsound.keys
  refine hsound.shrink List.filter_sublist fun node hnode other hother hjoined ↦ ?_
  obtain ⟨common, hpath, hpath'⟩ := hjoined
  -- a version on a path from one that stays is in its family and stays
  have hkeep : ∀ start ∈ outside nodes family orgId, ∀ {target}, ReflTransGen (Points nodes) start.id target →
      ReflTransGen (Points (outside nodes family orgId)) start.id target := by
    intro start hstart target hpath
    obtain ⟨hstartMem, hstartStays⟩ := (hmem start).mp hstart
    induction hpath with
    | refl => exact .refl
    | tail hprefix hedge ih =>
      obtain ⟨step, hstep, rfl, htarget⟩ := hedge
      refine ih.tail ⟨step, (hmem step).mpr ⟨hstep, ?_⟩, rfl, htarget⟩
      rintro ⟨hgone, horg⟩
      have hnear := joined_of_path hprefix
      apply hstartStays
      refine ⟨hequivalence.trans hgone (hequivalence.symm hnear), ?_⟩
      rw [hsound.owner start hstartMem step hstep (hnear.connected hsound.known), horg]
  exact ⟨common, hkeep node hnode hpath, hkeep other hother hpath'⟩

end UniMem.Hub
