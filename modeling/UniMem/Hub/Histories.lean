import UniMem.Hub.Families
import UniMem.Hub.Holds
import UniMem.Library.Transitions

/-!
# Deleting every version

A purge may delete a version that stands between two others. While no purge does so, a deletion removes the family
of its trace and nothing else.
-/

namespace UniMem.Hub

open Library Relation

variable {runtime : Runtime} {circumstances : Circumstances} {visible : Trace → Bool} {database next : Database}
  {orgId traceId subjectId : String}

@[simp]
theorem nodes_adjustTraceCount {delta : ℤ} : (database.adjustTraceCount orgId delta).nodes = database.nodes := rfl

theorem nodes_contributeTrace {seen : Database} {request : ContributeRequest} {receipt : Receipt}
    (h : contributeTrace runtime circumstances seen database orgId request = .ok (receipt, next)) :
    next.nodes = database.nodes ∨ next.nodes = database.nodes ++ [⟨circumstances.newId, orgId, none⟩] := by
  obtain ⟨prepared, -, h⟩ := Py.of_bind h
  split at h
  · obtain ⟨_, h⟩ := Py.of_rest h
    obtain ⟨-, rfl⟩ := Prod.mk.inj (Except.ok.inj h)
    exact Or.inl rfl
  · obtain ⟨_, h⟩ := Py.of_rest h
    split at h
    · obtain ⟨_, h⟩ := Py.of_rest h
      obtain ⟨-, rfl⟩ := Prod.mk.inj (Except.ok.inj h)
      exact Or.inl rfl
    · obtain ⟨-, rfl⟩ := Prod.mk.inj (Except.ok.inj h)
      right
      rw [nodes_adjustTraceCount, Database.nodes, List.map_append]
      rfl

theorem nodes_storeAmendment (original trace : Trace) :
    (storeAmendment circumstances database original trace).nodes = database.nodes ++ [trace.node] := by
  rw [storeAmendment, nodes_adjustTraceCount, Database.nodes, List.map_append, List.map_map]
  congr 1
  apply List.map_congr_left
  intro other _
  simp only [Function.comp_apply]
  split_ifs <;> rfl

theorem nodes_amendTrace {request : AmendRequest} {result : Option Trace}
    (h : amendTrace runtime circumstances database database orgId request = .ok (result, next)) :
    next.nodes = database.nodes ∨ ∃ original ∈ database.nodes,
      next.nodes = database.nodes ++ [⟨circumstances.newId, original.orgId, some original.id⟩] := by
  unfold amendTrace at h
  split_ifs at h with huuid
  · obtain ⟨-, rfl⟩ := Prod.mk.inj (Except.ok.inj h)
    exact Or.inl rfl
  · obtain ⟨outcome, -, h⟩ := Py.of_bind h
    split at h
    · obtain ⟨-, rfl⟩ := Prod.mk.inj (Except.ok.inj h)
      exact Or.inl rfl
    · next original hfound =>
      obtain ⟨_, h⟩ := Py.of_rest h
      split at h
      · obtain ⟨_, h⟩ := Py.of_rest h
        obtain ⟨-, rfl⟩ := Prod.mk.inj (Except.ok.inj h)
        exact Or.inl rfl
      · obtain ⟨_, h⟩ := Py.of_rest h
        obtain ⟨_, h⟩ := Py.of_rest h
        split at h
        · obtain ⟨_, h⟩ := Py.of_rest h
          obtain ⟨-, rfl⟩ := Prod.mk.inj (Except.ok.inj h)
          exact Or.inl rfl
        · obtain ⟨-, rfl⟩ := Prod.mk.inj (Except.ok.inj h)
          refine Or.inr ⟨original.node, List.mem_map.mpr ⟨original, List.mem_of_find?_eq_some hfound, rfl⟩, ?_⟩
          rw [nodes_storeAmendment]
          rfl

theorem nodes_purgeBucket {bucket : Retention.Bucket} (h : Retention.purgeBucket orgId database bucket = .ok next) :
    next.nodes.Sublist database.nodes := by
  unfold Retention.purgeBucket at h
  split_ifs at h
  · obtain rfl := Except.ok.inj h
    exact List.Sublist.refl _
  · split at h
    · cases h
    · next kind _ =>
      split_ifs at h with hmodel
      · obtain rfl := Except.ok.inj h
        exact List.Sublist.map _ List.filter_sublist
      · obtain rfl := Except.ok.inj h
        cases hkind : kind.model with
        | trace => exact absurd hkind hmodel
        | _ => exact List.Sublist.refl _

theorem nodes_apply {expectDigest auditId : String} {moment : ℤ} {fresh : Retention.PurgePlan}
    (h : Retention.apply runtime database orgId expectDigest moment auditId = .ok (fresh, next)) :
    next.nodes.Sublist database.nodes := by
  obtain ⟨found, -, h⟩ := Py.of_bind h
  obtain ⟨_, h⟩ := Py.of_rest h
  obtain ⟨purged, hpurged, h⟩ := Py.of_bind h
  obtain ⟨-, rfl⟩ := Prod.mk.inj (Except.ok.inj h)
  have hstep : ∀ state, ∀ bucket ∈ found.buckets, ∀ after, state.nodes.Sublist database.nodes →
      Retention.purgeBucket orgId state bucket = .ok after → after.nodes.Sublist database.nodes := by
    intro state bucket _ after hstate hafter
    exact (nodes_purgeBucket hafter).trans hstate
  have hpurged := Py.foldlM_invariant (fun state : Database ↦ state.nodes.Sublist database.nodes)
    (List.Sublist.refl _) hstep hpurged
  exact hpurged

theorem deleteTrace_ne_false {node : Node} (huuid : isUuid node.id = true) (hmem : node ∈ database.nodes) :
    deleteTrace (fun _ ↦ true) database node.orgId node.id ≠ .ok (false, next) := by
  intro h
  obtain ⟨trace, htrace, rfl⟩ := List.mem_map.mp hmem
  unfold deleteTrace at h
  rw [if_neg (by simp [huuid])] at h
  split at h
  · next hnone =>
    exact absurd (List.find?_eq_none.mp hnone trace htrace) (by simp [Trace.node])
  · obtain ⟨_, h⟩ := Py.of_rest h
    cases (Prod.mk.inj (Except.ok.inj h)).1

theorem nodes_deleteTraces_own (hkeys : (database.nodes.map Node.id).Nodup) (ids : List String) :
    ((database.deleteRelationsTo ids).deleteTraces fun trace ↦
      trace.id ∈ ownChainIds database.traces orgId traceId).nodes =
        outside database.nodes (amendmentChain database.traces traceId) orgId := by
  change (database.traces.filter fun trace ↦ !decide (trace.id ∈ ownChainIds database.traces orgId traceId)).map
    Trace.node = _
  rw [outside, Database.nodes, List.filter_map]
  congr 1
  apply List.filter_congr
  intro trace hmem
  have hkeys' : (database.traces.map Trace.id).Nodup := by
    rwa [Database.nodes, List.map_map] at hkeys
  have hown : trace.id ∈ ownChainIds database.traces orgId traceId ↔
      trace.id ∈ amendmentChain database.traces traceId ∧ trace.orgId = orgId := by
    simp only [ownChainIds, List.mem_map, List.mem_filter, Bool.and_eq_true, decide_eq_true_eq]
    constructor
    · rintro ⟨other, ⟨hother, hchain⟩, hid⟩
      obtain rfl := List.inj_on_of_nodup_map hkeys' hother hmem hid
      exact hchain
    · exact fun hchain ↦ ⟨trace, ⟨hmem, hchain⟩, rfl⟩
  change (!decide (trace.id ∈ ownChainIds database.traces orgId traceId)) =
    !(decide (trace.id ∈ amendmentChain database.traces traceId) && decide (trace.orgId = orgId))
  simp [hown]

variable {deleted : Bool} {ids : List String} {nodes : List Node}

theorem nodes_deleteTrace (hkeys : (database.nodes.map Node.id).Nodup)
    (h : deleteTrace visible database orgId traceId = .ok (deleted, next)) :
    (deleted = false ∧ next = database) ∨
      (deleted = true ∧ (∃ node ∈ database.nodes, node.id = traceId ∧ node.orgId = orgId) ∧
        next.nodes = outside database.nodes (amendmentChain database.traces traceId) orgId) := by
  unfold deleteTrace at h
  split_ifs at h with huuid
  · obtain ⟨rfl, rfl⟩ := Prod.mk.inj (Except.ok.inj h)
    exact Or.inl ⟨rfl, rfl⟩
  · split at h
    · obtain ⟨rfl, rfl⟩ := Prod.mk.inj (Except.ok.inj h)
      exact Or.inl ⟨rfl, rfl⟩
    · next trace hfound =>
      obtain ⟨_, h⟩ := Py.of_rest h
      obtain ⟨rfl, rfl⟩ := Prod.mk.inj (Except.ok.inj h)
      have htrace := List.find?_some hfound
      simp only [Bool.and_eq_true, decide_eq_true_eq] at htrace
      refine Or.inr ⟨rfl, ⟨trace.node, List.mem_map.mpr ⟨trace, List.mem_of_find?_eq_some hfound, rfl⟩,
        htrace.1.1, htrace.1.2⟩, ?_⟩
      rw [nodes_adjustTraceCount]
      exact nodes_deleteTraces_own hkeys _

theorem traces_deleteTrace (h : deleteTrace visible database orgId traceId = .ok (deleted, next)) :
    next.traces ⊆ database.traces := by
  unfold deleteTrace at h
  split_ifs at h
  · obtain ⟨-, rfl⟩ := Prod.mk.inj (Except.ok.inj h)
    exact List.Subset.refl _
  · split at h
    · obtain ⟨-, rfl⟩ := Prod.mk.inj (Except.ok.inj h)
      exact List.Subset.refl _
    · obtain ⟨_, h⟩ := Py.of_rest h
      obtain ⟨-, rfl⟩ := Prod.mk.inj (Except.ok.inj h)
      exact List.filter_subset_self _

theorem traces_deleteAll (h : deleteAll visible orgId database ids = .ok next) :
    next.traces ⊆ database.traces := by
  have hstep : ∀ state, ∀ id ∈ ids, ∀ after, state.traces ⊆ database.traces →
      (do let result ← deleteTrace visible state orgId id; return result.2 : Py Database) = .ok after →
        after.traces ⊆ database.traces := by
    intro state id _ after hstate hafter
    obtain ⟨⟨deleted, other⟩, hdelete, hafter⟩ := Py.of_bind hafter
    obtain rfl := Except.ok.inj hafter
    exact List.Subset.trans (traces_deleteTrace hdelete) hstate
  exact Py.foldlM_invariant (fun state : Database ↦ state.traces ⊆ database.traces) (List.Subset.refl _) hstep h

theorem traces_purgeTracesBySubject (h : purgeTracesBySubject visible database orgId subjectId = .ok (ids, next)) :
    next.traces ⊆ database.traces := by
  unfold purgeTracesBySubject at h
  dsimp only at h
  split_ifs at h
  · obtain ⟨-, rfl⟩ := Prod.mk.inj (Except.ok.inj h)
    exact List.Subset.refl _
  · obtain ⟨after, hafter, h⟩ := Py.of_bind h
    obtain ⟨-, rfl⟩ := Prod.mk.inj (Except.ok.inj h)
    exact traces_deleteAll hafter

theorem mem_traces_iff (hkeys : (database.nodes.map Node.id).Nodup) {trace : Trace} (hmem : trace ∈ database.traces)
    (hsubset : next.traces ⊆ database.traces) : trace ∈ next.traces ↔ trace.node ∈ next.nodes := by
  constructor
  · exact fun h ↦ List.mem_map.mpr ⟨trace, h, rfl⟩
  · intro h
    obtain ⟨other, hother, hnode⟩ := List.mem_map.mp h
    rw [Database.nodes, List.map_map] at hkeys
    have hid : other.id = trace.id := congrArg Node.id hnode
    rwa [← List.inj_on_of_nodup_map hkeys (hsubset hother) hmem hid]

variable {amendments : List (String × String)}

/-- The versions that a deletion of the family of `traceId` keeps. -/
def Removes (amendments : List (String × String)) (traceId : String) (before after : List Node) : Prop :=
  ∀ node ∈ before, node ∈ after ↔ ¬Connected amendments traceId node.id

section

variable (hsound : Sound database.nodes amendments)
include hsound

theorem removes_of_deleteTrace
    (h : deleteTrace visible database orgId traceId = .ok (true, next)) :
    Removes amendments traceId database.nodes next.nodes ∧ Sound next.nodes amendments ∧
      next.nodes ⊆ database.nodes := by
  obtain ⟨hfalse, -⟩ | ⟨-, ⟨start, hstart, rfl, rfl⟩, hnext⟩ := nodes_deleteTrace hsound.keys h
  · cases hfalse
  · rw [hnext]
    refine ⟨?_, hsound.delete fun id ↦ mem_amendmentChain, List.filter_subset_self _⟩
    intro node hmem
    rw [outside, List.mem_filter, and_iff_right hmem]
    simp only [mem_amendmentChain, Bool.not_eq_true', Bool.and_eq_false_imp, decide_eq_true_eq,
      decide_eq_false_iff_not]
    constructor
    · intro hkept hconnected
      exact hkept (hsound.joined start hstart node hmem hconnected)
        (hsound.owner start hstart node hmem hconnected).symm
    · intro hapart hjoined
      exact absurd (hjoined.connected hsound.known) hapart

theorem removes_of_deleteAll
    (hids : ∀ id ∈ ids, isUuid id = true ∧ ((∃ node ∈ database.nodes, node.id = id ∧ node.orgId = orgId) ∨
      ∀ node ∈ database.nodes, ¬Connected amendments id node.id))
    (h : deleteAll (fun _ ↦ true) orgId database ids = .ok next) :
    (∀ node ∈ database.nodes, node ∈ next.nodes ↔ ∀ id ∈ ids, ¬Connected amendments id node.id) ∧
      Sound next.nodes amendments ∧ next.nodes ⊆ database.nodes := by
  induction ids generalizing database with
  | nil =>
    obtain rfl := Except.ok.inj h
    exact ⟨fun node hmem ↦ by simp [hmem], hsound, List.Subset.refl _⟩
  | cons id ids ih =>
    rw [List.forall_mem_cons] at hids
    rw [deleteAll, List.foldlM_cons] at h
    obtain ⟨middle, hmiddle, h⟩ := Py.of_bind h
    obtain ⟨⟨deleted, after⟩, hdelete, hafter⟩ := Py.of_bind hmiddle
    obtain rfl := Except.ok.inj hafter
    obtain ⟨⟨huuid, hstored⟩, hrest⟩ := hids
    have hremoves : Removes amendments id database.nodes after.nodes ∧ Sound after.nodes amendments ∧
        after.nodes ⊆ database.nodes := by
      cases deleted with
      | true => exact removes_of_deleteTrace hsound hdelete
      | false =>
        obtain ⟨-, rfl⟩ | ⟨hfalse, -⟩ := nodes_deleteTrace hsound.keys hdelete
        · refine ⟨?_, hsound, List.Subset.refl _⟩
          obtain ⟨start, hstart, rfl, rfl⟩ | hapart := hstored
          · exact absurd hdelete (deleteTrace_ne_false huuid hstart)
          · exact fun node hmem ↦ iff_of_true hmem (hapart node hmem)
        · cases hfalse
    obtain ⟨hremoves, hsound', hsubset⟩ := hremoves
    have hids' : ∀ other ∈ ids, isUuid other = true ∧
        ((∃ node ∈ after.nodes, node.id = other ∧ node.orgId = orgId) ∨
          ∀ node ∈ after.nodes, ¬Connected amendments other node.id) := by
      intro other hother
      obtain ⟨huuid', ⟨node, hnode, rfl, horg⟩ | hapart⟩ := hrest other hother
      · refine ⟨huuid', ?_⟩
        by_cases hgone : Connected amendments id node.id
        · right
          intro kept hkept hconnected
          exact (hremoves kept (hsubset hkept)).mp hkept (hgone.trans hconnected)
        · exact Or.inl ⟨node, (hremoves node hnode).mpr hgone, rfl, horg⟩
      · exact ⟨huuid', Or.inr fun node hnode ↦ hapart node (hsubset hnode)⟩
    obtain ⟨hkept, hsound'', hsubset'⟩ := ih hsound' hids' h
    refine ⟨fun node hmem ↦ ?_, hsound'', List.Subset.trans hsubset' hsubset⟩
    rw [List.forall_mem_cons]
    constructor
    · intro hnext
      exact ⟨(hremoves node hmem).mp (hsubset' hnext), (hkept node (hsubset' hnext)).mp hnext⟩
    · rintro ⟨hfirst, hothers⟩
      exact (hkept node ((hremoves node hmem).mpr hfirst)).mpr hothers

/-- A database and every pointer that a stored version ever had. -/
structure World where
  database : Database
  amendments : List (String × String)

/-- The calls of a history. Other calls leave the versions alone. -/
inductive Action where
  | contribute (circumstances : Circumstances) (orgId : String) (request : ContributeRequest)
  | amend (circumstances : Circumstances) (orgId : String) (request : AmendRequest)
  | purge (orgId expectDigest : String) (moment : ℤ) (auditId : String)
  | delete (visible : Trace → Bool) (orgId traceId : String)
  | purgeSubject (orgId subjectId : String)
  | other (next : Database)

/-- What a call leaves of a database. -/
def call (runtime : Runtime) (database : Database) : Action → Py Database
  | .contribute circumstances orgId request =>
    Prod.snd <$> contributeTrace runtime circumstances database database orgId request
  | .amend circumstances orgId request => Prod.snd <$> amendTrace runtime circumstances database database orgId
    request
  | .purge orgId expectDigest moment auditId =>
    Prod.snd <$> Retention.apply runtime database orgId expectDigest moment auditId
  | .delete visible orgId traceId => Prod.snd <$> deleteTrace visible database orgId traceId
  | .purgeSubject orgId subjectId => Prod.snd <$> purgeTracesBySubject (fun _ ↦ true) database orgId subjectId
  | .other next => do
    Py.require (next.nodes = database.nodes) (.valueError "not a call of a history")
    return next

def step (runtime : Runtime) (world : World) (action : Action) : Py World := do
  let next ← call runtime world.database action
  return ⟨next, world.amendments ++ pointers next.nodes⟩

/-- Ids are new, and a purge cuts no family in two. -/
def Orderly (runtime : Runtime) (world : World) : Action → Prop
  | .contribute circumstances _ _ => Fresh world.database.nodes world.amendments circumstances.newId
  | .amend circumstances _ _ => Fresh world.database.nodes world.amendments circumstances.newId
  | .purge orgId expectDigest moment auditId =>
    ∀ fresh next, Retention.apply runtime world.database orgId expectDigest moment auditId = .ok (fresh, next) →
      ∀ node ∈ next.nodes, ∀ other ∈ next.nodes, Joined world.database.nodes node.id other.id →
        Joined next.nodes node.id other.id
  | _ => True

omit hsound in
theorem map_snd_eq_ok_iff {α : Type} {action : Py (α × Database)} :
    Prod.snd <$> action = .ok next ↔ ∃ result, action = .ok (result, next) := by
  cases action with
  | error error => simp
  | ok pair => simp [Prod.ext_iff]

theorem stored_of_mem_tagged {id : String}
    (h : id ∈ tagged database orgId subjectId) :
    isUuid id = true ∧ ((∃ node ∈ database.nodes, node.id = id ∧ node.orgId = orgId) ∨
      ∀ node ∈ database.nodes, ¬Connected amendments id node.id) := by
  obtain ⟨trace, htrace, rfl⟩ := List.mem_map.mp h
  obtain ⟨hmem, htagged⟩ := List.mem_filter.mp htrace
  simp only [Bool.and_eq_true, decide_eq_true_eq] at htagged
  have hnode : trace.node ∈ database.nodes := List.mem_map.mpr ⟨trace, hmem, rfl⟩
  have huuid : isUuid trace.id = true := hsound.uuids trace.node hnode
  exact ⟨huuid, Or.inl ⟨trace.node, hnode, rfl, htagged.1⟩⟩

theorem removes_of_purgeTracesBySubject
    (h : purgeTracesBySubject (fun _ ↦ true) database orgId subjectId = .ok (ids, next)) :
    (Capabilities.strip subjectId ≠ "" → ∀ node ∈ database.nodes, node ∈ next.nodes ↔
      ∀ id ∈ tagged database orgId (Capabilities.strip subjectId), ¬Connected amendments id node.id) ∧
      Sound next.nodes amendments ∧ next.nodes ⊆ database.nodes := by
  unfold purgeTracesBySubject at h
  dsimp only at h
  split_ifs at h with hnothing
  · obtain ⟨-, rfl⟩ := Prod.mk.inj (Except.ok.inj h)
    refine ⟨fun hsubject node hmem ↦ ?_, hsound, List.Subset.refl _⟩
    rw [hnothing.resolve_left hsubject]
    simp [hmem]
  · obtain ⟨after, hafter, h⟩ := Py.of_bind h
    obtain ⟨-, rfl⟩ := Prod.mk.inj (Except.ok.inj h)
    obtain ⟨hkept, hsound', hsubset⟩ :=
      removes_of_deleteAll hsound (fun id hid ↦ stored_of_mem_tagged hsound hid) hafter
    exact ⟨fun _ ↦ hkept, hsound', hsubset⟩

end

/-- The versions of a world are sound. -/
def World.Sound (world : World) : Prop := Hub.Sound world.database.nodes world.amendments

theorem sound_of_known (h : Hub.Sound nodes amendments) :
    Hub.Sound nodes (amendments ++ pointers nodes) where
  keys := h.keys
  uuids := h.uuids
  known := List.subset_append_right _ _
  joined := fun node hmem other hother hconnected ↦
    h.joined node hmem other hother ((connected_append h.known).mp hconnected)
  owner := fun node hmem other hother hconnected ↦
    h.owner node hmem other hother ((connected_append h.known).mp hconnected)

theorem sound_congr {amendments' : List (String × String)} (h : Hub.Sound nodes amendments)
    (hsubset : amendments' ⊆ amendments) (hknown : pointers nodes ⊆ amendments') : Hub.Sound nodes amendments' where
  keys := h.keys
  uuids := h.uuids
  known := hknown
  joined := fun node hmem other hother hconnected ↦ h.joined node hmem other hother (hconnected.mono hsubset)
  owner := fun node hmem other hother hconnected ↦ h.owner node hmem other hother (hconnected.mono hsubset)

theorem sound_step {world after : World} {action : Action} (hsound : world.Sound)
    (horderly : Orderly runtime world action) (h : step runtime world action = .ok after) : after.Sound := by
  obtain ⟨next, hcall, h⟩ := Py.of_bind h
  obtain rfl := Except.ok.inj h
  cases action with
  | contribute circumstances orgId request =>
    obtain ⟨_, hcall⟩ := map_snd_eq_ok_iff.mp hcall
    obtain hsame | hnew := nodes_contributeTrace hcall
    · exact sound_of_known (hsame ▸ hsound)
    · have hfresh : Fresh world.database.nodes world.amendments (Node.mk circumstances.newId orgId none).id :=
        horderly
      exact sound_of_known (hnew ▸ hsound.contribute hfresh rfl)
  | amend circumstances orgId request =>
    obtain ⟨_, hcall⟩ := map_snd_eq_ok_iff.mp hcall
    obtain hsame | ⟨original, hmem, hnew⟩ := nodes_amendTrace hcall
    · exact sound_of_known (hsame ▸ hsound)
    · have hfresh : Fresh world.database.nodes world.amendments
          (Node.mk circumstances.newId original.orgId (some original.id)).id := horderly
      have hnext := hsound.amend hfresh hmem rfl rfl
      rw [← hnew] at hnext
      refine sound_congr hnext ?_ (List.subset_append_right _ _)
      refine List.append_subset.mpr ⟨List.subset_append_left _ _, hnext.known⟩
  | purge orgId expectDigest moment auditId =>
    obtain ⟨fresh, hcall⟩ := map_snd_eq_ok_iff.mp hcall
    exact sound_of_known (hsound.shrink (nodes_apply hcall) (horderly fresh next hcall))
  | delete visible orgId traceId =>
    obtain ⟨deleted, hcall⟩ := map_snd_eq_ok_iff.mp hcall
    cases deleted with
    | true => exact sound_of_known (removes_of_deleteTrace hsound hcall).2.1
    | false =>
      obtain ⟨-, rfl⟩ | ⟨hfalse, -⟩ := nodes_deleteTrace hsound.keys hcall
      · exact sound_of_known hsound
      · cases hfalse
  | purgeSubject orgId subjectId =>
    obtain ⟨_, hcall⟩ := map_snd_eq_ok_iff.mp hcall
    exact sound_of_known (removes_of_purgeTracesBySubject hsound hcall).2.1
  | other other =>
    obtain ⟨_, hsame, hcall⟩ := Py.of_bind hcall
    obtain rfl := Except.ok.inj hcall
    exact sound_of_known ((of_decide_eq_true (Py.require_eq_ok_iff.mp hsame)) ▸ hsound)

/-- Without purges that cut a family, a deletion removes the family of its trace only. -/
theorem deletions_remove_families (runtime : Runtime) (start : Database) (hstart : start.traces = [])
    (actions : List Action) (horderly : Along (step runtime) (Orderly runtime) ⟨start, []⟩ actions) (world : World)
    (hworld : world = run (step runtime) ⟨start, []⟩ actions) :
    (∀ visible orgId traceId next, deleteTrace visible world.database orgId traceId = .ok (true, next) →
      ∀ trace ∈ world.database.traces, trace ∈ next.traces ↔ ¬Connected world.amendments traceId trace.id) ∧
    ∀ orgId subjectId ids next, purgeTracesBySubject (fun _ ↦ true) world.database orgId subjectId = .ok (ids, next) →
        Capabilities.strip subjectId ≠ "" → ∀ trace ∈ world.database.traces,
          trace ∈ next.traces ↔ ∀ other ∈ world.database.traces, other.orgId = orgId →
            Capabilities.strip subjectId ∈ other.subjectIds → ¬Connected world.amendments other.id trace.id := by
  have hinitial : World.Sound ⟨start, []⟩ := by
    rw [World.Sound, Database.nodes, hstart]
    exact sound_nil
  have hsound : world.Sound := hworld ▸ run_invariant_along
    (fun _ _ _ hsound horderly hstep ↦ sound_step hsound horderly hstep) hinitial horderly
  constructor
  · intro visible orgId traceId next h trace hmem
    have hremoves := (removes_of_deleteTrace hsound h).1 trace.node (List.mem_map.mpr ⟨trace, hmem, rfl⟩)
    rw [mem_traces_iff hsound.keys hmem (traces_deleteTrace h), hremoves]
    rfl
  · intro orgId subjectId ids next h hsubject trace hmem
    have hremoves := (removes_of_purgeTracesBySubject hsound h).1 hsubject trace.node
      (List.mem_map.mpr ⟨trace, hmem, rfl⟩)
    rw [mem_traces_iff hsound.keys hmem (traces_purgeTracesBySubject h), hremoves]
    simp only [tagged, List.mem_map, List.mem_filter, Bool.and_eq_true, decide_eq_true_eq]
    constructor
    · exact fun h other hother horg htagged ↦ h other.id ⟨other, ⟨hother, horg, htagged⟩, rfl⟩
    · rintro h _ ⟨other, ⟨hother, horg, htagged⟩, rfl⟩
      exact h other hother horg htagged

namespace Sample

def identity (digit : Char) : String := String.ofList (List.replicate 32 digit)

def interpreter : Runtime := .hashing []

def calm (now : ℤ) (newId : String) : Circumstances where
  config := {}
  now := now
  newId := newId
  amendsId := "amends"
  supersededId := "superseded"
  permits := fun _ ↦ true
  visible := fun _ ↦ true
  allowed := true
  agentSlot := .ok ()
  suspicionReason := fun _ ↦ none
  parseMoment := fun _ ↦ none

def start : Database := ⟨[⟨"o", "scale", 0, 0⟩], [], [], [], [], [], [], [], []⟩

def contribution : ContributeRequest := ⟨"t", "c", "s", [], "", "", none, [], none, none, none⟩

def amendment (traceId : String) : AmendRequest := ⟨traceId, none, none, none, none, none, none⟩

/-- A trace, its amendment after a day and the amendment of that one after forty days. -/
def amended : List Action :=
  [.contribute (calm 0 (identity 'a')) "o" contribution,
    .amend (calm Retention.day (identity 'b')) "o" (amendment (identity 'a')),
    .amend (calm (40 * Retention.day) (identity 'c')) "o" (amendment (identity 'b'))]

def version (id : String) (now : ℤ) (supersedes supersededBy : Option String) : Trace :=
  ⟨id, "o", "t", "c", "s", [], [], "", "", [], [], none, none, supersedes, supersededBy, now, none, none, false, "",
    none, "org"⟩

def first : Trace := version (identity 'a') 0 none (some (identity 'b'))

def second : Trace := version (identity 'b') Retention.day (some (identity 'a')) (some (identity 'c'))

def third : Trace := version (identity 'c') (40 * Retention.day) (some (identity 'b')) none

def stored (traces : List Trace) (count : ℤ) (relations : List TraceRelation) (holds : List LegalHold)
    (auditLog : List AuditLogEntry) : Database :=
  ⟨[⟨"o", "scale", count, 0⟩], traces, [], relations, [], [], auditLog, [⟨"o", "trace", "any", 30⟩], holds⟩

def relations : List TraceRelation :=
  [⟨"amends", identity 'b', identity 'a', "AMENDS"⟩, ⟨"superseded", identity 'a', identity 'b', "SUPERSEDED_BY"⟩,
    ⟨"amends", identity 'c', identity 'b', "AMENDS"⟩, ⟨"superseded", identity 'b', identity 'c', "SUPERSEDED_BY"⟩]

def held : Database := stored [first, second, third] 3 relations [⟨"o", "trace", first.id, none⟩] []

def plan : Retention.PurgePlan := ⟨"o", [⟨"trace", "any", 2, 1, [second.id], ""⟩]⟩

def released : Database :=
  stored [first, third] 2 [] [⟨"o", "trace", first.id, some 0⟩]
    [⟨"audit", 41 * Retention.day, some "o", "retention.purge"⟩]

def actions : List Action :=
  amended ++ [.other held, .purge "o" (plan.digest interpreter) (41 * Retention.day) "audit", .other released]

def twice : Database :=
  ⟨[⟨"o", "scale", 2, 0⟩], [first, version (identity 'b') Retention.day (some (identity 'a')) none], [],
    relations.take 2, [], [], [], [], []⟩

end Sample

/-- The first version survives the deletion of the third when the second was purged. -/
theorem first_version_survives :
    Connected (run (step Sample.interpreter) ⟨Sample.start, []⟩ Sample.actions).amendments Sample.third.id
      Sample.first.id ∧
    ∃ next, deleteTrace (fun _ ↦ true) (run (step Sample.interpreter) ⟨Sample.start, []⟩ Sample.actions).database
      "o" Sample.third.id = .ok (true, next) ∧ next.traces = [Sample.first] := by
  have hdatabase : (run (step Sample.interpreter) ⟨Sample.start, []⟩ Sample.actions).database = Sample.released :=
    by decide +kernel
  constructor
  · refine EqvGen.trans _ Sample.second.id _ (EqvGen.rel _ _ ?_) (EqvGen.rel _ _ ?_)
    · decide +kernel
    · decide +kernel
  · rw [hdatabase]
    exact ⟨_, rfl, by decide +kernel⟩

/-- The deletion of a second version after two calls. -/
theorem deletions_remove_families_once :
    ∃ next, deleteTrace (fun _ ↦ true) (run (step Sample.interpreter) ⟨Sample.start, []⟩
      (Sample.amended.take 2)).database "o" Sample.second.id = .ok (true, next) ∧
      ∀ trace ∈ (run (step Sample.interpreter) ⟨Sample.start, []⟩ (Sample.amended.take 2)).database.traces,
        trace ∈ next.traces ↔
        ¬Connected (run (step Sample.interpreter) ⟨Sample.start, []⟩ (Sample.amended.take 2)).amendments
          Sample.second.id trace.id := by
  have horderly : Along (step Sample.interpreter) (Orderly Sample.interpreter) ⟨Sample.start, []⟩
    (Sample.amended.take 2) := by
    refine ⟨⟨by decide +kernel, by decide +kernel, by decide +kernel⟩,
      ⟨by decide +kernel, by decide +kernel, by decide +kernel⟩, trivial⟩
  have hdelete : ∃ next, deleteTrace (fun _ ↦ true)
    (run (step Sample.interpreter) ⟨Sample.start, []⟩ (Sample.amended.take 2)).database
      "o" Sample.second.id = .ok (true, next) := by
    have hdatabase : (run (step Sample.interpreter) ⟨Sample.start, []⟩ (Sample.amended.take 2)).database =
      Sample.twice := by
      decide +kernel
    rw [hdatabase]
    exact ⟨_, rfl⟩
  obtain ⟨next, hnext⟩ := hdelete
  exact ⟨next, hnext, (deletions_remove_families Sample.interpreter Sample.start rfl (Sample.amended.take 2)
    horderly _ rfl).1
    (fun _ ↦ true) "o" Sample.second.id next hnext⟩

end UniMem.Hub
