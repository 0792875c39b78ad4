import UniMem.MeshCrdt.Delivery

/-!
# What becomes of a register

A register is reported with the value of its causally maximal puts or as a contradiction. None is lost exactly when
the registers have different texts `entity/field`.
-/

namespace UniMem.MeshCrdt

open Library FrontierProtocol

/-! ## Causality -/

/-- An operation for `merge_views`. -/
def Body.operation (body : Body) : Operation := .ofRow body.row

/-- The operations of robots that are not revoked. -/
def liveBodies (bodies : List Body) (revoked : List String) : List Body :=
  bodies.filter fun body ↦ body.robotId ∉ revoked

/-- The value of a put. -/
def Body.putValue? (body : Body) : Option Json :=
  match body.effect with
  | .put value => some value
  | _ => none

/-- The live puts of a register. -/
def putsOf (bodies : List Body) (revoked : List String) (entity field : String) : List Body :=
  (liveBodies bodies revoked).filter fun body ↦
    body.putValue?.isSome ∧ body.entity = entity ∧ body.field = field

/-- An operation with the first id names the second one as a parent. -/
def Follows (bodies : List Body) (id parent : String) : Prop :=
  ∃ body ∈ bodies, body.id = id ∧ parent ∈ body.parents

/-- No operation is its own ancestor. -/
def AcyclicParents (bodies : List Body) : Prop :=
  ∀ id, ¬Relation.TransGen (Follows bodies) id id

/-- An id names one operation. -/
def Identified (bodies : List Body) : Prop :=
  ∀ first ∈ bodies, ∀ second ∈ bodies, first.id = second.id → first = second

/-- A put of a register that no put of it has among its ancestors. -/
def CausallyMaximal (bodies : List Body) (revoked : List String) (entity field : String)
    (body : Body) : Prop :=
  body ∈ putsOf bodies revoked entity field ∧
    ∀ other ∈ putsOf bodies revoked entity field,
      ¬Relation.TransGen (Follows (liveBodies bodies revoked)) other.id body.id

open Classical in
/-- The causally maximal puts of a register, in the order of the operations. -/
noncomputable def maximalPuts (bodies : List Body) (revoked : List String) (entity field : String) :
    List Body :=
  (putsOf bodies revoked entity field).filter fun body ↦
    CausallyMaximal bodies revoked entity field body

/-- The causally maximal puts of a register have one value. -/
def Agreed (bodies : List Body) (revoked : List String) (entity field : String) : Prop :=
  ∀ first ∈ maximalPuts bodies revoked entity field,
    ∀ second ∈ maximalPuts bodies revoked entity field,
      ∀ value ∈ first.putValue?, ∀ other ∈ second.putValue?, value.Same other

/-! ## The reads of signed operations -/

variable {bodies : List Body} {revoked : List String} {runtime : Runtime}

/-- The put of a body. -/
def Body.put (body : Body) : Put :=
  ⟨toLex (.text body.entity, .text body.field), .str body.entity, .str body.field, body.id, body.operation⟩

theorem readLive_operation (revoked : List String) (body : Body) :
    readLive revoked body.operation = .ok (if body.robotId ∈ revoked then none else some body.operation) := rfl

theorem identified_operation (body : Body) :
    identified body.operation = .ok (body.id, body.operation) := by
  cases heffect : body.effect <;> simp only [identified, Body.operation, Body.row, heffect] <;> rfl

theorem readPut_operation (body : Body) :
    readPut body.operation = .ok (if body.putValue?.isSome then some body.put else none) := by
  cases heffect : body.effect <;>
    simp only [readPut, Body.put, Body.putValue?, Body.operation, Body.row, heffect] <;> rfl

theorem collect_hashKey_str (texts : List String) :
    Py.collect (Py.always hashKey) (texts.map .str) = .ok (texts.map .text) := by
  rw [Py.collect_map]
  exact Py.collect_always_eq_ok fun _ _ ↦ rfl

theorem readParents_operation (body : Body) :
    readParents (body.id, body.operation) = .ok (.text body.id, body.parents.map .text) := by
  have hparents : body.operation.parents = some (.arr (body.parents.map .str)) := by
    cases heffect : body.effect <;> simp only [Body.operation, Body.row, heffect] <;> rfl
  simp only [readParents, hparents, Option.getD_some, iterate, Py.bind_ok, collect_hashKey_str, Py.pure_eq_ok]

theorem readAdd_operation (body : Body) :
    ∃ found, readAdd body.operation = .ok found ∧ ∀ entry ∈ found, entry = (body.id, body.operation) := by
  cases heffect : body.effect with
  | add value =>
    refine ⟨some (body.id, body.operation), ?_, by simp⟩
    simp only [readAdd, Body.operation, Body.row, heffect]
    rfl
  | _ =>
    refine ⟨none, ?_, by simp⟩
    simp only [readAdd, Body.operation, Body.row, heffect]
    rfl

theorem readTargets_operation (body : Body) : ∃ found, readTargets body.operation = .ok found := by
  cases heffect : body.effect with
  | remove targets =>
    have htargets : body.operation.targets = some (.arr (targets.map .str)) := by
      simp only [Body.operation, Body.row, heffect]
      rfl
    have hremove : body.operation.isA "remove" = .ok true := by
      simp only [Body.operation, Body.row, heffect]
      rfl
    refine ⟨some (targets.map .text), ?_⟩
    rw [readTargets, hremove, Py.bind_ok, if_pos rfl, htargets]
    simp only [item, iterate, Py.bind_ok, collect_hashKey_str, Py.map_ok]
  | _ =>
    refine ⟨none, ?_⟩
    simp only [readTargets, Body.operation, Body.row, heffect]
    rfl

theorem readMember_operation (removed : List Key) (body : Body) :
    ∃ found, readMember removed (body.id, body.operation) = .ok found ∧
      ∀ placed ∈ found, placed.key = .text body.entity := by
  simp only [readMember]
  split_ifs
  · refine ⟨some ⟨.text body.entity, .str body.entity, ⟨body.id, body.operation.value.getD .null,
      .bool body.safety, body.robotId, .int body.counter⟩⟩, ?_, by simp⟩
    cases heffect : body.effect <;> simp only [Body.operation, Body.row, heffect] <;> rfl
  · exact ⟨none, rfl, by simp⟩

/-- What a put is judged by. -/
def Body.candidate (runtime : Runtime) (body : Body) : Candidate :=
  ⟨body.id, body.robotId, body.putValue?.getD .null, runtime.sha256 (canonicalBytes (body.putValue?.getD .null))⟩

theorem readCandidate_put {body : Body} (h : body.putValue?.isSome) :
    readCandidate runtime body.put = .ok (body.candidate runtime) := by
  cases heffect : body.effect with
  | put value =>
    have hvalue : body.putValue? = some value := by rw [Body.putValue?, heffect]
    have hwirable : Wirable value := by
      have hadmissible := body.effect_admissible
      rw [heffect] at hadmissible
      exact hadmissible
    refine readCandidate_eq_ok_iff.mpr ⟨rfl, ?_, ?_, ?_⟩
    · simp only [Body.put, Body.candidate, hvalue, Body.operation, Body.row, heffect]
      rfl
    · rfl
    · simp only [Body.candidate, hvalue, Option.getD_some]
      exact digest_eq_ok_iff.mpr ⟨hwirable, rfl⟩
  | _ => simp [Body.putValue?, heffect] at h

/-! ## The stages for signed operations -/

theorem collect_readLive (bodies : List Body) (revoked : List String) :
    Py.collect (readLive revoked) (bodies.map Body.operation) =
      .ok ((liveBodies bodies revoked).map Body.operation) := by
  rw [Py.collect_map, Py.collect_eq_ok fun body _ ↦ readLive_operation revoked body, liveBodies]
  congr 1
  induction bodies with
  | nil => rfl
  | cons body bodies ih =>
    by_cases hrevoked : body.robotId ∈ revoked
    · simp [hrevoked, ih]
    · simp [hrevoked, ih]

theorem collect_readPut (bodies : List Body) :
    Py.collect readPut (bodies.map Body.operation) =
      .ok ((bodies.filter fun body ↦ body.putValue?.isSome).map Body.put) := by
  rw [Py.collect_map, Py.collect_eq_ok fun body _ ↦ readPut_operation body]
  congr 1
  induction bodies with
  | nil => rfl
  | cons body bodies ih =>
    by_cases hput : body.putValue?.isSome
    · simp [hput, ih]
    · simp [hput, ih]

theorem collect_identified (bodies : List Body) :
    Py.collect (Py.always identified) (bodies.map Body.operation) =
      .ok (bodies.map fun body ↦ (body.id, body.operation)) := by
  rw [Py.collect_map]
  exact Py.collect_always_eq_ok fun body _ ↦ identified_operation body

theorem filter_put_key (bodies : List Body) (revoked : List String) (entity field : String) :
    (((liveBodies bodies revoked).filter fun body ↦ body.putValue?.isSome).map Body.put).filter
      (fun put ↦ put.key = toLex (Key.text entity, Key.text field)) =
      (putsOf bodies revoked entity field).map Body.put := by
  rw [List.filter_map, List.filter_filter, putsOf]
  congr 1
  apply List.filter_congr
  intro body _
  simp only [Function.comp_apply, Body.put, EmbeddingLike.apply_eq_iff_eq, Prod.mk.injEq,
    Key.text.injEq, Bool.decide_and, Bool.and_comm, Bool.decide_eq_true]

theorem exists_members (bodies : List Body) :
    ∃ adds removed members, Py.collect readAdd (bodies.map Body.operation) = .ok adds ∧
      Py.collect readTargets (bodies.map Body.operation) = .ok removed ∧
      Py.collect (readMember removed.flatten) ((index Prod.fst adds).map Prod.snd) = .ok members ∧
      ∀ placed ∈ members, ∃ entity, placed.key = .text entity := by
  obtain ⟨adds, hadds⟩ : ∃ adds, Py.collect readAdd (bodies.map Body.operation) = .ok adds := by
    rw [Py.collect_map]
    exact Py.exists_collect fun body _ ↦ ⟨_, (readAdd_operation body).choose_spec.1⟩
  obtain ⟨removed, hremoved⟩ : ∃ removed,
      Py.collect readTargets (bodies.map Body.operation) = .ok removed := by
    rw [Py.collect_map]
    exact Py.exists_collect fun body _ ↦ readTargets_operation body
  have hadd : ∀ entry ∈ (index Prod.fst adds).map Prod.snd,
      ∃ body : Body, entry = (body.id, body.operation) := by
    intro entry hentry
    obtain ⟨pair, hpair, rfl⟩ := List.mem_map.mp hentry
    obtain ⟨op, hop, hread⟩ := (Py.mem_collect_iff hadds _).mp (mem_index hpair).1
    obtain ⟨body, -, rfl⟩ := List.mem_map.mp hop
    obtain ⟨found, hfound, heq⟩ := readAdd_operation body
    rw [hfound, Except.ok.injEq] at hread
    exact ⟨body, heq _ hread⟩
  obtain ⟨members, hmembers⟩ : ∃ members, Py.collect (readMember removed.flatten)
      ((index Prod.fst adds).map Prod.snd) = .ok members := by
    apply Py.exists_collect
    intro entry hentry
    obtain ⟨body, rfl⟩ := hadd entry hentry
    exact ⟨_, (readMember_operation removed.flatten body).choose_spec.1⟩
  refine ⟨adds, removed, members, hadds, hremoved, hmembers, ?_⟩
  intro placed hplaced
  obtain ⟨entry, hentry, hread⟩ := (Py.mem_collect_iff hmembers placed).mp hplaced
  obtain ⟨body, rfl⟩ := hadd entry hentry
  obtain ⟨found, hfound, hkey⟩ := readMember_operation removed.flatten body
  rw [hfound, Except.ok.injEq] at hread
  exact ⟨body.entity, hkey placed hread⟩

theorem mem_index_bodies {bodies : List Body} {entry : String × Operation}
    (h : entry ∈ (index Prod.fst (bodies.map fun body ↦ (body.id, body.operation))).map Prod.snd) :
    ∃ body ∈ bodies, entry = (body.id, body.operation) := by
  obtain ⟨pair, hpair, rfl⟩ := List.mem_map.mp h
  obtain ⟨body, hbody, heq⟩ := List.mem_map.mp (mem_index hpair).1
  exact ⟨body, hbody, heq.symm⟩

theorem exists_table (bodies : List Body) :
    ∃ table, Py.collect (Py.always readParents)
      ((index Prod.fst (bodies.map fun body ↦ (body.id, body.operation))).map Prod.snd) = .ok table := by
  apply Py.exists_collect
  intro entry hentry
  obtain ⟨body, -, rfl⟩ := mem_index_bodies hentry
  exact ⟨_, Py.always_eq_ok_iff.mpr (readParents_operation body)⟩

theorem mem_groups {entity field : String} {group : List Put} :
    (toLex (Key.text entity, Key.text field), group) ∈ sortedGroups Put.key
      (((liveBodies bodies revoked).filter fun body ↦ body.putValue?.isSome).map Body.put) ↔
      putsOf bodies revoked entity field ≠ [] ∧ group = (putsOf bodies revoked entity field).map Body.put := by
  rw [mem_sortedGroups_iff, filter_put_key]
  apply and_congr_left
  rintro rfl
  constructor
  · intro h
    obtain ⟨put, hput, hkey⟩ := List.mem_map.mp h
    have hmem : put ∈ List.filter (fun put : Put ↦ put.key = toLex (Key.text entity, Key.text field))
        _ := List.mem_filter.mpr ⟨hput, decide_eq_true hkey⟩
    rw [filter_put_key] at hmem
    obtain ⟨body, hbody, -⟩ := List.mem_map.mp hmem
    exact List.ne_nil_of_mem hbody
  · intro h
    obtain ⟨body, hbody⟩ := List.exists_mem_of_ne_nil _ h
    have hmem : body.put ∈ (putsOf bodies revoked entity field).map Body.put :=
      List.mem_map.mpr ⟨body, hbody, rfl⟩
    rw [← filter_put_key, List.mem_filter, decide_eq_true_eq] at hmem
    exact List.mem_map.mpr ⟨_, hmem.1, hmem.2⟩

theorem text_of_mem_groups {group : (Key ×ₗ Key) × List Put} (h : group ∈ sortedGroups Put.key
      (((liveBodies bodies revoked).filter fun body ↦ body.putValue?.isSome).map Body.put)) :
    ∃ entity field, group.1 = toLex (Key.text entity, Key.text field) := by
  have hkey := ((mem_sortedGroups_iff Put.key _ group.1 group.2).mp h).1
  simp only [List.map_map, List.mem_map] at hkey
  obtain ⟨body, -, hbody⟩ := hkey
  exact ⟨body.entity, body.field, hbody.symm⟩

theorem isSome_of_mem_putsOf {entity field : String} {body : Body} (h : body ∈ putsOf bodies revoked entity field) :
    body.putValue?.isSome ∧ body.entity = entity ∧ body.field = field := by
  simpa using (List.mem_filter.mp h).2

theorem readRegister_puts {ancestors : String → List Key} {key : Key ×ₗ Key} {first : Body}
    {rest : List Body} (h : ∀ body ∈ first :: rest, body.putValue?.isSome) :
    readRegister runtime ancestors (key, (first :: rest).map Body.put) = .ok (some (reportOf ancestors first.put
        ((first :: rest).map fun body ↦ body.candidate runtime))) := by
  have hcandidates : Py.collect (Py.always (readCandidate runtime)) ((first :: rest).map Body.put) =
      .ok ((first :: rest).map fun body ↦ body.candidate runtime) := by
    rw [Py.collect_map]
    exact Py.collect_always_eq_ok fun body hbody ↦ readCandidate_put (h body hbody)
  rw [List.map_cons] at hcandidates ⊢
  simp only [readRegister, hcandidates, Py.bind_ok, Py.pure_eq_ok]

theorem exists_stages (runtime : Runtime) (bodies : List Body) (revoked : List String) :
    Nonempty (Stages runtime (bodies.map Body.operation) revoked) := by
  obtain ⟨adds, removed, members, hadds, hremoved, hmembers, hentity⟩ :=
    exists_members (liveBodies bodies revoked)
  obtain ⟨table, htable⟩ := exists_table (liveBodies bodies revoked)
  obtain ⟨reports, hreports⟩ : ∃ reports,
      Py.collect (readRegister runtime fun id ↦ Worklist.descendants table (.text id))
        (sortedGroups Put.key
          (((liveBodies bodies revoked).filter fun body ↦ body.putValue?.isSome).map Body.put)) =
        .ok reports := by
    apply Py.exists_collect
    rintro ⟨key, group⟩ hgroup
    obtain ⟨entity, field, rfl⟩ := text_of_mem_groups hgroup
    obtain ⟨hne, rfl⟩ := mem_groups.mp hgroup
    obtain ⟨first, rest, hputs⟩ := List.exists_cons_of_ne_nil hne
    rw [hputs]
    refine ⟨_, readRegister_puts fun body hbody ↦ (isSome_of_mem_putsOf (hputs ▸ hbody)).1⟩
  refine ⟨⟨_, adds, removed, members, _, _, table, _, reports, _, collect_readLive bodies revoked,
    hadds, hremoved, hmembers, collect_readPut _, collect_identified _, htable,
    sortedItems_eq_ok_iff.mpr ⟨?_, rfl⟩, hreports, sortedItems_eq_ok_iff.mpr ⟨?_, rfl⟩⟩⟩
  · simp only [List.map_map, List.forall_mem_map]
    intro first _ second _
    right
    exact ite_self true
  · intro first hfirst second hsecond
    obtain ⟨placed, hplaced, rfl⟩ := List.mem_map.mp hfirst
    obtain ⟨other, hother, rfl⟩ := List.mem_map.mp hsecond
    obtain ⟨entity, hkey⟩ := hentity placed hplaced
    obtain ⟨site, hkey'⟩ := hentity other hother
    rw [hkey, hkey']
    exact Or.inr rfl

section Reports

variable (stages : Stages runtime (bodies.map Body.operation) revoked)

theorem live_eq_liveBodies : stages.live = (liveBodies bodies revoked).map Body.operation :=
  Except.ok.inj (stages.live_eq.symm.trans (collect_readLive bodies revoked))

theorem registers_eq_groups : stages.registers = sortedGroups Put.key
    (((liveBodies bodies revoked).filter fun body ↦ body.putValue?.isSome).map Body.put) := by
  have hputs := stages.puts_eq
  rw [live_eq_liveBodies, collect_readPut, Except.ok.injEq] at hputs
  rw [← (sortedItems_eq_ok_iff.mp stages.registers_eq).2, hputs]

theorem mem_reports_iff (report : Report) :
    report ∈ stages.reports ↔ ∃ entity field first rest, putsOf bodies revoked entity field = first :: rest ∧
      report = reportOf (ancestorsIn stages.table) first.put
        ((first :: rest).map fun body ↦ body.candidate runtime) := by
  have hread : ∀ entity field first rest, putsOf bodies revoked entity field = first :: rest →
      readRegister runtime (ancestorsIn stages.table)
        (toLex (Key.text entity, Key.text field), (first :: rest).map Body.put) =
        .ok (some (reportOf (ancestorsIn stages.table) first.put
          ((first :: rest).map fun body ↦ body.candidate runtime))) := by
    intro entity field first rest hputs
    exact readRegister_puts fun body hbody ↦ (isSome_of_mem_putsOf (hputs ▸ hbody)).1
  rw [Py.mem_collect_iff stages.reports_eq, registers_eq_groups]
  constructor
  · rintro ⟨⟨key, group⟩, hgroup, hreport⟩
    obtain ⟨entity, field, rfl⟩ := text_of_mem_groups hgroup
    obtain ⟨hne, rfl⟩ := mem_groups.mp hgroup
    obtain ⟨first, rest, hputs⟩ := List.exists_cons_of_ne_nil hne
    rw [hputs, hread entity field first rest hputs, Except.ok.injEq, Option.some.injEq] at hreport
    exact ⟨entity, field, first, rest, hputs, hreport.symm⟩
  · rintro ⟨entity, field, first, rest, hputs, rfl⟩
    refine ⟨(toLex (Key.text entity, Key.text field), (first :: rest).map Body.put), ?_,
      hread entity field first rest hputs⟩
    exact mem_groups.mpr ⟨hputs ▸ List.cons_ne_nil _ _, by rw [hputs]⟩

/-! ## Ancestors -/

theorem step_table_iff (hids : Identified bodies) (id : String) (next : Key) :
    Worklist.Step stages.table (.text id) next ↔
      ∃ parent, next = .text parent ∧ Follows (liveBodies bodies revoked) id parent := by
  have hlive : ∀ body ∈ liveBodies bodies revoked, body ∈ bodies :=
    fun body hbody ↦ (List.mem_filter.mp hbody).1
  have hbyId := stages.byId_eq
  rw [live_eq_liveBodies, collect_identified, Except.ok.injEq] at hbyId
  have htable := stages.table_eq
  rw [← hbyId] at htable
  -- Each row of the table is that of one operation.
  have hrow : ∀ key parents, (key, parents) ∈ stages.table ↔ ∃ body ∈ liveBodies bodies revoked,
      key = .text body.id ∧ parents = body.parents.map .text := by
    intro key parents
    rw [Py.mem_collect_iff htable]
    simp only [Py.always_eq_ok_iff]
    constructor
    · rintro ⟨entry, hentry, hread⟩
      obtain ⟨body, hbody, rfl⟩ := mem_index_bodies hentry
      rw [readParents_operation, Except.ok.injEq, Prod.mk.injEq] at hread
      exact ⟨body, hbody, hread.1.symm, hread.2.symm⟩
    · rintro ⟨body, hbody, rfl, rfl⟩
      refine ⟨(body.id, body.operation), ?_, readParents_operation body⟩
      refine List.mem_map.mpr ⟨(body.id, (body.id, body.operation)), ?_, rfl⟩
      change (Prod.fst (body.id, body.operation), (body.id, body.operation)) ∈ index Prod.fst _
      refine mem_index_of_unique (List.mem_map.mpr ⟨body, hbody, rfl⟩) ?_
      rintro other hother hid
      obtain ⟨source, hsource, rfl⟩ := List.mem_map.mp hother
      rw [hids source (hlive source hsource) body (hlive body hbody) hid]
  have hkeys : (((index Prod.fst ((liveBodies bodies revoked).map fun body ↦
      (body.id, body.operation))).map Prod.snd).map Prod.fst).Nodup := by
    rw [map_key_index]
    exact nodup_map_fst_index _ _
  have hnodup : (stages.table.map Prod.fst).Nodup := by
    refine Py.collect_nodup Key.name hkeys ?_ htable
    intro entry hentry found hread
    obtain ⟨body, -, rfl⟩ := mem_index_bodies hentry
    rw [Py.always_eq_ok_iff, readParents_operation, Except.ok.injEq] at hread
    rw [← hread]
    rfl
  rw [Worklist.Step, Worklist.successors]
  constructor
  · intro hnext
    cases hlookup : stages.table.lookup (.text id) with
    | none =>
      rw [hlookup] at hnext
      exact absurd hnext List.not_mem_nil
    | some parents =>
      rw [hlookup, Option.getD_some] at hnext
      obtain ⟨body, hbody, hid, rfl⟩ := (hrow _ _).mp ((lookup_eq_some_iff_mem hnodup).mp hlookup)
      obtain ⟨parent, hparent, rfl⟩ := List.mem_map.mp hnext
      exact ⟨parent, rfl, body, hbody, (Key.text.inj hid).symm, hparent⟩
  · rintro ⟨parent, rfl, body, hbody, rfl, hparent⟩
    rw [(lookup_eq_some_iff_mem hnodup).mpr ((hrow _ _).mpr ⟨body, hbody, rfl, rfl⟩), Option.getD_some]
    exact List.mem_map.mpr ⟨parent, hparent, rfl⟩

theorem mem_ancestorsIn_iff (hids : Identified bodies) (id other : String) :
    Key.text other ∈ ancestorsIn stages.table id ↔
      Relation.TransGen (Follows (liveBodies bodies revoked)) id other := by
  rw [ancestorsIn, Worklist.mem_descendants_iff]
  constructor
  · intro h
    have hpath : ∀ key, Relation.TransGen (Worklist.Step stages.table) (.text id) key →
        ∃ name, key = .text name ∧ Relation.TransGen (Follows (liveBodies bodies revoked)) id name := by
      intro key hkey
      induction hkey with
      | single hstep =>
        obtain ⟨parent, rfl, hfollows⟩ := (step_table_iff stages hids id _).mp hstep
        exact ⟨parent, rfl, .single hfollows⟩
      | tail _ hstep ih =>
        obtain ⟨name, rfl, hpath⟩ := ih
        obtain ⟨parent, rfl, hfollows⟩ := (step_table_iff stages hids name _).mp hstep
        exact ⟨parent, rfl, hpath.tail hfollows⟩
    obtain ⟨name, hname, hpath⟩ := hpath _ h
    rw [Key.text.inj hname]
    exact hpath
  · intro h
    induction h with
    | single hfollows => exact .single ((step_table_iff stages hids _ _).mpr ⟨_, rfl, hfollows⟩)
    | tail _ hfollows ih => exact ih.tail ((step_table_iff stages hids _ _).mpr ⟨_, rfl, hfollows⟩)

/-! ## The report of one register -/

variable {entity field : String}

theorem mem_maximalPuts_iff {body : Body} :
    body ∈ maximalPuts bodies revoked entity field ↔ CausallyMaximal bodies revoked entity field body := by
  simp only [maximalPuts, List.mem_filter, decide_eq_true_eq]
  exact and_iff_right_of_imp fun h ↦ h.1

theorem AcyclicParents.live (h : AcyclicParents bodies) (id : String) :
    ¬Relation.TransGen (Follows (liveBodies bodies revoked)) id id := by
  intro hcycle
  refine h id (Relation.TransGen.mono ?_ id id hcycle)
  rintro first second ⟨body, hbody, hid, hparent⟩
  exact ⟨body, (List.mem_filter.mp hbody).1, hid, hparent⟩

theorem maximalPuts_ne_nil (hacyclic : AcyclicParents bodies) (hputs : putsOf bodies revoked entity field ≠ []) :
    maximalPuts bodies revoked entity field ≠ [] := by
  obtain ⟨start, hstart⟩ := List.exists_mem_of_ne_nil _ hputs
  let members := {body // body ∈ putsOf bodies revoked entity field}
  let newer : members → members → Prop := fun first second ↦
    Relation.TransGen (Follows (liveBodies bodies revoked)) first.1.id second.1.id
  have hfinite : Finite members := List.finite_toSet _
  have htrans : IsTrans members newer := ⟨fun _ _ _ ↦ Relation.TransGen.trans⟩
  have hirrefl : Std.Irrefl newer := ⟨fun body ↦ hacyclic.live body.1.id⟩
  obtain ⟨top, -, htop⟩ := (Finite.wellFounded_of_trans_of_irrefl newer).has_min Set.univ
    ⟨⟨start, hstart⟩, trivial⟩
  refine List.ne_nil_of_mem (mem_maximalPuts_iff.mpr ⟨top.2, ?_⟩)
  intro other hother
  exact htop ⟨other, hother⟩ trivial

theorem maximal_candidates (entity field : String) (hids : Identified bodies) (hacyclic : AcyclicParents bodies) :
    maximal (ancestorsIn stages.table) ((putsOf bodies revoked entity field).map fun body ↦ body.candidate runtime) =
      (maximalPuts bodies revoked entity field).map fun body ↦ body.candidate runtime := by
  rw [maximal_eq_of_irrefl, List.filter_map, maximalPuts]
  · congr 1
    apply List.filter_congr
    intro body hbody
    rw [Bool.eq_iff_iff]
    simp only [Function.comp_apply, Bool.not_eq_true', List.any_eq_false, decide_eq_true_eq, List.forall_mem_map]
    constructor
    · intro h
      refine ⟨hbody, fun other hother hpath ↦ h other hother ?_⟩
      exact (mem_ancestorsIn_iff stages hids other.id body.id).mpr hpath
    · intro h other hother hmem
      exact h.2 other hother ((mem_ancestorsIn_iff stages hids other.id body.id).mp hmem)
  · intro candidate hcandidate hmem
    obtain ⟨body, -, rfl⟩ := List.mem_map.mp hcandidate
    exact hacyclic.live body.id ((mem_ancestorsIn_iff stages hids body.id body.id).mp hmem)

/-- The values of the puts. -/
def putValues (bodies : List Body) : Set Json :=
  {value | ∃ body ∈ bodies, body.putValue? = some value}

theorem exists_value (runtime : Runtime) {body : Body} (h : body ∈ putsOf bodies revoked entity field) :
    ∃ value, body.putValue? = some value ∧ value ∈ putValues bodies ∧ Wirable value ∧ body.candidate runtime =
        ⟨body.id, body.robotId, value, runtime.sha256 (canonicalBytes value)⟩ := by
  obtain ⟨value, hvalue⟩ := Option.isSome_iff_exists.mp (isSome_of_mem_putsOf h).1
  have hmem : body ∈ bodies := (List.mem_filter.mp (List.mem_filter.mp h).1).1
  refine ⟨value, hvalue, ⟨body, hmem, hvalue⟩, ?_, ?_⟩
  · have hadmissible := body.effect_admissible
    unfold Body.putValue? at hvalue
    cases heffect : body.effect with
    | put found =>
      rw [heffect] at hvalue hadmissible
      rw [← Option.some.inj hvalue]
      exact hadmissible
    | _ =>
      rw [heffect] at hvalue
      cases hvalue
  · rw [Body.candidate, hvalue, Option.getD_some]

theorem same_iff_digest_eq (hvalues : Distinguishes runtime (putValues bodies)) {first second : Body}
    (hfirst : first ∈ putsOf bodies revoked entity field) (hsecond : second ∈ putsOf bodies revoked entity field) :
    (first.candidate runtime).digest = (second.candidate runtime).digest ↔
      (first.candidate runtime).value.Same (second.candidate runtime).value := by
  obtain ⟨value, -, hvalue, hwirable, hcandidate⟩ := exists_value runtime hfirst
  obtain ⟨other, -, hother, hwirable', hcandidate'⟩ := exists_value runtime hsecond
  rw [hcandidate, hcandidate']
  constructor
  · intro hdigest
    exact hvalues value hvalue other hother _ (digest_eq_ok_iff.mpr ⟨hwirable, rfl⟩)
      (digest_eq_ok_iff.mpr ⟨hwirable', hdigest.symm⟩)
  · intro hsame
    exact congrArg runtime.sha256 (canonicalBytes_congr hsame)

theorem agreed_iff_distinct (hvalues : Distinguishes runtime (putValues bodies)) :
    Agreed bodies revoked entity field ↔
      distinct ((maximalPuts bodies revoked entity field).map fun body ↦ body.candidate runtime) ≤ 1 := by
  have hput : ∀ body ∈ maximalPuts bodies revoked entity field,
      body ∈ putsOf bodies revoked entity field :=
    fun body hbody ↦ (mem_maximalPuts_iff.mp hbody).1
  constructor
  · intro hagreed
    rw [distinct, ← List.card_toFinset, Finset.card_le_one]
    simp only [List.map_map, List.mem_toFinset, List.forall_mem_map]
    intro first hfirst second hsecond
    obtain ⟨value, hvalue, -, -, hcandidate⟩ := exists_value runtime (hput first hfirst)
    obtain ⟨other, hother, -, -, hcandidate'⟩ := exists_value runtime (hput second hsecond)
    refine (same_iff_digest_eq hvalues (hput first hfirst) (hput second hsecond)).mpr ?_
    rw [hcandidate, hcandidate']
    exact hagreed first hfirst second hsecond value hvalue other hother
  · intro hdistinct first hfirst second hsecond value hvalue other hother
    obtain ⟨found, hfound, -, -, hcandidate⟩ := exists_value runtime (hput first hfirst)
    obtain ⟨found', hfound', -, -, hcandidate'⟩ := exists_value runtime (hput second hsecond)
    have hdigest := digest_eq_of_distinct_le_one hdistinct
      (List.mem_map.mpr ⟨first, hfirst, rfl⟩) (List.mem_map.mpr ⟨second, hsecond, rfl⟩)
    have hsame := (same_iff_digest_eq hvalues (hput first hfirst) (hput second hsecond)).mp hdigest
    rw [hcandidate, hcandidate'] at hsame
    rw [Option.mem_def, hfound, Option.some.injEq] at hvalue
    rw [Option.mem_def, hfound', Option.some.injEq] at hother
    rw [← hvalue, ← hother]
    exact hsame

theorem label_put {body : Body} (h : body ∈ putsOf bodies revoked entity field) :
    body.put.label = entity ++ "/" ++ field := by
  obtain ⟨-, hentity, hfield⟩ := isSome_of_mem_putsOf h
  rw [← hentity, ← hfield]
  rfl

/-- What a register is reported as. -/
inductive Reported (bodies : List Body) (revoked : List String) (entity field : String) :
    Report → Prop
  | value {value : Json} (agreed : Agreed bodies revoked entity field)
      (common : ∀ body ∈ maximalPuts bodies revoked entity field, ∀ own ∈ body.putValue?, own.Same value) :
      Reported bodies revoked entity field (.value (entity ++ "/" ++ field) value)
  | contradiction {values : List (String × Json)} (disagreed : ¬Agreed bodies revoked entity field)
      (exact : values.Perm ((maximalPuts bodies revoked entity field).map fun body ↦
        (body.robotId, body.putValue?.getD .null))) :
      Reported bodies revoked entity field (.contradiction ⟨.str entity, .str field, values⟩)

theorem reported (hids : Identified bodies) (hacyclic : AcyclicParents bodies)
    (hvalues : Distinguishes runtime (putValues bodies)) {first : Body} {rest : List Body}
    (hputs : putsOf bodies revoked entity field = first :: rest) :
    Reported bodies revoked entity field (reportOf (ancestorsIn stages.table) first.put
      ((first :: rest).map fun body ↦ body.candidate runtime)) := by
  have hfirst : first ∈ putsOf bodies revoked entity field := hputs ▸ List.mem_cons_self
  have hlabel := label_put hfirst
  have hmaximal := maximal_candidates stages entity field hids hacyclic
  rw [hputs] at hmaximal
  have hput : ∀ body ∈ maximalPuts bodies revoked entity field,
      body ∈ putsOf bodies revoked entity field :=
    fun body hbody ↦ (mem_maximalPuts_iff.mp hbody).1
  -- A value whose digest all maximal puts share is the common one.
  have hcommon : ∀ source ∈ putsOf bodies revoked entity field,
      (∀ body ∈ maximalPuts bodies revoked entity field,
        (body.candidate runtime).digest = (source.candidate runtime).digest) →
      ∀ body ∈ maximalPuts bodies revoked entity field, ∀ own ∈ body.putValue?,
        own.Same (source.candidate runtime).value := by
    intro source hsource hdigest body hbody own hown
    have hsame := (same_iff_digest_eq hvalues (hput body hbody) hsource).mp (hdigest body hbody)
    obtain ⟨value, hvalue, -, -, hcandidate⟩ := exists_value runtime (hput body hbody)
    rw [Option.mem_def, hvalue, Option.some.injEq] at hown
    rw [hcandidate] at hsame
    rw [← hown]
    exact hsame
  have hmem : ∀ body ∈ putsOf bodies revoked entity field, body.candidate runtime ∈
      (first :: rest).map fun body ↦ body.candidate runtime :=
    fun body hbody ↦ List.mem_map.mpr ⟨body, hputs ▸ hbody, rfl⟩
  unfold reportOf
  rw [hmaximal, hlabel]
  split_ifs with hall hone
  · have hagreed : Agreed bodies revoked entity field := by
      refine (agreed_iff_distinct hvalues).mpr ((distinct_mono ?_).trans hall)
      intro candidate hcandidate
      obtain ⟨body, hbody, rfl⟩ := List.mem_map.mp hcandidate
      exact hmem body (hput body hbody)
    refine .value hagreed (hcommon first hfirst ?_)
    intro body hbody
    exact digest_eq_of_distinct_le_one hall (hmem body (hput body hbody)) (hmem first hfirst)
  · obtain ⟨top, others, htop⟩ := List.exists_cons_of_ne_nil
      (maximalPuts_ne_nil hacyclic (List.ne_nil_of_mem hfirst))
    have htopMem : top ∈ maximalPuts bodies revoked entity field := htop ▸ List.mem_cons_self
    have hhead : ((((maximalPuts bodies revoked entity field).map fun body ↦
        body.candidate runtime).head?.map Candidate.value).getD .null) =
        (top.candidate runtime).value := by
      rw [htop]
      rfl
    rw [hhead]
    refine .value ((agreed_iff_distinct hvalues).mpr hone.le) (hcommon top (hput top htopMem) ?_)
    intro body hbody
    exact digest_eq_of_distinct_le_one hone.le (List.mem_map.mpr ⟨body, hbody, rfl⟩)
      (List.mem_map.mpr ⟨top, htopMem, rfl⟩)
  · have hdisagreed : ¬Agreed bodies revoked entity field := by
      intro hagreed
      have hle := (agreed_iff_distinct hvalues).mp hagreed
      have hpos : 0 < distinct ((maximalPuts bodies revoked entity field).map fun body ↦
          body.candidate runtime) := by
        apply distinct_pos
        rw [Ne, List.map_eq_nil_iff]
        exact maximalPuts_ne_nil hacyclic (List.ne_nil_of_mem hfirst)
      omega
    obtain ⟨-, hentity, hfield⟩ := isSome_of_mem_putsOf hfirst
    rw [← hentity, ← hfield] at hdisagreed ⊢
    refine .contradiction hdisagreed (((sortBy_perm _ _).map _).trans ?_)
    rw [List.map_map]
    exact List.Perm.refl _

/-! ## The view -/

theorem lookup_registersOf {reports : List Report} {label : String} {value : Json}
    (hmem : Report.value label value ∈ reports)
    (hunique : ∀ other, Report.value label other ∈ reports → other = value) :
    (registersOf reports).lookup label = some value := by
  induction reports using List.reverseRecOn with
  | nil => exact absurd hmem List.not_mem_nil
  | append_singleton reports report ih =>
    rw [registersOf, List.foldl_append]
    change (setRegister (registersOf reports) report).lookup label = some value
    have hrest : Report.value label value ∈ reports →
        (registersOf reports).lookup label = some value := fun h ↦
      ih h fun other hother ↦ hunique other (List.mem_append_left _ hother)
    cases report with
    | contradiction contradiction =>
      refine hrest ((List.mem_append.mp hmem).resolve_right ?_)
      simp
    | value name found =>
      rw [setRegister]
      rcases eq_or_ne label name with rfl | hne
      · rw [Json.lookup_setField_self, hunique found (by simp)]
      · rw [Json.lookup_setField_of_ne _ hne]
        refine hrest ((List.mem_append.mp hmem).resolve_right ?_)
        simp [hne]

theorem mem_contradictionsOf_iff {reports : List Report} {contradiction : Contradiction} :
    contradiction ∈ contradictionsOf reports ↔ Report.contradiction contradiction ∈ reports := by
  unfold contradictionsOf
  rw [List.mem_filterMap]
  constructor
  · rintro ⟨report, hreport, hfound⟩
    cases report with
    | value label value => cases hfound
    | contradiction found =>
      cases hfound
      exact hreport
  · intro h
    exact ⟨_, h, rfl⟩

/-- A register under a text of its own, with the common value of its maximal puts. -/
def StoredIn (view : View) (bodies : List Body) (revoked : List String) (entity field : String) :
    Prop :=
  ∃ value, view.registers.lookup (entity ++ "/" ++ field) = some value ∧
    (∀ body ∈ maximalPuts bodies revoked entity field, ∀ own ∈ body.putValue?, own.Same value) ∧
    ∀ site name, putsOf bodies revoked site name ≠ [] → Agreed bodies revoked site name →
      site ++ "/" ++ name = entity ++ "/" ++ field → site = entity ∧ name = field

/-- A register reported as a contradiction of exactly its maximal puts. -/
def ContradictedIn (view : View) (bodies : List Body) (revoked : List String)
    (entity field : String) : Prop :=
  ∃ contradiction ∈ view.contradictions, contradiction.entity = .str entity ∧
    contradiction.field = .str field ∧
    contradiction.values.Perm ((maximalPuts bodies revoked entity field).map fun body ↦
      (body.robotId, body.putValue?.getD .null))

/-- The registers whose maximal puts agree have different texts. -/
def DistinctTexts (bodies : List Body) (revoked : List String) : Prop :=
  ∀ entity field site name, putsOf bodies revoked entity field ≠ [] →
    putsOf bodies revoked site name ≠ [] → Agreed bodies revoked entity field →
    Agreed bodies revoked site name → site ++ "/" ++ name = entity ++ "/" ++ field →
    site = entity ∧ name = field

theorem reported_of_mem (hids : Identified bodies) (hacyclic : AcyclicParents bodies)
    (hvalues : Distinguishes runtime (putValues bodies)) {report : Report} (h : report ∈ stages.reports) :
    ∃ entity field, putsOf bodies revoked entity field ≠ [] ∧ Reported bodies revoked entity field report := by
  obtain ⟨entity, field, first, rest, hputs, rfl⟩ := (mem_reports_iff stages report).mp h
  exact ⟨entity, field, hputs ▸ List.cons_ne_nil _ _, reported stages hids hacyclic hvalues hputs⟩

theorem not_contradictedIn (hids : Identified bodies) (hacyclic : AcyclicParents bodies)
    (hvalues : Distinguishes runtime (putValues bodies)) (hagreed : Agreed bodies revoked entity field) :
    ¬ContradictedIn stages.view bodies revoked entity field := by
  rintro ⟨contradiction, hmem, hentity, hfield, -⟩
  obtain ⟨site, name, -, hreported⟩ := reported_of_mem stages hids hacyclic hvalues
    (mem_contradictionsOf_iff.mp hmem)
  cases hreported with
  | contradiction hdisagreed _ =>
    cases hentity
    cases hfield
    exact hdisagreed hagreed

theorem storedIn (hids : Identified bodies) (hacyclic : AcyclicParents bodies)
    (hvalues : Distinguishes runtime (putValues bodies)) (htexts : DistinctTexts bodies revoked)
    (hputs : putsOf bodies revoked entity field ≠ []) (hagreed : Agreed bodies revoked entity field) :
    StoredIn stages.view bodies revoked entity field := by
  obtain ⟨first, rest, hcons⟩ := List.exists_cons_of_ne_nil hputs
  have hreport := reported stages hids hacyclic hvalues hcons
  have hmem := (mem_reports_iff stages _).mpr ⟨entity, field, first, rest, hcons, rfl⟩
  generalize hname : reportOf (ancestorsIn stages.table) first.put
    ((first :: rest).map fun body ↦ body.candidate runtime) = report at hreport hmem
  cases hreport with
  | contradiction hdisagreed _ => exact absurd hagreed hdisagreed
  | @value value _ hcommon =>
    refine ⟨value, lookup_registersOf hmem ?_, hcommon, ?_⟩
    · intro other hother
      obtain ⟨site, name, head, tail, hother, heq⟩ := (mem_reports_iff stages _).mp hother
      have hreport := reported stages hids hacyclic hvalues hother
      rw [← heq] at hreport
      -- The other register is stored under the same text, so it is this one.
      obtain ⟨hsite, hfield⟩ : site = entity ∧ name = field := by
        generalize htext : entity ++ "/" ++ field = text at hreport
        cases hreport with
        | value hagreed' _ =>
          exact htexts entity field site name hputs (hother ▸ List.cons_ne_nil _ _) hagreed hagreed'
            htext.symm
      rw [hsite, hfield, hcons, List.cons.injEq] at hother
      rw [← hother.1, ← hother.2, hname, Report.value.injEq] at heq
      exact heq.2
    · intro site name hne hother htext
      exact htexts entity field site name hputs hne hagreed hother htext

theorem contradictedIn (hids : Identified bodies) (hacyclic : AcyclicParents bodies)
    (hvalues : Distinguishes runtime (putValues bodies)) (hputs : putsOf bodies revoked entity field ≠ [])
    (hdisagreed : ¬Agreed bodies revoked entity field) :
    ContradictedIn stages.view bodies revoked entity field := by
  obtain ⟨first, rest, hcons⟩ := List.exists_cons_of_ne_nil hputs
  have hreport := reported stages hids hacyclic hvalues hcons
  have hmem := (mem_reports_iff stages _).mpr ⟨entity, field, first, rest, hcons, rfl⟩
  generalize reportOf (ancestorsIn stages.table) first.put
    ((first :: rest).map fun body ↦ body.candidate runtime) = report at hreport hmem
  cases hreport with
  | value hagreed _ => exact absurd hagreed hdisagreed
  | contradiction _ hexact => exact ⟨_, mem_contradictionsOf_iff.mpr hmem, rfl, rfl, hexact⟩

end Reports

theorem StoredIn.agreed {view : View} {entity field : String}
    (h : StoredIn view bodies revoked entity field) : Agreed bodies revoked entity field := by
  obtain ⟨common, -, hcommon, -⟩ := h
  intro first hfirst second hsecond value hvalue other hother
  exact (hcommon first hfirst value hvalue).trans (hcommon second hsecond other hother).symm

/-- `merge_views` keeps every live register exactly when the texts differ. -/
theorem mergeViews_keeps_registers (hids : Identified bodies) (hacyclic : AcyclicParents bodies)
    (hvalues : Distinguishes runtime (putValues bodies)) :
    (∃ view, mergeViews runtime (bodies.map Body.operation) revoked = .ok view ∧
      ∀ entity field, putsOf bodies revoked entity field ≠ [] → Xor (StoredIn view bodies revoked entity field)
          (ContradictedIn view bodies revoked entity field)) ↔ DistinctTexts bodies revoked := by
  obtain ⟨stages⟩ := exists_stages runtime bodies revoked
  have hview : ∀ view, mergeViews runtime (bodies.map Body.operation) revoked = .ok view ↔
      view = stages.view := by
    intro view
    rw [mergeViews_eq_ok_iff.mpr ⟨stages, rfl⟩, Except.ok.injEq, eq_comm]
  simp only [hview, exists_eq_left]
  constructor
  · intro hkept entity field site name hputs hputs' hagreed hagreed' htext
    rcases hkept entity field hputs with ⟨⟨_, _, _, hunique⟩, -⟩ | ⟨hcontradicted, -⟩
    · exact hunique site name hputs' hagreed' htext
    · exact absurd hcontradicted (not_contradictedIn stages hids hacyclic hvalues hagreed)
  · intro htexts entity field hputs
    by_cases hagreed : Agreed bodies revoked entity field
    · exact .inl ⟨storedIn stages hids hacyclic hvalues htexts hputs hagreed,
        not_contradictedIn stages hids hacyclic hvalues hagreed⟩
    · exact .inr ⟨contradictedIn stages hids hacyclic hvalues hputs hagreed,
        fun hstored ↦ hagreed hstored.agreed⟩

namespace Sample

def plainPut (entity field id : String) (value : ℤ) (value_fits : fits (.int value) = true)
    (entity_text : text entity "site entity" 128 = .ok entity)
    (field_text : text field "register field" 128 = .ok field) : Body where
  robotId := "r"
  counter := 1
  entity := entity
  field := field
  parents := []
  safety := false
  effect := .put (.int value)
  id := id
  robotId_text := by decide +kernel
  entity_text := entity_text
  field_text := field_text
  effect_admissible := wirable_of_fits value_fits

def separate : List Body :=
  [plainPut "a" "f" "109" 0 (by decide +kernel) (by decide +kernel) (by decide +kernel),
    plainPut "b" "f" "110" 10 (by decide +kernel) (by decide +kernel) (by decide +kernel)]

def lost : Body :=
  plainPut "a" "b/c" "109" 0 (by decide +kernel) (by decide +kernel) (by decide +kernel)

def kept : Body :=
  plainPut "a/b" "c" "110" 10 (by decide +kernel) (by decide +kernel) (by decide +kernel)

theorem acyclic_of_plain {bodies : List Body} (h : ∀ body ∈ bodies, body.parents = []) :
    AcyclicParents bodies := by
  intro id hcycle
  obtain ⟨parent, ⟨body, hbody, -, hparent⟩, -⟩ := Relation.TransGen.head'_iff.mp hcycle
  rw [h body hbody] at hparent
  exact absurd hparent List.not_mem_nil

theorem distinguishes_plain {bodies : List Body}
    (h : ∀ body ∈ bodies, body.putValue? = some (.int 0) ∨ body.putValue? = some (.int 10)) :
    Distinguishes Sample.runtime (putValues bodies) := by
  have hzero : digest Sample.runtime (.int 0) = .ok "1" := digest_zero
  have hten : digest Sample.runtime (.int 10) = .ok "2" := digest_eq sized.2.2.2 (by decide)
  rintro a ⟨body, hbody, ha⟩ b ⟨other, hother, hb⟩ text hfirst hsecond
  rcases h body hbody with hvalue | hvalue <;> rcases h other hother with hvalue' | hvalue' <;>
    rw [hvalue, Option.some.injEq] at ha <;> rw [hvalue', Option.some.injEq] at hb <;>
    rw [← ha] at hfirst ⊢ <;> rw [← hb] at hsecond ⊢
  · exact Json.Same.refl _
  · exact absurd (hzero.symm.trans (hfirst.trans (hsecond.symm.trans hten))) (by simp)
  · exact absurd (hten.symm.trans (hfirst.trans (hsecond.symm.trans hzero))) (by simp)
  · exact Json.Same.refl _

theorem identified_pair {first second : Body} (hne : first.id ≠ second.id) :
    Identified [first, second] := by
  intro body hbody other hother hid
  simp only [List.mem_cons, List.not_mem_nil, or_false] at hbody hother
  rcases hbody with rfl | rfl <;> rcases hother with rfl | rfl
  · rfl
  · exact absurd hid hne
  · exact absurd hid.symm hne
  · rfl

theorem mem_maximalPuts_of_plain {bodies : List Body} (h : ∀ body ∈ bodies, body.parents = [])
    {body : Body} {entity field : String} (hbody : body ∈ putsOf bodies [] entity field) :
    body ∈ maximalPuts bodies [] entity field := by
  refine mem_maximalPuts_iff.mpr ⟨hbody, ?_⟩
  intro other hother hpath
  obtain ⟨parent, ⟨child, hchild, -, hparent⟩, -⟩ := Relation.TransGen.head'_iff.mp hpath
  rw [h child (List.mem_filter.mp hchild).1] at hparent
  exact absurd hparent List.not_mem_nil

theorem putsOf_lost : putsOf [lost, kept] [] "a" "b/c" = [lost] := by
  simp [putsOf, liveBodies, lost, kept, plainPut, Body.putValue?]

theorem putsOf_kept : putsOf [lost, kept] [] "a/b" "c" = [kept] := by
  simp [putsOf, liveBodies, lost, kept, plainPut, Body.putValue?]

theorem agreed_of_putsOf_eq {bodies : List Body} {entity field : String} {body : Body}
    (h : putsOf bodies [] entity field = [body]) : Agreed bodies [] entity field := by
  have honly : ∀ other ∈ maximalPuts bodies [] entity field, other = body := by
    intro other hother
    have hput := (mem_maximalPuts_iff.mp hother).1
    rw [h] at hput
    exact List.mem_singleton.mp hput
  intro first hfirst second hsecond value hvalue other hother
  rw [honly first hfirst, Option.mem_def] at hvalue
  rw [honly second hsecond, Option.mem_def, hvalue, Option.some.injEq] at hother
  rw [hother]
  exact Json.Same.refl _

end Sample

/-- The hypotheses of `mergeViews_keeps_registers` at two registers. -/
theorem mergeViews_keeps_separate :
    ∃ view, mergeViews Sample.runtime (Sample.separate.map Body.operation) [] = .ok view ∧
      ∀ entity field, putsOf Sample.separate [] entity field ≠ [] →
        Xor (StoredIn view Sample.separate [] entity field)
          (ContradictedIn view Sample.separate [] entity field) := by
  refine (mergeViews_keeps_registers (Sample.identified_pair (by decide))
    (Sample.acyclic_of_plain ?_) (Sample.distinguishes_plain ?_)).mpr ?_
  · simp [Sample.plainPut]
  · simp [Sample.plainPut, Body.putValue?]
  · have hregister : ∀ entity field, putsOf Sample.separate [] entity field ≠ [] →
        (entity = "a" ∨ entity = "b") ∧ field = "f" := by
      intro entity field hputs
      obtain ⟨body, hbody⟩ := List.exists_mem_of_ne_nil _ hputs
      simp only [putsOf, liveBodies, Sample.separate, Sample.plainPut, List.mem_filter,
        List.mem_cons, List.not_mem_nil, or_false, decide_eq_true_eq] at hbody
      obtain ⟨⟨rfl | rfl, -⟩, -, rfl, rfl⟩ := hbody <;> simp
    intro entity field site name hputs hputs' _ _ htext
    obtain ⟨rfl | rfl, rfl⟩ := hregister entity field hputs <;>
      obtain ⟨rfl | rfl, rfl⟩ := hregister site name hputs' <;> revert htext <;> decide

/-- The register `b/c` of `a` and the register `c` of `a/b` are stored under one text. -/
theorem mergeViews_loses_register :
    ∃ bodies, bodies = [Sample.lost, Sample.kept] ∧ Identified bodies ∧ AcyclicParents bodies ∧
      Distinguishes Sample.runtime (putValues bodies) ∧
      putsOf bodies [] "a" "b/c" = [Sample.lost] ∧ putsOf bodies [] "a/b" "c" = [Sample.kept] ∧
      ¬∃ view, mergeViews Sample.runtime (bodies.map Body.operation) [] = .ok view ∧
        ∀ entity field, putsOf bodies [] entity field ≠ [] →
          Xor (StoredIn view bodies [] entity field) (ContradictedIn view bodies [] entity field) := by
  have hids : Identified [Sample.lost, Sample.kept] := Sample.identified_pair (by decide)
  have hplain : ∀ body ∈ [Sample.lost, Sample.kept], body.parents = [] := by
    simp [Sample.lost, Sample.kept, Sample.plainPut]
  have hacyclic := Sample.acyclic_of_plain hplain
  have hvalues : Distinguishes Sample.runtime (putValues [Sample.lost, Sample.kept]) := by
    apply Sample.distinguishes_plain
    simp [Sample.lost, Sample.kept, Sample.plainPut, Body.putValue?]
  refine ⟨_, rfl, hids, hacyclic, hvalues, Sample.putsOf_lost, Sample.putsOf_kept, ?_⟩
  rintro ⟨view, hview, hkept⟩
  obtain ⟨stages, rfl⟩ := mergeViews_eq_ok_iff.mp hview
  have hstored : ∀ entity field body, putsOf [Sample.lost, Sample.kept] [] entity field = [body] →
      ∃ value, stages.view.registers.lookup (entity ++ "/" ++ field) = some value ∧
        ∀ own ∈ body.putValue?, own.Same value := by
    intro entity field body hputs
    have hagreed := Sample.agreed_of_putsOf_eq hputs
    rcases hkept entity field (hputs ▸ List.cons_ne_nil _ _) with ⟨hstored, -⟩ | ⟨hcontradicted, -⟩
    · obtain ⟨value, hlookup, hcommon, -⟩ := hstored
      refine ⟨value, hlookup, hcommon body (Sample.mem_maximalPuts_of_plain hplain ?_)⟩
      rw [hputs]
      exact List.mem_singleton_self _
    · exact absurd hcontradicted (not_contradictedIn stages hids hacyclic hvalues hagreed)
  obtain ⟨value, hvalue, hlost⟩ := hstored _ _ _ Sample.putsOf_lost
  obtain ⟨other, hother, hkept⟩ := hstored _ _ _ Sample.putsOf_kept
  have hone : value = other := Option.some.inj (hvalue.symm.trans hother)
  have hsame : (Json.int 0).Same (.int 10) :=
    (hlost _ rfl).trans (hone ▸ (hkept _ rfl).symm)
  simp [Json.Same, Json.sortKeys] at hsame

end UniMem.MeshCrdt
