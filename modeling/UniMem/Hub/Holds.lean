import UniMem.Hub.Retention
import UniMem.Library.Separated

/-!
# What a purge deletes

A plan names the rows that a policy matches and no hold covers. A purge deletes these rows, and with a trace its
votes, whatever hold or policy there is for them. A digest tells the plans apart that name different rows.
-/

namespace UniMem.Hub.Retention

open Library

variable {runtime : Runtime} {database next : Database} {orgId : String} {moment : ℤ} {row : Row}

/-- The name of a row's type. -/
def objectType : Row → String
  | .trace _ => "trace"
  | .vote _ => "vote"
  | .holdoutObservation _ => "holdout_observation"
  | .knowledgeBaseSubmission _ => "kb_submission"
  | .auditLogEntry _ => "audit_log"

/-- Whether an active hold freezes a row. -/
def Covered (database : Database) (row : Row) : Prop :=
  ∃ hold ∈ database.holds, hold.releasedAt = none ∧ row.orgId = some hold.orgId ∧
    (hold.objectType = "" ∨ hold.objectType = objectType row) ∧ (hold.targetId = "" ∨ hold.targetId = row.id)

/-- An active hold freezes everything of the organization that owns the trace. -/
def CoveredRelation (database : Database) (relation : TraceRelation) : Prop :=
  ∃ trace ∈ database.traces, trace.id = relation.traceId ∧
    ∃ hold ∈ database.holds, hold.releasedAt = none ∧ hold.orgId = trace.orgId ∧ hold.objectType = "" ∧
      hold.targetId = ""

/-- Whether a row has a status. -/
def HasStatus (row : Row) (status : String) : Prop :=
  status = statusAny ∨
    ∃ kind ∈ kinds, kind.name = objectType row ∧ ∃ condition, kind.statuses.lookup status = some condition ∧
      condition row = true

/-- A policy matches the row, and no hold and no experiment keeps it. -/
structure Expires (database : Database) (orgId : String) (moment : ℤ) (row : Row) : Prop where
  stored : database.Stores row
  owned : row.orgId = some orgId
  unheld : ¬Covered database row
  outside : objectType row = "holdout_observation" → experimentRunning database orgId = false
  matched : ∃ policy ∈ database.policies, policy.orgId = orgId ∧ policy.objectType = objectType row ∧
    HasStatus row policy.status ∧ row.createdAt < moment - policy.maxAgeDays * day

/-- Whether some buckets name the row of a type and an id. -/
def Names (buckets : List Bucket) (objectType id : String) : Prop :=
  ∃ bucket ∈ buckets, bucket.blocked = "" ∧ bucket.objectType = objectType ∧ id ∈ bucket.doomed

/-- Whether a plan names a row. -/
def Named (plan : PurgePlan) (row : Row) : Prop := Names plan.buckets (objectType row) row.id

/-- A text that a digest can be read back from. -/
def Identifier (text : String) : Prop := text ≠ "" ∧ ',' ∉ text.toList ∧ '\x1f' ∉ text.toList

/-- Ids are primary keys and UUIDs, and a relation stays in one organization. -/
structure Consistent (database : Database) : Prop where
  keys : ∀ model, ((database.table model).map Row.id).Nodup
  identifiers : ∀ row, database.Stores row → Identifier row.id
  related : ∀ relation ∈ database.relations, ∀ trace ∈ database.traces, ∀ other ∈ database.traces,
    trace.id = relation.traceId → other.id = relation.relatedTraceId → trace.orgId = other.orgId

variable {kind : ObjectKind} {status id type : String} {condition : Row → Bool} {first second : PurgePlan}
  {buckets : List Bucket}

theorem kindOf_eq_some_iff {name : String} :
    kindOf name = some kind ↔ kind ∈ kinds ∧ kind.name = name := by
  have hnodup : (kinds.map ObjectKind.name).Nodup := by decide
  constructor
  · intro h
    exact ⟨List.mem_of_find?_eq_some h, by simpa using List.find?_some h⟩
  · rintro ⟨hmem, rfl⟩
    cases hfind : kindOf kind.name with
    | none => exact absurd (List.find?_eq_none.mp hfind kind hmem) (by simp)
    | some other =>
      have hother := List.mem_of_find?_eq_some hfind
      have hname : other.name = kind.name := by simpa using List.find?_some hfind
      rw [List.inj_on_of_nodup_map hnodup hother hmem hname]

theorem objectType_eq_iff (h : kind ∈ kinds) :
    objectType row = kind.name ↔ row.model = kind.model := by
  simp only [kinds, List.mem_cons, List.not_mem_nil, or_false] at h
  obtain rfl | rfl | rfl | rfl | rfl := h <;> cases row <;> simp [objectType, Row.model]

theorem eq_trace_of_objectType (h : objectType row = "trace") : ∃ trace, row = .trace trace := by
  cases row with
  | trace trace => exact ⟨trace, rfl⟩
  | _ => simp [objectType] at h

theorem kind_of_row (row : Row) : ∃ kind ∈ kinds, kind.name = objectType row := by
  cases row <;> simp [kinds, objectType]

theorem legible_of_mem_kinds (h : kind ∈ kinds) :
    '/' ∉ kind.name.toList ∧ '\x1f' ∉ kind.name.toList ∧
      ∀ status ∈ statusAny :: kind.statuses.map Prod.fst, ':' ∉ status.toList ∧ '\x1f' ∉ status.toList := by
  simp only [kinds, List.mem_cons, List.not_mem_nil, or_false] at h
  obtain rfl | rfl | rfl | rfl | rfl := h <;> decide

theorem mem_activeHolds {hold : LegalHold} :
    hold ∈ activeHolds database orgId ↔ hold ∈ database.holds ∧ hold.orgId = orgId ∧ hold.releasedAt = none := by
  simp [activeHolds]

theorem not_covered_iff (howned : row.orgId = some orgId) (hkind : objectType row = kind.name) :
    ¬Covered database row ↔ (holdsForKind (activeHolds database orgId) kind).1 = [] ∧
        row.id ∉ (holdsForKind (activeHolds database orgId) kind).2.map LegalHold.targetId := by
  simp only [holdsForKind, List.filter_eq_nil_iff, List.mem_filter, mem_activeHolds, List.mem_map, Bool.or_eq_true,
    decide_eq_true_eq, Covered, howned, hkind, Option.some.injEq]
  constructor
  · intro h
    constructor
    · rintro hold ⟨⟨hmem, rfl, hactive⟩, htype⟩ hblanket
      exact h ⟨hold, hmem, hactive, rfl, htype, Or.inl hblanket⟩
    · rintro ⟨hold, ⟨⟨⟨hmem, rfl, hactive⟩, htype⟩, -⟩, htarget⟩
      exact h ⟨hold, hmem, hactive, rfl, htype, Or.inr htarget⟩
  · rintro ⟨hblanket, htargeted⟩ ⟨hold, hmem, hactive, rfl, htype, htarget⟩
    by_cases hempty : hold.targetId = ""
    · exact hblanket hold ⟨⟨hmem, rfl, hactive⟩, htype⟩ hempty
    · exact htargeted ⟨hold, ⟨⟨⟨hmem, rfl, hactive⟩, htype⟩, hempty⟩, htarget.resolve_left hempty⟩

theorem statusCondition_cases (h : statusCondition kind status = .ok condition) :
    status ∈ statusAny :: kind.statuses.map Prod.fst ∧ ∀ row, condition row = true ↔
        status = statusAny ∨ ∃ other, kind.statuses.lookup status = some other ∧ other row = true := by
  unfold statusCondition at h
  by_cases hany : status = statusAny
  · rw [if_pos hany] at h
    obtain rfl := Except.ok.inj h
    exact ⟨hany ▸ List.mem_cons_self, by simp [hany]⟩
  · rw [if_neg hany] at h
    split at h
    · next other hlookup =>
      obtain rfl := Except.ok.inj h
      refine ⟨List.mem_cons_of_mem _ (List.mem_map.mpr ⟨_, mem_of_lookup hlookup, rfl⟩), fun row ↦ ?_⟩
      simp [hany, hlookup]
    · cases h

/-- What a bucket that is not blocked says. -/
structure Planned (database : Database) (orgId : String) (moment : ℤ) (policy : RetentionPolicy) (bucket : Bucket) :
    Prop where
  objectType : bucket.objectType = policy.objectType
  status : bucket.status = policy.status
  kind : ∃ kind ∈ kinds, kind.name = policy.objectType ∧ policy.status ∈ statusAny :: kind.statuses.map Prod.fst
  doomed : ∀ id, id ∈ bucket.doomed ↔ ∃ row, database.Stores row ∧ Retention.objectType row = policy.objectType ∧
    row.id = id ∧ row.orgId = some orgId ∧ row.createdAt < moment - policy.maxAgeDays * day ∧
    HasStatus row policy.status ∧ ¬Covered database row ∧
    (Retention.objectType row = "holdout_observation" → experimentRunning database orgId = false)

theorem mem_matchedIds {cutoff : ℤ} :
    id ∈ matchedIds database orgId cutoff kind condition ↔
      ∃ row ∈ database.table kind.model, row.id = id ∧ row.orgId = some orgId ∧ row.createdAt < cutoff ∧
        condition row = true := by
  simp only [matchedIds, List.mem_map, List.mem_filter, Bool.and_eq_true, decide_eq_true_eq]
  constructor
  · rintro ⟨row, ⟨hmem, ⟨howned, hage⟩, hcondition⟩, rfl⟩
    exact ⟨row, hmem, rfl, howned, hage, hcondition⟩
  · rintro ⟨row, hmem, rfl, howned, hage, hcondition⟩
    exact ⟨row, ⟨hmem, ⟨howned, hage⟩, hcondition⟩, rfl⟩

theorem hasStatus_iff (hkind : kind ∈ kinds) (hname : objectType row = kind.name) :
    HasStatus row status ↔
      status = statusAny ∨ ∃ condition, kind.statuses.lookup status = some condition ∧ condition row = true := by
  unfold HasStatus
  constructor
  · rintro (hany | ⟨other, hother, heq, hcondition⟩)
    · exact Or.inl hany
    · have hnodup : (kinds.map ObjectKind.name).Nodup := by decide
      obtain rfl := List.inj_on_of_nodup_map hnodup hother hkind (heq.trans hname)
      exact Or.inr hcondition
  · rintro (hany | hcondition)
    · exact Or.inl hany
    · exact Or.inr ⟨kind, hkind, hname.symm, hcondition⟩

theorem stores_iff_mem_table (hkind : kind ∈ kinds) :
    row ∈ database.table kind.model ↔ database.Stores row ∧ objectType row = kind.name := by
  rw [objectType_eq_iff hkind]
  constructor
  · intro hmem
    have hmodel := Database.model_of_mem_table hmem
    exact ⟨by rw [Database.Stores, hmodel]; exact hmem, hmodel⟩
  · rintro ⟨hstored, hmodel⟩
    exact hmodel ▸ hstored

variable {bucket : Bucket}

theorem planned_of_bucketFor {policy : RetentionPolicy} (h : bucketFor database orgId moment policy = .ok bucket)
    (hblocked : bucket.blocked = "") :
    Planned database orgId moment policy bucket := by
  unfold bucketFor at h
  split at h
  · obtain rfl := Except.ok.inj h
    exact absurd (congrArg (fun text ↦ text.toList.length) hblocked) (by simp)
  · next kind hfind =>
    obtain ⟨hkind, hname⟩ := kindOf_eq_some_iff.mp hfind
    by_cases hrunning : kind.name = "holdout_observation" ∧ experimentRunning database orgId = true
    · rw [if_pos hrunning] at h
      obtain rfl := Except.ok.inj h
      exact absurd hblocked (by decide : blockedExperimentRunning ≠ "")
    · rw [if_neg hrunning] at h
      obtain ⟨condition, hcondition, h⟩ := Py.of_bind h
      obtain ⟨hstatus, hcondition⟩ := statusCondition_cases hcondition
      have houtside : ∀ row, objectType row = kind.name → objectType row = "holdout_observation" →
          experimentRunning database orgId = false := by
        intro row hrow hobservation
        by_contra hne
        exact hrunning ⟨hrow ▸ hobservation, by simpa using hne⟩
      dsimp only at h
      split_ifs at h with hblanket
      · obtain rfl := Except.ok.inj h
        refine ⟨hname, rfl, ⟨kind, hkind, hname, hstatus⟩, fun id ↦ ?_⟩
        rw [mem_sortBy, List.mem_filter, mem_matchedIds, decide_eq_true_eq, ← hname]
        constructor
        · rintro ⟨⟨row, hmem, rfl, howned, hage, hmatches⟩, hfree⟩
          obtain ⟨hstored, hrow⟩ := (stores_iff_mem_table hkind).mp hmem
          exact ⟨row, hstored, hrow, rfl, howned, hage, (hasStatus_iff hkind hrow).mpr ((hcondition row).mp hmatches),
            (not_covered_iff howned hrow).mpr ⟨hblanket, hfree⟩, houtside row hrow⟩
        · rintro ⟨row, hstored, hrow, rfl, howned, hage, hmatches, hfree, -⟩
          exact ⟨⟨row, (stores_iff_mem_table hkind).mpr ⟨hstored, hrow⟩, rfl, howned, hage,
            (hcondition row).mpr ((hasStatus_iff hkind hrow).mp hmatches)⟩,
            ((not_covered_iff howned hrow).mp hfree).2⟩
      · obtain rfl := Except.ok.inj h
        refine ⟨hname, rfl, ⟨kind, hkind, hname, hstatus⟩, fun id ↦ ⟨fun hmem ↦ absurd hmem List.not_mem_nil, ?_⟩⟩
        rintro ⟨row, -, hrow, -, howned, -, -, hfree, -⟩
        exact absurd ((not_covered_iff howned (hrow.trans hname.symm)).mp hfree).1 hblanket

theorem mem_policiesFor {policy : RetentionPolicy} :
    policy ∈ policiesFor database orgId ↔ policy ∈ database.policies ∧ policy.orgId = orgId := by
  simp [policiesFor, mem_sortBy]

theorem buckets_of_plan {plan : PurgePlan} (h : Retention.plan database orgId moment = .ok plan) :
    plan.orgId = orgId ∧ List.Forall₂ (fun policy bucket ↦ bucketFor database orgId moment policy = .ok bucket)
      (policiesFor database orgId) plan.buckets := by
  obtain ⟨buckets, hbuckets, h⟩ := Py.of_bind h
  obtain rfl := Except.ok.inj h
  exact ⟨rfl, Py.collect_always_eq_ok_iff.mp hbuckets⟩

theorem planned_of_mem {plan : PurgePlan} (h : Retention.plan database orgId moment = .ok plan)
    (hmem : bucket ∈ plan.buckets) (hblocked : bucket.blocked = "") :
    ∃ policy ∈ database.policies, policy.orgId = orgId ∧ Planned database orgId moment policy bucket := by
  obtain ⟨-, hforall⟩ := buckets_of_plan h
  obtain ⟨policy, hpolicy, hbucket⟩ := exists_of_mem_forall₂ hforall.flip hmem
  obtain ⟨hpolicy, hown⟩ := mem_policiesFor.mp hpolicy
  exact ⟨policy, hpolicy, hown, planned_of_bucketFor hbucket hblocked⟩

theorem named_iff_expires (hconsistent : Consistent database) {plan : PurgePlan}
    (h : Retention.plan database orgId moment = .ok plan) (hstored : database.Stores row) :
    Named plan row ↔ Expires database orgId moment row := by
  constructor
  · rintro ⟨bucket, hmem, hblocked, htype, hdoomed⟩
    obtain ⟨policy, hpolicy, hown, hplanned⟩ := planned_of_mem h hmem hblocked
    obtain ⟨other, hother, hsame, hid, howned, hage, hstatus, hfree, houtside⟩ := (hplanned.doomed row.id).mp hdoomed
    have hmodel : objectType other = objectType row := hsame.trans (hplanned.objectType.symm.trans htype)
    obtain ⟨kind, hkind, hname⟩ := kind_of_row row
    have hrow := (stores_iff_mem_table hkind).mpr ⟨hstored, hname.symm⟩
    have hother := (stores_iff_mem_table hkind).mpr ⟨hother, hmodel.trans hname.symm⟩
    obtain rfl := List.inj_on_of_nodup_map (hconsistent.keys kind.model) hother hrow hid
    exact ⟨hstored, howned, hfree, houtside, policy, hpolicy, hown, hsame.symm, hstatus, hage⟩
  · rintro ⟨-, howned, hfree, houtside, policy, hpolicy, hown, htype, hstatus, hage⟩
    obtain ⟨-, hforall⟩ := buckets_of_plan h
    obtain ⟨bucket, hmem, hbucket⟩ := exists_of_mem_forall₂ hforall (mem_policiesFor.mpr ⟨hpolicy, hown⟩)
    have hblocked : bucket.blocked = "" := by
      obtain ⟨kind, hkind, hname⟩ := kind_of_row row
      have hfind := kindOf_eq_some_iff.mpr ⟨hkind, hname.trans htype.symm⟩
      have hrunning : ¬(kind.name = "holdout_observation" ∧ experimentRunning database orgId = true) := by
        rintro ⟨hobservation, hrunning⟩
        rw [houtside (hname ▸ hobservation)] at hrunning
        cases hrunning
      unfold bucketFor at hbucket
      rw [hfind] at hbucket
      dsimp only at hbucket
      rw [if_neg hrunning] at hbucket
      obtain ⟨_, hbucket⟩ := Py.of_rest hbucket
      split_ifs at hbucket <;> (obtain rfl := Except.ok.inj hbucket; rfl)
    have hplanned := planned_of_bucketFor hbucket hblocked
    exact ⟨bucket, hmem, hblocked, hplanned.objectType.trans htype, (hplanned.doomed row.id).mpr
      ⟨row, hstored, htype.symm, rfl, howned, hage, hstatus, hfree, houtside⟩⟩

/-- The parts of a bucket can be read back from its text. -/
structure Bucket.Legible (bucket : Bucket) : Prop where
  objectType : '/' ∉ bucket.objectType.toList ∧ '\x1f' ∉ bucket.objectType.toList
  status : ':' ∉ bucket.status.toList ∧ '\x1f' ∉ bucket.status.toList
  doomed : ∀ id ∈ bucket.doomed, Identifier id

theorem legible_of_planned (hconsistent : Consistent database) {policy : RetentionPolicy}
    (h : Planned database orgId moment policy bucket) : bucket.Legible := by
  obtain ⟨kind, hkind, hname, hstatus⟩ := h.kind
  obtain ⟨hslash, hseparator, hstatuses⟩ := legible_of_mem_kinds hkind
  refine ⟨?_, h.status ▸ hstatuses _ hstatus, ?_⟩
  · rw [h.objectType, ← hname]
    exact ⟨hslash, hseparator⟩
  · intro id hid
    obtain ⟨row, hstored, -, rfl, -⟩ := (h.doomed id).mp hid
    exact hconsistent.identifiers row hstored

theorem toList_text (bucket : Bucket) :
    bucket.text.toList = bucket.objectType.toList ++ '/' :: (bucket.status.toList ++ ':' ::
      [','].intercalate (bucket.doomed.map String.toList)) := by
  simp [Bucket.text]

theorem separator_notMem_text (h : bucket.Legible) : '\x1f' ∉ bucket.text.toList := by
  have hdoomed : '\x1f' ∉ [','].intercalate (bucket.doomed.map String.toList) := by
    intro hmem
    obtain hcomma | ⟨text, htext, hmem⟩ := mem_intercalate hmem
    · exact absurd hcomma (by decide)
    · obtain ⟨id, hid, rfl⟩ := List.mem_map.mp htext
      exact (h.doomed id hid).2.2 hmem
  simp [-String.toList_intercalate, toList_text, h.objectType.2, h.status.2, hdoomed]

theorem bucket_eq_of_text {first second : Bucket} (hfirst : first.Legible) (hsecond : second.Legible)
    (h : first.text = second.text) : first.objectType = second.objectType ∧ first.doomed = second.doomed := by
  have hlists := congrArg String.toList h
  rw [toList_text, toList_text] at hlists
  obtain ⟨htype, hrest⟩ := append_cons_inj hfirst.objectType.1 hsecond.objectType.1 hlists
  obtain ⟨-, hrest⟩ := append_cons_inj hfirst.status.1 hsecond.status.1 hrest
  rw [← toList_intercalate_singleton, ← toList_intercalate_singleton, String.toList_inj] at hrest
  refine ⟨String.toList_inj.mp htype, ?_⟩
  exact texts_eq_of_intercalate_of_ne_empty (fun id hid ↦ ⟨(hfirst.doomed id hid).2.1, (hfirst.doomed id hid).1⟩)
    (fun id hid ↦ ⟨(hsecond.doomed id hid).2.1, (hsecond.doomed id hid).1⟩) hrest

theorem mem_listed {plan : PurgePlan} :
    bucket ∈ plan.listed ↔ bucket ∈ plan.buckets ∧ bucket.blocked = "" := by
  simp [PurgePlan.listed, mem_sortBy]

theorem legible_of_mem_listed (hconsistent : Consistent database) {plan : PurgePlan}
    (h : Retention.plan database orgId moment = .ok plan) (hmem : bucket ∈ plan.listed) :
    bucket.Legible := by
  obtain ⟨hmem, hblocked⟩ := mem_listed.mp hmem
  obtain ⟨policy, -, -, hplanned⟩ := planned_of_mem h hmem hblocked
  exact legible_of_planned hconsistent hplanned

theorem names_of_texts (hfirst : ∀ bucket ∈ first.listed, bucket.Legible)
    (hsecond : ∀ bucket ∈ second.listed, bucket.Legible)
    (h : first.listed.map Bucket.text = second.listed.map Bucket.text) (hnames : Names first.buckets type id) :
    Names second.buckets type id := by
  obtain ⟨bucket, hmem, hblocked, rfl, hdoomed⟩ := hnames
  have hlisted := mem_listed.mpr ⟨hmem, hblocked⟩
  have htext : bucket.text ∈ second.listed.map Bucket.text := h ▸ List.mem_map.mpr ⟨bucket, hlisted, rfl⟩
  obtain ⟨other, hother, heq⟩ := List.mem_map.mp htext
  obtain ⟨htype, hids⟩ := bucket_eq_of_text (hsecond other hother) (hfirst bucket hlisted) heq
  obtain ⟨hmem', hblocked'⟩ := mem_listed.mp hother
  exact ⟨other, hmem', hblocked', htype, hids ▸ hdoomed⟩

theorem text_ne_empty (bucket : Bucket) : bucket.text ≠ "" := by
  intro h
  have hlists := congrArg String.toList h
  rw [toList_text] at hlists
  simp at hlists

theorem named_of_digest (hcollision : runtime.CollisionFree) (horg : first.orgId = second.orgId)
    (hfirst : ∀ bucket ∈ first.listed, bucket.Legible) (hsecond : ∀ bucket ∈ second.listed, bucket.Legible)
    (h : first.digest runtime = second.digest runtime) :
    Named first row ↔ Named second row := by
  have htext : first.text = second.text := Json.utf8_injective (hcollision _ _ h)
  rw [PurgePlan.text, PurgePlan.text, horg, String.append_right_inj] at htext
  have htexts : first.listed.map Bucket.text = second.listed.map Bucket.text := by
    refine texts_eq_of_intercalate_of_ne_empty ?_ ?_ htext
    · intro text hmem
      obtain ⟨bucket, hbucket, rfl⟩ := List.mem_map.mp hmem
      exact ⟨separator_notMem_text (hfirst bucket hbucket), text_ne_empty bucket⟩
    · intro text hmem
      obtain ⟨bucket, hbucket, rfl⟩ := List.mem_map.mp hmem
      exact ⟨separator_notMem_text (hsecond bucket hbucket), text_ne_empty bucket⟩
  exact ⟨names_of_texts hfirst hsecond htexts, names_of_texts hsecond hfirst htexts.symm⟩

/-- Whether some buckets name a stored trace. -/
def Takes (buckets : List Bucket) (database : Database) (traceId : String) : Prop :=
  ∃ trace ∈ database.traces, Names buckets "trace" trace.id ∧ trace.id = traceId

/-- What the deletions for some buckets keep. -/
structure Purged (buckets : List Bucket) (database next : Database) : Prop where
  rows : ∀ row, next.Stores row ↔ database.Stores row ∧ ¬Names buckets (objectType row) row.id ∧
    ¬∃ vote, row = .vote vote ∧ Takes buckets database vote.traceId
  relations : ∀ relation, relation ∈ next.relations ↔ relation ∈ database.relations ∧
    ¬Names buckets "trace" relation.relatedTraceId ∧ ¬Takes buckets database relation.traceId

theorem names_singleton :
    Names [bucket] type id ↔ bucket.blocked = "" ∧ bucket.objectType = type ∧ id ∈ bucket.doomed := by
  simp [Names]

theorem names_cons {bucket : Bucket} {buckets : List Bucket} {type id : String} :
    Names (bucket :: buckets) type id ↔ Names [bucket] type id ∨ Names buckets type id := by
  simp [Names]

theorem purged_of_not_names (h : ∀ type id, ¬Names buckets type id) :
    Purged buckets database database := by
  constructor <;> simp [Takes, h]

theorem purged_of_purgeBucket (h : purgeBucket orgId database bucket = .ok next) :
    Purged [bucket] database next := by
  unfold purgeBucket at h
  by_cases hskip : bucket.blocked ≠ "" ∨ bucket.doomed = []
  · rw [if_pos hskip] at h
    obtain rfl := Except.ok.inj h
    apply purged_of_not_names
    intro type id hnames
    obtain ⟨hblocked, -, hdoomed⟩ := names_singleton.mp hnames
    obtain hblocked' | hnil := hskip
    · exact hblocked' hblocked
    · exact List.not_mem_nil (hnil ▸ hdoomed)
  · rw [if_neg hskip] at h
    rw [not_or, not_not] at hskip
    split at h
    · cases h
    · next kind hfind =>
      obtain ⟨hkind, hname⟩ := kindOf_eq_some_iff.mp hfind
      have hnames : ∀ row : Row, Names [bucket] (objectType row) row.id ↔
          row.model = kind.model ∧ row.id ∈ bucket.doomed := by
        intro row
        rw [names_singleton, ← objectType_eq_iff hkind, ← hname]
        exact ⟨fun h ↦ ⟨h.2.1.symm, h.2.2⟩, fun h ↦ ⟨hskip.1, h.1.symm, h.2⟩⟩
      have htraces : ∀ id, Names [bucket] "trace" id ↔ kind.model = .trace ∧ id ∈ bucket.doomed := by
        intro id
        have htrace : "trace" = kind.name ↔ kind.model = .trace := by
          have hiff : objectType (.trace default) = kind.name ↔ Row.model (.trace default) = kind.model :=
            objectType_eq_iff hkind
          exact hiff.trans eq_comm
        rw [names_singleton, ← htrace, ← hname]
        exact ⟨fun h ↦ ⟨h.2.1.symm, h.2.2⟩, fun h ↦ ⟨hskip.1, h.1.symm, h.2⟩⟩
      have htakes : ∀ key : String, Takes [bucket] database key ↔
          kind.model = .trace ∧ ∃ trace ∈ database.traces, trace.id ∈ bucket.doomed ∧ trace.id = key := by
        intro key
        simp only [Takes, htraces]
        constructor
        · rintro ⟨trace, hmem, ⟨hmodel, hdoomed⟩, hkey⟩
          exact ⟨hmodel, trace, hmem, hdoomed, hkey⟩
        · rintro ⟨hmodel, trace, hmem, hdoomed, hkey⟩
          exact ⟨trace, hmem, ⟨hmodel, hdoomed⟩, hkey⟩
      split_ifs at h with hmodel
      · obtain rfl := Except.ok.inj h
        refine ⟨fun row ↦ ?_, fun relation ↦ ?_⟩
        · rw [Database.stores_adjustTraceCount, Database.stores_deleteRows, Database.stores_deleteRelationsTo,
            hnames, hmodel]
          simp only [htakes, hmodel, true_and]
          rfl
        · simp only [htakes, htraces, hmodel, true_and]
          simp [Database.adjustTraceCount, Database.deleteRows, Database.deleteTraces, Database.deleteRelationsTo]
          tauto
      · obtain rfl := Except.ok.inj h
        refine ⟨fun row ↦ ?_, fun relation ↦ ?_⟩
        · rw [Database.stores_deleteRows, hnames]
          simp only [htakes, hmodel, false_and, and_false, exists_false, not_false_eq_true]
        · rw [Database.relations_deleteRows hmodel, htakes, htraces]
          simp only [hmodel, false_and, not_false_eq_true, and_true]

theorem Purged.cons {bucket : Bucket} {buckets : List Bucket} {middle : Database}
    (hfirst : Purged [bucket] database middle) (hrest : Purged buckets middle next) :
    Purged (bucket :: buckets) database next := by
  have hmiddle : ∀ trace, trace ∈ middle.traces ↔ trace ∈ database.traces ∧ ¬Names [bucket] "trace" trace.id := by
    intro trace
    simpa [objectType, Row.id] using hfirst.rows (.trace trace)
  have htakes : ∀ key : String,
      Takes (bucket :: buckets) database key ↔ Takes [bucket] database key ∨ Takes buckets middle key := by
    intro key
    constructor
    · rintro ⟨trace, hmem, hnames, hkey⟩
      by_cases hnow : Names [bucket] "trace" trace.id
      · exact Or.inl ⟨trace, hmem, hnow, hkey⟩
      · exact Or.inr ⟨trace, (hmiddle trace).mpr ⟨hmem, hnow⟩, (names_cons.mp hnames).resolve_left hnow, hkey⟩
    · rintro (⟨trace, hmem, hnames, hkey⟩ | ⟨trace, hmem, hnames, hkey⟩)
      · exact ⟨trace, hmem, names_cons.mpr (Or.inl hnames), hkey⟩
      · exact ⟨trace, ((hmiddle trace).mp hmem).1, names_cons.mpr (Or.inr hnames), hkey⟩
  constructor
  · intro row
    have hnames := @names_cons bucket buckets (objectType row) row.id
    simp only [hrest.rows, hfirst.rows, hnames, htakes, and_or_left, exists_or]
    generalize (∃ vote, row = .vote vote ∧ Takes [bucket] database vote.traceId) = now
    generalize (∃ vote, row = .vote vote ∧ Takes buckets middle vote.traceId) = later
    tauto
  · intro relation
    have hnames := @names_cons bucket buckets "trace" relation.relatedTraceId
    rw [hrest.relations, hfirst.relations, hnames, htakes]
    tauto

theorem purged_of_foldlM (h : buckets.foldlM (purgeBucket orgId) database = .ok next) :
    Purged buckets database next := by
  induction buckets generalizing database with
  | nil =>
    obtain rfl := Except.ok.inj h
    exact purged_of_not_names fun type id hnames ↦ by simp [Names] at hnames
  | cons bucket buckets ih =>
    rw [List.foldlM_cons] at h
    obtain ⟨middle, hmiddle, h⟩ := Py.of_bind h
    exact (purged_of_purgeBucket hmiddle).cons (ih h)

/-- A purge deletes nothing held, no running experiment, and exactly what a plan names. -/
structure Honoured (plan : PurgePlan) (orgId : String) (database next : Database) : Prop where
  held : ∀ row, database.Stores row → Covered database row → next.Stores row
  related : ∀ relation ∈ database.relations, CoveredRelation database relation → relation ∈ next.relations
  experiment : experimentRunning database orgId → ∀ row ∈ database.observations, row ∈ next.observations
  exact : ∀ row, database.Stores row → (¬next.Stores row ↔ Named plan row)

/-- The votes of the traces that expire expire themselves. -/
def VotesExpire (database : Database) (orgId : String) (moment : ℤ) : Prop :=
  ∀ trace ∈ database.traces, ∀ vote ∈ database.votes, vote.traceId = trace.id →
    Expires database orgId moment (.trace trace) → Expires database orgId moment (.vote vote)

theorem apply_cases {expectDigest auditId : String} {fresh : PurgePlan}
    (h : apply runtime database orgId expectDigest moment auditId = .ok (fresh, next)) :
    plan database orgId moment = .ok fresh ∧ fresh.digest runtime = expectDigest ∧
      ∃ purged, Purged fresh.buckets database purged ∧ next.relations = purged.relations ∧
        (∀ row, purged.Stores row → next.Stores row) ∧ ∀ row, next.Stores row → purged.Stores row ∨
          row = .auditLogEntry ⟨auditId, moment, some orgId, "retention.purge"⟩ := by
  obtain ⟨found, hplan, h⟩ := Py.of_bind h
  obtain ⟨_, hdigest, h⟩ := Py.of_bind h
  obtain ⟨purged, hpurged, h⟩ := Py.of_bind h
  obtain ⟨rfl, rfl⟩ := Prod.mk.inj (Except.ok.inj h)
  refine ⟨hplan, by simpa using hdigest, purged, purged_of_foldlM hpurged, rfl, ?_, ?_⟩
  · intro row hrow
    cases row <;> simp_all
  · intro row hrow
    cases row <;> simp_all

section Apply

variable {fresh : PurgePlan} {purged : Database}

section

variable (hconsistent : Consistent database)
include hconsistent

section

variable (hplan : plan database orgId moment = .ok fresh)
include hplan

theorem takes_iff
    {traceId : String} :
    Takes fresh.buckets database traceId ↔
      ∃ trace ∈ database.traces, Expires database orgId moment (.trace trace) ∧ trace.id = traceId := by
  have hnames : ∀ trace ∈ database.traces,
      (Names fresh.buckets "trace" trace.id ↔ Expires database orgId moment (.trace trace)) := by
    intro trace hmem
    have hstored : database.Stores (.trace trace) := Database.stores_trace.mpr hmem
    exact named_iff_expires hconsistent hplan hstored
  constructor
  · rintro ⟨trace, hmem, hnamed, hid⟩
    exact ⟨trace, hmem, (hnames trace hmem).mp hnamed, hid⟩
  · rintro ⟨trace, hmem, hexpires, hid⟩
    exact ⟨trace, hmem, (hnames trace hmem).mpr hexpires, hid⟩

theorem gone_iff
    (hpurged : Purged fresh.buckets database purged) (hstored : database.Stores row) :
    ¬purged.Stores row ↔ Named fresh row ∨ ∃ vote, row = .vote vote ∧
      ∃ trace ∈ database.traces, Expires database orgId moment (.trace trace) ∧ trace.id = vote.traceId := by
  have hrows := hpurged.rows row
  simp only [takes_iff hconsistent hplan] at hrows
  rw [hrows, Named]
  generalize (∃ vote, row = .vote vote ∧ _) = cascade
  tauto

theorem exact_iff
    (hpurged : Purged fresh.buckets database purged) :
    (∀ row, database.Stores row → (¬purged.Stores row ↔ Named fresh row)) ↔ VotesExpire database orgId moment := by
  constructor
  · intro h trace htrace vote hvote hid hexpires
    have hstored : database.Stores (.vote vote) := Database.stores_vote.mpr hvote
    have hgone := (gone_iff hconsistent hplan hpurged hstored).mpr
      (Or.inr ⟨vote, rfl, trace, htrace, hexpires, hid.symm⟩)
    exact (named_iff_expires hconsistent hplan hstored).mp ((h _ hstored).mp hgone)
  · intro h row hstored
    rw [gone_iff hconsistent hplan hpurged hstored]
    constructor
    · rintro (hnamed | ⟨vote, rfl, trace, htrace, hexpires, hid⟩)
      · exact hnamed
      · exact (named_iff_expires hconsistent hplan hstored).mpr
          (h trace htrace vote (Database.stores_vote.mp hstored) hid.symm hexpires)
    · exact Or.inl

theorem related_of_purged
    (hpurged : Purged fresh.buckets database purged) {relation : TraceRelation} (hmem : relation ∈ database.relations)
    (hcovered : CoveredRelation database relation) : relation ∈ purged.relations := by
  obtain ⟨owner, howner, hownerId, hold, hhold, hactive, horg, htype, htarget⟩ := hcovered
  have hfree : ∀ trace ∈ database.traces, trace.orgId = owner.orgId →
      ¬Expires database orgId moment (.trace trace) := by
    intro trace _ hsame hexpires
    exact hexpires.unheld ⟨hold, hhold, hactive, by rw [horg, ← hsame]; rfl, Or.inl htype, Or.inl htarget⟩
  refine (hpurged.relations relation).mpr ⟨hmem, ?_, ?_⟩
  · intro hnames
    obtain ⟨bucket, hbucket, hblocked, hname, hdoomed⟩ := hnames
    obtain ⟨policy, -, -, hplanned⟩ := planned_of_mem hplan hbucket hblocked
    obtain ⟨row, hstored, hrow, hid, -⟩ := (hplanned.doomed _).mp hdoomed
    have htrace : objectType row = "trace" := hrow.trans (hplanned.objectType.symm.trans hname)
    obtain ⟨trace, rfl⟩ := eq_trace_of_objectType htrace
    have hother := Database.stores_trace.mp hstored
    have hnamed : Named fresh (.trace trace) := ⟨bucket, hbucket, hblocked, hname, hid ▸ hdoomed⟩
    exact hfree trace hother (hconsistent.related relation hmem owner howner trace hother hownerId hid).symm
      ((named_iff_expires hconsistent hplan hstored).mp hnamed)
  · intro htakes
    obtain ⟨trace, hother, hexpires, hid⟩ := (takes_iff hconsistent hplan).mp htakes
    have hsame : trace = owner := by
      have hkeys := hconsistent.keys .trace
      rw [Database.table, List.map_map] at hkeys
      exact List.inj_on_of_nodup_map hkeys hother howner (hid.trans hownerId.symm)
    exact hfree trace hother (hsame ▸ rfl) hexpires

end

end

end Apply

namespace Sample

def trace : Trace := { (default : Trace) with id := "t", orgId := "o", createdAt := 0 }

def vote : Vote := ⟨"v", "t", "o", 0⟩

def organization : Organization := ⟨"o", "free", 1, 0⟩

def policy : RetentionPolicy := ⟨"o", "trace", "any", 30⟩

def hold : LegalHold := ⟨"o", "vote", "v", none⟩

def voted (holds : List LegalHold) : Database :=
  ⟨[organization], [trace], [vote], [], [], [], [], [policy], holds⟩

def unvoted : Database := ⟨[organization], [trace], [], [], [], [], [], [policy], []⟩

def now : ℤ := 31 * day

def purge : PurgePlan := ⟨"o", [⟨"trace", "any", 1, 0, ["t"], ""⟩]⟩

def digest : String := "605a36eced34eec6fe32e7074b441582f7a8839adc463fff63b328a04c093510"

def interpreter : Runtime := .hashing [(Json.utf8 purge.text, digest)]

theorem collisionFree : interpreter.CollisionFree := by
  apply Runtime.collisionFree_hashing
  · simp
  · simp [digest]

def emptied (holds : List LegalHold) : Database :=
  ⟨[{ organization with traceCount := 0 }], [], [], [], [], [], [⟨"a", now, some "o", "retention.purge"⟩], [policy],
    holds⟩

theorem consistent_unvoted : Consistent unvoted := by
  constructor
  · intro model
    cases model <;> decide
  · intro row hstored
    cases row with
    | trace other =>
      obtain rfl := List.mem_singleton.mp (Database.stores_trace.mp hstored)
      exact ⟨by decide, by decide, by decide⟩
    | _ => simp [unvoted] at hstored
  · intro relation hmem
    exact absurd hmem List.not_mem_nil

theorem plans : plan unvoted "o" now = .ok purge ∧ plan (voted [hold]) "o" now = .ok purge ∧
    purge.buckets.foldlM (purgeBucket "o") unvoted = .ok { emptied [] with auditLog := [] } ∧
    purge.buckets.foldlM (purgeBucket "o") (voted [hold]) = .ok { emptied [hold] with auditLog := [] } := by
  decide +kernel

theorem apply_of_plan {database purged : Database} (hplan : plan database "o" now = .ok purge)
    (hpurged : purge.buckets.foldlM (purgeBucket "o") database = .ok purged) :
    apply interpreter database "o" (purge.digest interpreter) now "a" =
      .ok (purge, { purged with auditLog := purged.auditLog ++ [⟨"a", now, some "o", "retention.purge"⟩] }) := by
  simp only [apply, hplan, Py.bind_ok, decide_true, Py.require_true, hpurged]
  rfl

end Sample

end UniMem.Hub.Retention
