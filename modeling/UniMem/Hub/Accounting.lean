import UniMem.Hub.Histories
import UniMem.Hub.Ledgers

/-!
# The counter of traces

Every call that stores or deletes traces settles its debt before it commits, so the counters are exact and no plan
is exceeded. A call that runs alone is one step of the hub.
-/

namespace UniMem.Hub

open Library Program

variable {runtime : Runtime} {owner : String → String} {plans : List (String × String)}
    {database committed : Database}
  {orgId : String} {call : TraceCall} {ledger : Ledger} {writes : List Write} {locks : List Lock}
  {added removed : List String} {count : ℤ → ℤ}

section Meets

variable {circumstances : Circumstances} {visible : Trace → Bool}

/-- A call that settles what it owes. -/
abbrev Settles {α : Type} (owner : String → String) (plans : List (String × String)) (call : TraceCall)
    (ledger : Ledger)
    (session : Session α) : Prop :=
  Meets (traceRules owner plans call) (fun after _ ↦ after.debt = 0) ledger session

variable {post : Ledger → Unit → Prop}

theorem meets_adjust (horg : orgId = call.orgId) {delta : ℤ} (hdebt : delta = ledger.debt)
    (h : post { ledger with debt := 0 } ()) :
    Meets (traceRules owner plans call) post ledger (Session.adjustTraceCount orgId delta) := by
  unfold Session.adjustTraceCount
  split_ifs with hzero
  · have hsame : ({ ledger with debt := 0 } : Ledger) = ledger := by
      rw [← hzero, hdebt]
    rw [hsame] at h
    exact .done h
  · apply Meets.bind
    refine Meets.statement ⟨horg, hdebt⟩ ?_
    rintro result _ rfl
    exact .done h

theorem find?_plans (database : Database) (orgId : String) :
    (database.organizations.find? (·.id = orgId)).map Organization.plan =
      (database.organizations.map fun org ↦ (org.id, org.plan)).lookup orgId := by
  induction database.organizations with
  | nil => rfl
  | cons org orgs ih =>
    rw [List.find?_cons, List.map_cons, List.lookup_cons]
    by_cases hid : org.id = orgId
    · simp [hid]
    · have hne : (orgId == org.id) = false := by simpa using fun h ↦ hid h.symm
      simp only [hid, decide_false, hne]
      exact ih

theorem meets_reserve (horg : orgId = call.orgId) (hdebt : ledger.debt = 0)
    (hfree : call.limit plans = none → post ledger ())
    (hslot : ∀ after : Ledger, after.debt = 0 → ((call.limit plans).isSome = true → after.stage = .reserved) →
      post after ()) :
    Meets (traceRules owner plans call) post ledger (Session.reserveTraceSlot orgId) := by
  unfold Session.reserveTraceSlot
  apply Meets.bind
  apply Meets.read
  intro view hview
  have hplan : planOf (((view.organizations.find? (·.id = orgId)).map Organization.plan).getD "") =
      planOf ((plans.lookup call.orgId).getD "") := by
    rw [find?_plans, hview.plans, horg]
  rw [hplan]
  dsimp only
  split_ifs with hunlimited
  · refine .done (hfree ?_)
    rw [TraceCall.limit, if_neg fun h ↦ h.2 hunlimited]
  · apply Meets.bind
    refine Meets.statement horg ?_
    intro result after hafter
    refine Meets.lift (fun _ _ ↦ trivial) fun _ hwithin ↦ ?_
    rw [Py.require_eq_ok_iff, within, Bool.or_eq_true, decide_eq_true_eq, decide_eq_true_eq] at hwithin
    have hless := hwithin.resolve_left hunlimited
    have hbound : ∀ bound ∈ call.limit plans, result < bound := by
      intro bound hbound
      rw [TraceCall.limit] at hbound
      split_ifs at hbound
      · obtain rfl := Option.some.inj hbound
        exact hless
      · cases hbound
    have hafter' : after = { ledger with stage := .reserved } := hafter.trans (if_pos ⟨hdebt, hbound⟩)
    rw [hafter']
    exact hslot _ hdebt fun _ ↦ rfl

theorem meets_checkAdmission {agentSlot : Py Unit} {wire : Wire} {limited : String} (horg : orgId = call.orgId)
    (hdebt : ledger.debt = 0)
    (hslot : ∀ after : Ledger, after.debt = 0 → ((call.limit plans).isSome = true → after.stage = .reserved) →
      post after ()) :
    Meets (traceRules owner plans call) post ledger
      (Session.checkAdmission circumstances orgId agentSlot wire limited) := by
  have hrest : ∀ after : Ledger, after.debt = 0 → ((call.limit plans).isSome = true → after.stage = .reserved) →
      Meets (traceRules owner plans call) post after (do
        Program.lift agentSlot
        Program.lift (validateTrace wire)
        Program.lift (validateSize wire circumstances.config) : Session Unit) := by
    intro after hdebt hstage
    refine Meets.bind (Meets.lift (fun _ _ ↦ trivial) fun _ _ ↦ ?_)
    refine Meets.bind (Meets.lift (fun _ _ ↦ trivial) fun _ _ ↦ ?_)
    exact Meets.lift (fun _ _ ↦ trivial) fun _ _ ↦ hslot after hdebt hstage
  unfold Session.checkAdmission
  refine Meets.bind (Meets.lift (fun _ _ ↦ trivial) fun _ _ ↦ ?_)
  apply Meets.bind
  refine meets_reserve horg hdebt (fun hnone ↦ hrest ledger hdebt fun hsome ↦ ?_) hrest
  rw [hnone] at hsome
  cases hsome

theorem meets_insert {trace : Trace} {post : Ledger → ℤ → Prop} (horg : trace.orgId = call.orgId)
    (howner : owner trace.id = call.orgId) (hstage : (call.limit plans).isSome = true → ledger.stage = .reserved)
    (hfails : post ledger 0) (hstores : ∀ result, result ≠ 0 → post ⟨ledger.debt + 1, .stored⟩ result) :
    Meets (traceRules owner plans call) post ledger (Program.statement (.insertTrace trace) : Session ℤ) := by
  refine Meets.statement ⟨horg, howner, hstage⟩ ?_
  rintro result after (⟨rfl, rfl⟩ | ⟨hresult, rfl⟩)
  · exact hfails
  · exact hstores result hresult

theorem settles_contributeTrace (request : ContributeRequest) (horg : orgId = call.orgId)
    (howner : owner circumstances.newId = orgId) :
    Settles owner plans call ⟨0, .idle⟩ (Session.contributeTrace runtime circumstances orgId request) := by
  unfold Session.contributeTrace
  refine Meets.bind (Meets.lift (fun _ _ ↦ trivial) fun prepared _ ↦ ?_)
  refine Meets.bind (Meets.read fun view _ ↦ ?_)
  cases existing view orgId request.idempotencyKey with
  | some trace => exact Meets.lift (fun _ _ ↦ trivial) fun _ _ ↦ rfl
  | none =>
    apply Meets.bind
    refine meets_checkAdmission horg rfl fun after hdebt hstage ↦ ?_
    apply Meets.bind
    refine meets_insert horg (howner.trans horg) hstage ?_ ?_
    · rw [if_pos rfl]
      refine Meets.bind (Meets.read fun later _ ↦ ?_)
      cases existing later orgId request.idempotencyKey with
      | none => exact .fail trivial
      | some other => exact Meets.lift (fun _ _ ↦ trivial) fun _ _ ↦ hdebt
    · intro result hresult
      rw [if_neg hresult]
      apply Meets.bind
      refine meets_adjust horg ?_ (.done rfl)
      simp [hdebt]

theorem settles_amendTrace (request : AmendRequest) (horg : orgId = call.orgId)
    (howner : owner circumstances.newId = orgId) :
    Settles owner plans call ⟨0, .idle⟩ (Session.amendTrace runtime circumstances orgId request) := by
  unfold Session.amendTrace
  split_ifs with huuid
  · exact .done rfl
  · refine Meets.bind (Meets.lift (fun _ _ ↦ trivial) fun outcome _ ↦ ?_)
    refine Meets.bind (Meets.read fun view hview ↦ ?_)
    cases hfound : originalOf circumstances view orgId request.traceId with
    | none => exact .done rfl
    | some original =>
      have horiginal : original.orgId = orgId := by
        have hfound := List.find?_some hfound
        simp only [Bool.and_eq_true, decide_eq_true_eq] at hfound
        exact hfound.1.2
      refine Meets.bind (Meets.lift (fun _ _ ↦ trivial) fun _ _ ↦ ?_)
      refine Meets.bind (Meets.read fun later _ ↦ ?_)
      cases existing later orgId request.idempotencyKey with
      | some trace => exact Meets.bind (Meets.lift (fun _ _ ↦ trivial) fun _ _ ↦ .done rfl)
      | none =>
        apply Meets.bind
        refine meets_checkAdmission horg rfl fun after hdebt hstage ↦ ?_
        refine Meets.bind (Meets.statement trivial ?_)
        rintro matched _ rfl
        refine Meets.bind (Meets.lift (fun _ _ ↦ trivial) fun _ _ ↦ ?_)
        apply Meets.bind
        refine meets_insert (horiginal.trans horg) (howner.trans horg) hstage ?_ ?_
        · rw [if_pos rfl]
          exact .fail trivial
        · intro result hresult
          rw [if_neg hresult]
          apply Meets.bind
          refine meets_adjust horg (by simp [hdebt]) ?_
          refine Meets.bind (Meets.statement trivial ?_)
          rintro _ _ rfl
          exact .done rfl

theorem own_ids {view : Database} (hview : Seen owner plans view) (condition : Trace → Bool) :
    ((view.traces.filter fun trace ↦ condition trace && trace.orgId = orgId).map Trace.id).Nodup ∧
      ∀ id ∈ (view.traces.filter fun trace ↦ condition trace && trace.orgId = orgId).map Trace.id, owner id =
        orgId := by
  refine ⟨hview.unique.sublist (List.filter_sublist.map _), ?_⟩
  intro id hid
  obtain ⟨trace, htrace, rfl⟩ := List.mem_map.mp hid
  obtain ⟨hmem, hcondition⟩ := List.mem_filter.mp htrace
  rw [Bool.and_eq_true, decide_eq_true_eq] at hcondition
  exact (hview.owned trace hmem).trans hcondition.2

theorem settles_deleteTrace (horg : orgId = call.orgId) (hchain : call.deletesChains = true) (hdebt : ledger.debt = 0)
    (traceId : String) : Settles owner plans call ledger (Session.deleteTrace orgId visible traceId) := by
  unfold Session.deleteTrace
  split_ifs with huuid
  · exact .done hdebt
  · refine Meets.bind (Meets.read fun view _ ↦ ?_)
    cases view.traces.find? _ with
    | none => exact .done hdebt
    | some trace =>
      refine Meets.bind (Meets.read fun _ _ ↦ ?_)
      refine Meets.bind (Meets.lift (fun _ _ ↦ trivial) fun _ _ ↦ ?_)
      refine Meets.bind (Meets.read fun chained _ ↦ ?_)
      refine Meets.bind (Meets.read fun later hlater ↦ ?_)
      obtain ⟨hnodup, howner⟩ := @own_ids owner plans orgId later hlater
        fun trace ↦ trace.id ∈ amendmentChain chained.traces traceId
      refine Meets.bind (Meets.statement trivial ?_)
      rintro _ _ rfl
      refine Meets.bind (Meets.statement ⟨hnodup, fun id hid ↦ (howner id hid).trans horg⟩ ?_)
      rintro rowcount _ ⟨rfl, hall⟩
      apply Meets.bind
      refine meets_adjust horg ?_ (.done rfl)
      rw [hall hchain, hdebt, zero_sub]

theorem meets_chains (traceIds : List String) {post : Ledger → List String → Prop} (h : ∀ ids, post ledger ids) :
    Meets (traceRules owner plans call) post ledger (Session.chains traceIds) := by
  induction traceIds generalizing post with
  | nil => exact .done (h [])
  | cons traceId traceIds ih =>
    rw [Session.chains]
    refine Meets.bind (Meets.read fun view _ ↦ ?_)
    exact Meets.bind (ih fun ids ↦ .done (h _))

theorem settles_deleteAll (horg : orgId = call.orgId) (hchain : call.deletesChains = true) (hdebt : ledger.debt = 0)
    (traceIds : List String) : Settles owner plans call ledger (Session.deleteAll orgId visible traceIds) := by
  induction traceIds generalizing ledger with
  | nil => exact .done hdebt
  | cons traceId traceIds ih =>
    rw [Session.deleteAll]
    apply Meets.bind
    exact Meets.mono (fun after _ hafter ↦ ih hafter) (settles_deleteTrace horg hchain hdebt traceId)

theorem settles_purgeTracesBySubject (horg : orgId = call.orgId) (hchain : call.deletesChains = true)
    (hdebt : ledger.debt = 0) (subjectId : String) :
    Settles owner plans call ledger (Session.purgeTracesBySubject orgId visible subjectId) := by
  unfold Session.purgeTracesBySubject
  dsimp only
  split_ifs with hsubject
  · exact .done hdebt
  · refine Meets.bind (Meets.read fun view _ ↦ ?_)
    split_ifs with hmatching
    · exact .done hdebt
    · refine Meets.bind (meets_chains _ fun expanded ↦ ?_)
      refine Meets.bind (Meets.read fun _ _ ↦ ?_)
      apply Meets.bind
      refine Meets.mono (fun after _ hafter ↦ ?_) (settles_deleteAll horg hchain hdebt _)
      exact Meets.bind (Meets.read fun _ _ ↦ .done hafter)

theorem settles_reviewKbSubmission (review : Session.Review) (horg : review.operatorOrgId = call.orgId)
    (howner : owner review.newId = review.operatorOrgId) (hlimit : call.limit plans = none)
      (hdebt : ledger.debt = 0) :
    Settles owner plans call ledger (Session.reviewKbSubmission review) := by
  unfold Session.reviewKbSubmission
  refine Meets.bind (Meets.lift (fun _ _ ↦ trivial) fun _ _ ↦ ?_)
  refine Meets.bind (Meets.lift (fun _ _ ↦ trivial) fun _ _ ↦ ?_)
  refine Meets.bind (Meets.lift (fun _ _ ↦ trivial) fun _ _ ↦ ?_)
  by_cases huuid : isUuid review.submissionId = false
  · rw [if_pos huuid]
    exact .done hdebt
  · rw [if_neg huuid]
    refine Meets.bind (Meets.statement trivial ?_)
    rintro pending _ rfl
    refine Meets.bind (Meets.read fun view _ ↦ ?_)
    cases view.submissions.find? _ with
    | none => exact .done hdebt
    | some submission =>
      dsimp only
      split_ifs with hpending hdecision
      · exact .done hdebt
      · refine Meets.bind (Meets.statement trivial ?_)
        rintro _ _ rfl
        refine Meets.bind (Meets.statement trivial ?_)
        rintro _ _ rfl
        exact .done hdebt
      · apply Meets.bind
        refine meets_insert horg (howner.trans horg) (fun hsome ↦ ?_) ?_ ?_
        · rw [hlimit] at hsome
          cases hsome
        · refine Meets.bind (Meets.lift (fun _ _ ↦ trivial) fun _ hfails ↦ ?_)
          cases hfails
        · intro result hresult
          refine Meets.bind (Meets.lift (fun _ _ ↦ trivial) fun _ _ ↦ ?_)
          apply Meets.bind
          refine meets_adjust horg (by simp [hdebt]) ?_
          refine Meets.bind (Meets.statement trivial ?_)
          rintro _ _ rfl
          refine Meets.bind (Meets.statement trivial ?_)
          rintro _ _ rfl
          exact .done rfl

/-- The traces that a bucket dooms are different traces of the organization. -/
def Owned (owner : String → String) (orgId : String) (bucket : Retention.Bucket) : Prop :=
  ∀ kind, Retention.kindOf bucket.objectType = some kind → kind.model = .trace →
    bucket.doomed.Nodup ∧ ∀ id ∈ bucket.doomed, owner id = orgId

theorem matchedIds_trace {kind : Retention.ObjectKind} (hmodel : kind.model = .trace) (cutoff : ℤ)
    (condition : Row → Bool) : ∃ check : Trace → Bool, Retention.matchedIds database orgId cutoff kind condition =
        (database.traces.filter fun trace ↦ check trace && trace.orgId = orgId).map Trace.id := by
  refine ⟨fun trace ↦ trace.createdAt < cutoff && condition (.trace trace), ?_⟩
  rw [Retention.matchedIds, hmodel, Database.table, List.filter_map, List.map_map]
  congr 1
  apply List.filter_congr
  intro trace _
  by_cases horg : trace.orgId = orgId
  · simp only [Function.comp_apply, Row.orgId, Row.createdAt, horg, decide_true, Bool.true_and, Bool.and_true]
    rfl
  · simp [Row.orgId, horg]

variable {moment : ℤ} {bucket : Retention.Bucket} {holds : List LegalHold} {organizations : List Organization}

theorem owned_of_bucketFor (hview : Seen owner plans database) {policy : RetentionPolicy}
    (h : Retention.bucketFor { database with holds := holds, organizations := organizations } orgId moment policy =
      .ok bucket) :
    Owned owner orgId bucket := by
  unfold Retention.bucketFor at h
  intro kind hkind hmodel
  cases hfound : Retention.kindOf policy.objectType with
  | none =>
    rw [hfound] at h
    obtain rfl := Except.ok.inj h
    exact ⟨List.nodup_nil, fun _ hid ↦ absurd hid List.not_mem_nil⟩
  | some planned =>
    rw [hfound] at h
    dsimp only at h
    by_cases hrunning : planned.name = "holdout_observation" ∧
        Retention.experimentRunning { database with holds := holds, organizations := organizations } orgId = true
    · rw [if_pos hrunning] at h
      obtain rfl := Except.ok.inj h
      exact ⟨List.nodup_nil, fun _ hid ↦ absurd hid List.not_mem_nil⟩
    · rw [if_neg hrunning] at h
      obtain ⟨condition, -, h⟩ := Py.of_bind h
      have hname : planned.name = policy.objectType := by simpa using List.find?_some hfound
      split_ifs at h with hblanket
      · obtain rfl := Except.ok.inj h
        obtain rfl : planned = kind := by
          have hsame : Retention.kindOf planned.name = some kind := hkind
          rw [hname, hfound] at hsame
          exact Option.some.inj hsame
        obtain ⟨check, hmatched⟩ := @matchedIds_trace { database with holds := holds, organizations := organizations }
          orgId planned hmodel (moment - policy.maxAgeDays * Retention.day) condition
        obtain ⟨hnodup, howner⟩ := @own_ids owner plans orgId database hview check
        rw [hmatched]
        refine ⟨(sortBy_perm id _).nodup_iff.mpr (hnodup.filter _), fun doomed hdoomed ↦ ?_⟩
        exact howner doomed (List.mem_of_mem_filter (mem_sortBy.mp hdoomed))
      · obtain rfl := Except.ok.inj h
        exact ⟨List.nodup_nil, fun _ hid ↦ absurd hid List.not_mem_nil⟩

theorem meets_planBuckets (policies : List RetentionPolicy) {post : Ledger → List Retention.Bucket → Prop}
    (h : ∀ buckets : List Retention.Bucket, (∀ bucket ∈ buckets, Owned owner orgId bucket) → post ledger buckets) :
    Meets (traceRules owner plans call) post ledger
      (Session.planBuckets orgId holds organizations moment policies) := by
  induction policies generalizing post with
  | nil => exact .done (h [] fun _ hmem ↦ absurd hmem List.not_mem_nil)
  | cons policy policies ih =>
    rw [Session.planBuckets]
    refine Meets.bind (Meets.read fun view hview ↦ ?_)
    refine Meets.bind (Meets.lift (fun _ _ ↦ trivial) fun bucket hbucket ↦ ?_)
    apply Meets.bind
    refine ih fun buckets hbuckets ↦ .done (h _ ?_)
    intro other hother
    obtain rfl | hother := List.mem_cons.mp hother
    · exact owned_of_bucketFor hview hbucket
    · exact hbuckets other hother

theorem settles_purgeBucket (horg : orgId = call.orgId) (hdebt : ledger.debt = 0)
    (howned : Owned owner orgId bucket) :
    Settles owner plans call ledger (Session.purgeBucket orgId bucket) := by
  unfold Session.purgeBucket
  split_ifs with hskip
  · exact .done hdebt
  · cases hkind : Retention.kindOf bucket.objectType with
    | none => exact .fail trivial
    | some kind =>
      dsimp only
      split_ifs with hmodel
      · obtain ⟨hnodup, howner⟩ := howned kind hkind hmodel
        refine Meets.bind (Meets.statement trivial ?_)
        rintro _ _ rfl
        refine Meets.bind (Meets.statement ⟨hnodup, fun id hid ↦ (howner id hid).trans horg⟩ ?_)
        rintro rowcount _ ⟨rfl, -⟩
        refine meets_adjust horg ?_ rfl
        rw [hdebt, zero_sub]
      · refine Meets.bind (Meets.statement ?_ ?_)
        · cases hmodel' : kind.model <;> trivial
        · intro result after hafter
          have hsame : after = ledger := by
            cases hmodel' : kind.model <;> rw [hmodel'] at hmodel hafter
            case trace => exact absurd rfl hmodel
            all_goals exact hafter
          rw [hsame]
          exact .done hdebt

theorem settles_purgeBuckets (horg : orgId = call.orgId) (hdebt : ledger.debt = 0)
    {buckets : List Retention.Bucket} (howned : ∀ bucket ∈ buckets, Owned owner orgId bucket) :
    Settles owner plans call ledger (Session.purgeBuckets orgId buckets) := by
  induction buckets generalizing ledger with
  | nil => exact .done hdebt
  | cons bucket buckets ih =>
    rw [List.forall_mem_cons] at howned
    rw [Session.purgeBuckets]
    apply Meets.bind
    exact Meets.mono (fun after _ hafter ↦ ih hafter howned.2)
      (settles_purgeBucket horg hdebt howned.1)

theorem settles_apply (horg : orgId = call.orgId) (hdebt : ledger.debt = 0)
    (expectDigest : String) (moment : ℤ) (auditId : String) :
    Settles owner plans call ledger (Session.apply runtime orgId expectDigest moment auditId) := by
  unfold Session.apply Session.plan
  apply Meets.bind
  refine Meets.bind (Meets.read fun _ _ ↦ ?_)
  refine Meets.bind (Meets.read fun _ _ ↦ ?_)
  refine Meets.bind (Meets.read fun _ _ ↦ ?_)
  apply Meets.bind
  refine meets_planBuckets _ fun buckets hbuckets ↦ .done ?_
  refine Meets.bind (Meets.lift (fun _ _ ↦ trivial) fun _ _ ↦ ?_)
  apply Meets.bind
  refine Meets.mono (fun after _ hafter ↦ ?_) (settles_purgeBuckets horg hdebt hbuckets)
  refine Meets.bind (Meets.statement trivial ?_)
  rintro _ _ rfl
  exact .done hafter

theorem settles_session (howner : ∀ id ∈ call.newId, owner id = call.orgId) :
    Settles owner plans call ⟨0, .idle⟩ (call.session runtime) := by
  have hunlimited : call.limited = false → call.limit plans = none := by
    intro hlimited
    rw [TraceCall.limit, if_neg fun h ↦ by rw [hlimited] at h; exact absurd h.1 Bool.false_ne_true]
  have hresult : ∀ {α : Type} {session : Session α}, Settles owner plans call ⟨0, .idle⟩ session →
      Settles owner plans call ⟨0, .idle⟩ (do let _ ← session; return ()) := by
    intro α session hsession
    exact Meets.bind (Meets.mono (fun _ _ hafter ↦ .done hafter) hsession)
  cases call with
  | contribute circumstances orgId request =>
    rw [TraceCall.session]
    exact hresult (settles_contributeTrace request rfl (howner _ rfl))
  | amend circumstances orgId request =>
    rw [TraceCall.session]
    exact hresult (settles_amendTrace request rfl (howner _ rfl))
  | delete visible orgId traceId =>
    rw [TraceCall.session]
    exact hresult (settles_deleteTrace rfl rfl rfl traceId)
  | purgeSubject visible orgId subjectId =>
    rw [TraceCall.session]
    exact hresult (settles_purgeTracesBySubject rfl rfl rfl subjectId)
  | review review =>
    rw [TraceCall.session]
    exact hresult (settles_reviewKbSubmission review rfl (howner _ rfl) (hunlimited rfl) rfl)
  | retention orgId expectDigest moment auditId =>
    rw [TraceCall.session]
    exact hresult (settles_apply rfl rfl expectDigest moment auditId)

end Meets

/-- The discipline of the counters. -/
def accounting (runtime : Runtime) (owner : String → String) (plans : List (String × String)) :
    Discipline engine (sessionOf runtime owner) Ledger where
  invariant := Accounted owner plans
  linked := fun call committed _ writes locks ledger ↦ Linked owner plans call committed writes locks ledger
  rules := traceRules owner plans
  final := fun _ ledger _ ↦ ledger.debt = 0
  promise := fun _ _ _ ↦ True
  good := FindsAll
  starts := by
    intro committed call session hcommitted hsession
    obtain ⟨_, howner, hsession⟩ := Py.of_bind hsession
    obtain rfl := Except.ok.inj hsession
    refine ⟨⟨0, .idle⟩, ⟨[], [], id, effect_nil, hcommitted.unique, ?_, fun _ ↦ rfl⟩, settles_session ?_⟩
    · intro org horg hid
      rw [sub_zero, ← hid, id, hcommitted.exact org horg, storedTraces_eq hcommitted.owned]
      rfl
    · intro id hid
      rw [Py.require_eq_ok_iff, Option.mem_def.mp hid] at howner
      exact of_decide_eq_true howner
  sees := fun _ _ _ _ _ _ hcommitted hlinked ↦ seen_of_linked hcommitted hlinked
  executes := fun _ _ _ _ _ _ _ hcommitted hlinked hpermits hgood ↦ linked_execute hcommitted hlinked hpermits hgood
  commits := fun _ _ _ _ _ _ _ hcommitted hlinked hdebt ↦ ⟨accounted_commit hcommitted hlinked hdebt, trivial⟩
  keeps := fun _ _ _ _ _ _ _ _ _ _ _ _ _ ↦ trivial
  stable := fun _ _ _ _ _ _ _ _ _ _ _ _ hcommitted hlinked hdebt hlinked' hapart ↦
    linked_stable hcommitted hlinked hdebt hlinked' hapart

/-- The limit that a plan puts on the traces of an organization. -/
def Database.maxTraces (database : Database) (orgId : String) : ℤ :=
  (planOf (((database.organizations.find? (·.id = orgId)).map Organization.plan).getD "")).2

theorem added_ne_nil (h : Effect owner orgId writes locks added removed count) {trace : Trace}
    (hstores : trace ∈ (engine.after committed writes).traces) (hnew : trace.id ∉ committed.ids) : added ≠ [] := by
  rintro rfl
  have hmem : trace.id ∈ (engine.after committed writes).ids := List.mem_map.mpr ⟨trace, hstores, rfl⟩
  rw [h.ids, List.append_nil] at hmem
  exact hnew (List.mem_of_mem_filter hmem)

/-- When deletions find every id they read, the counters are exact and keep to the limits. -/
theorem counters_are_exact (runtime : Runtime) (owner : String → String) (start : Database)
    (hunique : start.ids.Nodup) (howned : ∀ trace ∈ start.traces, owner trace.id = trace.orgId)
    (hexact : ∀ org ∈ start.organizations, org.traceCount = start.storedTraces org.id)
    (actions : List (SessionAction TraceCall))
    (hfinds : Along (sessionStep engine (sessionOf runtime owner)) (Executes engine FindsAll) (.fresh start)
      actions) :
    let state := run (sessionStep engine (sessionOf runtime owner)) (.fresh start) actions
    (∀ org ∈ state.committed.organizations, org.traceCount = state.committed.storedTraces org.id) ∧
    ∀ transaction ∈ state.active, transaction.program = .done () → transaction.call.limited = true →
      start.maxTraces transaction.call.orgId ≠ unlimited →
      (∃ trace ∈ (transaction.view engine state.committed).traces, trace.id ∉ state.committed.ids) →
      (∃ org ∈ start.organizations, org.id = transaction.call.orgId) →
        ((transaction.view engine state.committed).storedTraces transaction.call.orgId : ℤ) ≤
          start.maxTraces transaction.call.orgId := by
  intro state
  have hstart : Accounted owner (start.organizations.map fun org ↦ (org.id, org.plan)) start :=
    ⟨⟨hunique, howned, rfl⟩, hexact⟩
  have hsound := Discipline.sound_run (accounting runtime owner _) hstart hfinds
  refine ⟨hsound.invariant.exact, ?_⟩
  rintro transaction htransaction hdone hlimited hplan ⟨trace, htrace, hnew⟩ hknown
  obtain ⟨ledger, hlinked, -⟩ := hsound.kept transaction htransaction
  have hseen := seen_of_linked hsound.invariant hlinked
  obtain ⟨added, removed, count, heffect, -, -, hstaged⟩ := hlinked
  have hlimit : transaction.call.limit (start.organizations.map fun org ↦ (org.id, org.plan)) =
      some (start.maxTraces transaction.call.orgId) := by
    rw [Database.maxTraces, find?_plans] at hplan ⊢
    exact if_pos ⟨hlimited, hplan⟩
  have hknown' := (orgs_eq (rfl : start.organizations.map _ = _)).mpr hknown
  rw [Transaction.view, storedTraces_eq hseen.owned]
  cases hstage : ledger.stage with
  | idle =>
    rw [hstage] at hstaged
    exact absurd (hstaged (by rw [hlimit]; rfl)) (added_ne_nil heffect htrace hnew)
  | reserved =>
    rw [hstage] at hstaged
    exact (hstaged.2 _ hlimit hknown').le
  | stored =>
    rw [hstage] at hstaged
    exact (hstaged _ hlimit).2 hknown'

namespace Races

/-- An organization with a plan of a thousand traces. -/
def start : Database := { Sample.start with organizations := [⟨"o", "free", 0, 0⟩] }

def sole (_ : String) : String := "o"

/-- The turns of a call while nothing else runs. -/
def solo (call : TraceCall) (turns : ℕ) : List (SessionAction TraceCall) :=
  .start call :: List.replicate turns (.proceed 0)

/-- Two traces and an amendment of the first one. -/
def stored : List (SessionAction TraceCall) :=
  solo (.contribute (Sample.calm 0 (Sample.identity 'a')) "o" Sample.contribution) 6 ++
    solo (.contribute (Sample.calm 0 (Sample.identity 'c')) "o" Sample.contribution) 6 ++
    solo (.amend (Sample.calm 0 (Sample.identity 'b')) "o" (Sample.amendment (Sample.identity 'a'))) 9

def deletion : TraceCall := .delete (fun _ ↦ true) "o" (Sample.identity 'a')

/-- Two deletions read the same chain before one of them commits. -/
def actions : List (SessionAction TraceCall) :=
  stored ++ [.start deletion, .start deletion] ++ List.replicate 4 (.proceed 0) ++ List.replicate 4 (.proceed 1) ++
    List.replicate 8 (.proceed 0)

/-- The state after some actions. -/
def after (actions : List (SessionAction TraceCall)) :=
  run (sessionStep engine (sessionOf Sample.interpreter sole)) (.fresh start) actions

end Races

/-- The counter of one trace is zero after two deletions of one chain. -/
theorem deletions_race :
    Races.start.ids.Nodup ∧ (∀ trace ∈ Races.start.traces, Races.sole trace.id = trace.orgId) ∧
      (∀ org ∈ Races.start.organizations, org.traceCount = Races.start.storedTraces org.id) ∧
      ¬∀ org ∈ (Races.after Races.actions).committed.organizations,
        org.traceCount = (Races.after Races.actions).committed.storedTraces org.id := by
  refine ⟨List.nodup_nil, fun _ hmem ↦ absurd hmem List.not_mem_nil, by decide, ?_⟩
  decide +kernel

/-- The same deletion once, after the same calls. -/
theorem counters_are_exact_after_deletion :
    Along (sessionStep engine (sessionOf Sample.interpreter Races.sole)) (Executes engine FindsAll)
      (.fresh Races.start) (Races.stored ++ Races.solo Races.deletion 8) ∧
    ∀ org ∈ (Races.after (Races.stored ++ Races.solo Races.deletion 8)).committed.organizations,
      org.traceCount = (Races.after (Races.stored ++ Races.solo Races.deletion 8)).committed.storedTraces org.id := by
  have hfinds : Along (sessionStep engine (sessionOf Sample.interpreter Races.sole)) (Executes engine FindsAll)
      (.fresh Races.start) (Races.stored ++ Races.solo Races.deletion 8) := by decide +kernel
  exact ⟨hfinds, (counters_are_exact Sample.interpreter Races.sole Races.start List.nodup_nil
    (fun _ hmem ↦ absurd hmem List.not_mem_nil) (by decide) _ hfinds).1⟩

/-! ## Calls that run alone -/

namespace Session

/-- A contribution that runs alone, under a new id, ends with what `contribute_trace` leaves in one step. -/
theorem contributeTrace_ends (runtime : Runtime) (circumstances : Circumstances) (orgId : String)
    (request : ContributeRequest) (database : Database)
    (hnew : ∀ trace ∈ database.traces, trace.id ≠ circumstances.newId)
    (horg : ∃ org ∈ database.organizations, org.id = orgId) :
    (contributeTrace runtime circumstances orgId request).Ends engine database
      (Hub.contributeTrace runtime circumstances database database orgId request) := by
  rw [← alone_contributeTrace request hnew horg]
  exact Program.ends_alone _ database

theorem contributeTrace_ends_second :
    (contributeTrace Sample.interpreter (Sample.calm 0 (Sample.identity 'c')) "o" Sample.contribution).Ends engine
      Sample.twice (Hub.contributeTrace Sample.interpreter (Sample.calm 0 (Sample.identity 'c')) Sample.twice
        Sample.twice "o" Sample.contribution) :=
  contributeTrace_ends Sample.interpreter _ "o" Sample.contribution Sample.twice (by decide)
    ⟨_, List.mem_singleton_self _, rfl⟩

/-- An amendment that runs alone, under a new id, ends with what `amend_trace` leaves in one step. -/
theorem amendTrace_ends (runtime : Runtime) (circumstances : Circumstances) (orgId : String) (request : AmendRequest)
    (database : Database) (hnew : ∀ trace ∈ database.traces, trace.id ≠ circumstances.newId)
    (horg : ∃ org ∈ database.organizations, org.id = orgId) :
    (amendTrace runtime circumstances orgId request).Ends engine database
      (Hub.amendTrace runtime circumstances database database orgId request) := by
  rw [← alone_amendTrace request hnew horg]
  exact Program.ends_alone _ database

theorem amendTrace_ends_third :
    (amendTrace Sample.interpreter (Sample.calm 0 (Sample.identity 'c')) "o"
        (Sample.amendment (Sample.identity 'b'))).Ends engine Sample.twice
      (Hub.amendTrace Sample.interpreter (Sample.calm 0 (Sample.identity 'c')) Sample.twice Sample.twice "o"
        (Sample.amendment (Sample.identity 'b'))) :=
  amendTrace_ends Sample.interpreter _ "o" _ Sample.twice (by decide) ⟨_, List.mem_singleton_self _, rfl⟩

/-- A deletion that runs alone ends with what `delete_trace` leaves in one step. -/
theorem deleteTrace_ends (visible : Trace → Bool) (orgId traceId : String) (database : Database) :
    (deleteTrace orgId visible traceId).Ends engine database (Hub.deleteTrace visible database orgId traceId) := by
  rw [← alone_deleteTrace]
  exact Program.ends_alone _ database

/-- A deletion of the traces of a subject that runs alone ends with what the deletions leave in one step. -/
theorem purgeTracesBySubject_ends (visible : Trace → Bool) (orgId subjectId : String) (database : Database) :
    (purgeTracesBySubject orgId visible subjectId).Ends engine database
      (Hub.purgeTracesBySubject visible database orgId subjectId) := by
  rw [← alone_purgeTracesBySubject]
  exact Program.ends_alone _ database

end Session

end UniMem.Hub
