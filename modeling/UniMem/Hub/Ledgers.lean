import UniMem.Hub.Sessions

/-!
# What transactions owe the counter of traces

A transaction owes the counter of its organization what it has stored and not yet added, or deleted and not yet
subtracted. Locks keep its debt when another transaction commits.
-/

namespace UniMem.Hub

open Library

/-- The calls that store or delete traces. -/
inductive TraceCall where
  | contribute (circumstances : Circumstances) (orgId : String) (request : ContributeRequest)
  | amend (circumstances : Circumstances) (orgId : String) (request : AmendRequest)
  | delete (visible : Trace → Bool) (orgId traceId : String)
  | purgeSubject (visible : Trace → Bool) (orgId subjectId : String)
  | review (review : Session.Review)
  | retention (orgId expectDigest : String) (moment : ℤ) (auditId : String)

namespace TraceCall

/-- The organization whose traces a call changes. -/
def orgId : TraceCall → String
  | contribute _ orgId _ => orgId
  | amend _ orgId _ => orgId
  | delete _ orgId _ => orgId
  | purgeSubject _ orgId _ => orgId
  | review request => request.operatorOrgId
  | retention orgId _ _ _ => orgId

/-- The id that a call draws for a new trace. -/
def newId : TraceCall → Option String
  | contribute circumstances _ _ => some circumstances.newId
  | amend circumstances _ _ => some circumstances.newId
  | review request => some request.newId
  | _ => none

/-- The calls that delete with `delete_trace`. -/
def deletesChains : TraceCall → Bool
  | delete _ _ _ => true
  | purgeSubject _ _ _ => true
  | _ => false

/-- The calls that a plan limits. -/
def limited : TraceCall → Bool
  | contribute _ _ _ => true
  | amend _ _ _ => true
  | _ => false

def session (runtime : Runtime) : TraceCall → Session Unit
  | contribute circumstances orgId request => do
    let _ ← Session.contributeTrace runtime circumstances orgId request
    return ()
  | amend circumstances orgId request => do
    let _ ← Session.amendTrace runtime circumstances orgId request
    return ()
  | delete visible orgId traceId => do
    let _ ← Session.deleteTrace orgId visible traceId
    return ()
  | purgeSubject visible orgId subjectId => do
    let _ ← Session.purgeTracesBySubject orgId visible subjectId
    return ()
  | review request => do
    let _ ← Session.reviewKbSubmission request
    return ()
  | retention orgId expectDigest moment auditId => do
    let _ ← Session.apply runtime orgId expectDigest moment auditId
    return ()

end TraceCall

/-- The session of a call. `uuid4` draws no id twice, so every id has one `owner`. -/
def sessionOf (runtime : Runtime) (owner : String → String) (call : TraceCall) : Py (Session Unit) := do
  Py.require (call.newId.all fun id ↦ owner id = call.orgId) (.runtimeError "the id was drawn before")
  return call.session runtime

/-- The ids of the traces that a statement deletes. -/
def Statement.deletes : Statement → List String
  | .deleteRows .trace ids => ids
  | _ => []

/-- The deletion of a chain finds every id that was read. -/
def FindsAll (call : TraceCall) (statement : Statement) (_ view : Database) : Prop :=
  call.deletesChains = true → ∀ id ∈ statement.deletes, id ∈ view.traces.map Trace.id

instance (call : TraceCall) (statement : Statement) (before view : Database) :
    Decidable (FindsAll call statement before view) :=
  inferInstanceAs (Decidable (call.deletesChains = true → ∀ id ∈ statement.deletes, id ∈ view.traces.map Trace.id))

def Database.ids (database : Database) : List String := database.traces.map Trace.id

/-- The number of traces that an organization stores. -/
def Database.storedTraces (database : Database) (orgId : String) : ℕ :=
  (database.traces.filter fun trace ↦ trace.orgId = orgId).length

variable {runtime : Runtime} (owner : String → String) (plans : List (String × String))

/-- The number of ids of an organization. -/
def tally (orgId : String) (ids : List String) : ℕ := (ids.filter fun id ↦ owner id = orgId).length

/-- What every statement sees. -/
structure Seen (database : Database) : Prop where
  unique : database.ids.Nodup
  owned : ∀ trace ∈ database.traces, owner trace.id = trace.orgId
  plans : database.organizations.map (fun org ↦ (org.id, org.plan)) = plans

/-- A database whose counters are exact. -/
structure Accounted (database : Database) : Prop extends Seen owner plans database where
  exact : ∀ org ∈ database.organizations, org.traceCount = database.storedTraces org.id

variable {owner plans} {database committed : Database} {orgId : String} {ids : List String}

theorem storedTraces_eq (howned : ∀ trace ∈ database.traces, owner trace.id = trace.orgId) (orgId : String) :
    database.storedTraces orgId = tally owner orgId database.ids := by
  rw [Database.storedTraces, tally, Database.ids, List.filter_map, List.length_map]
  congr 1
  apply List.filter_congr
  intro trace htrace
  simp [howned trace htrace]

@[simp]
theorem tally_append (others : List String) :
    tally owner orgId (ids ++ others) = tally owner orgId ids + tally owner orgId others := by
  rw [tally, List.filter_append, List.length_append]
  rfl

theorem tally_eq_length (h : ∀ id ∈ ids, owner id = orgId) : tally owner orgId ids = ids.length := by
  rw [tally, List.filter_eq_self.mpr fun id hid ↦ decide_eq_true (h id hid)]

theorem tally_eq_zero (h : ∀ id ∈ ids, owner id ≠ orgId) : tally owner orgId ids = 0 := by
  rw [tally, List.filter_eq_nil_iff.mpr fun id hid ↦ by simp [h id hid], List.length_nil]

theorem tally_filter (condition : String → Bool) :
    tally owner orgId (ids.filter condition) + tally owner orgId (ids.filter fun id ↦ !condition id) =
      tally owner orgId ids := by
  rw [← tally_append]
  exact ((List.filter_append_perm condition ids).filter _).length_eq

theorem after_singleton (write : Write) : engine.after database [write] = write.apply database := rfl

/-- What the writes of a transaction of an organization do to ids and counters. -/
structure Effect (owner : String → String) (orgId : String) (writes : List Write) (locks : List Lock)
    (added removed : List String) (count : ℤ → ℤ) : Prop where
  ids : ∀ database, (engine.after database writes).ids =
    (database.ids.filter fun id ↦ id ∉ removed) ++ added
  organizations : ∀ database, (engine.after database writes).organizations =
    database.organizations.map fun org ↦
      if org.id = orgId then { org with traceCount := count org.traceCount } else org
  owned : ∀ database, (∀ trace ∈ database.traces, owner trace.id = trace.orgId) →
    ∀ trace ∈ (engine.after database writes).traces, owner trace.id = trace.orgId
  locked : ∀ id, id ∈ added ∨ id ∈ removed → Lock.trace id ∈ locks ∧ owner id = orgId
  reserved : count = id ∨ Lock.organization orgId ∈ locks

variable {writes : List Write} {locks more : List Lock} {added removed : List String} {count : ℤ → ℤ}

theorem effect_nil : Effect owner orgId [] [] [] [] id where
  ids := fun database ↦ by simp [Engine.after]
  organizations := fun database ↦ by simp [Engine.after]
  owned := fun _ h ↦ h
  locked := fun id h ↦ by simp at h
  reserved := Or.inl rfl

variable {call other : TraceCall} {ledger : Ledger} {statement : Statement} {before : Database}

section

variable (h : Effect owner orgId writes locks added removed count)
include h

theorem Effect.lock (more : List Lock) :
    Effect owner orgId writes (locks ++ more) added removed count where
  ids := h.ids
  organizations := h.organizations
  owned := h.owned
  locked := fun id hid ↦ ⟨List.mem_append_left _ (h.locked id hid).1, (h.locked id hid).2⟩
  reserved := h.reserved.imp_right (List.mem_append_left _)

/-- A write that stores and deletes no trace and changes no counter. -/
structure Write.Neutral (write : Write) : Prop where
  ids : ∀ database, (write.apply database).ids = database.ids
  organizations : ∀ database, (write.apply database).organizations = database.organizations
  owners : ∀ database, ∀ trace ∈ (write.apply database).traces,
    ∃ other ∈ database.traces, other.id = trace.id ∧ other.orgId = trace.orgId

theorem Effect.neutral {write : Write}
    (hneutral : write.Neutral) : Effect owner orgId (writes ++ [write]) locks added removed count where
  ids := fun database ↦ by rw [after_append, after_singleton, hneutral.ids, h.ids]
  organizations := fun database ↦ by rw [after_append, after_singleton, hneutral.organizations, h.organizations]
  owned := by
    intro database howned trace htrace
    rw [after_append, after_singleton] at htrace
    obtain ⟨other, hother, hid, horg⟩ := hneutral.owners _ trace htrace
    rw [← hid, ← horg]
    exact h.owned database howned other hother
  locked := h.locked
  reserved := h.reserved

theorem Effect.insert {trace : Trace}
    (howner : owner trace.id = trace.orgId) (horg : trace.orgId = orgId) (hlock : Lock.trace trace.id ∈ locks) :
    Effect owner orgId (writes ++ [.insertTrace trace]) locks (added ++ [trace.id]) removed count where
  ids := by
    intro database
    rw [after_append, after_singleton, ← List.append_assoc, ← h.ids, Database.ids, Write.apply, List.map_append]
    rfl
  organizations := fun database ↦ by rw [after_append, after_singleton, Write.apply, h.organizations]
  owned := by
    intro database howned other hother
    rw [after_append, after_singleton] at hother
    obtain hold | hnew := List.mem_append.mp hother
    · exact h.owned database howned other hold
    · rwa [List.mem_singleton.mp hnew]
  locked := by
    intro id hid
    rw [List.mem_append, List.mem_singleton, or_right_comm] at hid
    obtain hold | rfl := hid
    · exact h.locked id hold
    · exact ⟨hlock, howner.trans horg⟩
  reserved := h.reserved

omit h in
theorem ids_deleteRows : (database.deleteRows .trace ids).ids = database.ids.filter fun id ↦ id ∉ ids := by
  rw [Database.ids, Database.ids, List.filter_map]
  simp only [Database.deleteRows, Database.deleteTraces, decide_not]
  rfl

theorem Effect.delete
    (hids : ∀ id ∈ ids, Lock.trace id ∈ locks ∧ owner id = orgId) :
    Effect owner orgId (writes ++ [.deleteRows .trace ids]) locks (added.filter fun id ↦ id ∉ ids) (removed ++ ids)
      count where
  ids := by
    intro database
    rw [after_append, after_singleton, Write.apply, ids_deleteRows, h.ids, List.filter_append, List.filter_filter]
    congr 1
    apply List.filter_congr
    intro id _
    simp [and_comm]
  organizations := fun database ↦ by rw [after_append, after_singleton, ← h.organizations]; rfl
  owned := by
    intro database howned trace htrace
    rw [after_append, after_singleton] at htrace
    exact h.owned database howned trace (List.mem_of_mem_filter htrace)
  locked := by
    intro id hid
    rw [List.mem_append] at hid
    obtain hadded | hremoved | hid := hid
    · exact h.locked id (Or.inl (List.mem_of_mem_filter hadded))
    · exact h.locked id (Or.inr hremoved)
    · exact hids id hid
  reserved := h.reserved

theorem Effect.adjust (delta : ℤ)
    (hlock : Lock.organization orgId ∈ locks) :
    Effect owner orgId (writes ++ [.adjustTraceCount orgId delta]) locks added removed
      (fun stored ↦ max 0 (count stored + delta)) where
  ids := fun database ↦ by rw [after_append, after_singleton, ← h.ids]; rfl
  organizations := by
    intro database
    rw [after_append, after_singleton, Write.apply, Database.adjustTraceCount, h.organizations, List.map_map]
    apply List.map_congr_left
    intro org _
    simp only [Function.comp_apply]
    by_cases horg : org.id = orgId <;> simp [horg]
  owned := by
    intro database howned trace htrace
    rw [after_append, after_singleton] at htrace
    exact h.owned database howned trace htrace
  locked := h.locked
  reserved := Or.inr hlock

/-- How far a limited call is: before its slot, with it, or with its trace. -/
inductive Stage where
  | idle
  | reserved
  | stored
  deriving DecidableEq

/-- What a transaction owes the counter of its organization. -/
structure Ledger where
  debt : ℤ
  stage : Stage

variable (owner plans)

/-- The limit of a call that a plan limits. -/
def TraceCall.limit (call : TraceCall) : Option ℤ :=
  let limit := (planOf ((plans.lookup call.orgId).getD "")).2
  if call.limited = true ∧ limit ≠ unlimited then some limit else none

/-- What a limited call knows about the traces of its organization. -/
def Staged (limit : Option ℤ) (known : Prop) (reserved : Prop) (added : List String) (count : ℤ) : Stage → Prop
  | .idle => limit.isSome = true → added = []
  | .reserved => reserved ∧ ∀ bound ∈ limit, known → count < bound
  | .stored => ∀ bound ∈ limit, reserved ∧ (known → count ≤ bound)

/-- The link between a transaction and its ledger. -/
def Linked (call : TraceCall) (committed : Database) (writes : List Write) (locks : List Lock) (ledger : Ledger) :
    Prop :=
  ∃ added removed count, Effect owner call.orgId writes locks added removed count ∧
    (engine.after committed writes).ids.Nodup ∧
    (∀ org ∈ committed.organizations, org.id = call.orgId →
      count org.traceCount = tally owner call.orgId (engine.after committed writes).ids - ledger.debt) ∧
    Staged (call.limit plans) (call.orgId ∈ plans.map Prod.fst) (Lock.organization call.orgId ∈ locks) added
      (tally owner call.orgId (engine.after committed writes).ids) ledger.stage

/-- The rules of the calls. -/
def traceRules (call : TraceCall) : Rules Ledger Database (fun _ : Statement ↦ ℤ) PyError where
  sees _ view := Seen owner plans view
  permits ledger
    | .reserve orgId => orgId = call.orgId
    | .insertTrace trace => trace.orgId = call.orgId ∧ owner trace.id = call.orgId ∧
      ((call.limit plans).isSome = true → ledger.stage = .reserved)
    | .deleteRows .trace ids => ids.Nodup ∧ ∀ id ∈ ids, owner id = call.orgId
    | .adjustTraceCount orgId delta => orgId = call.orgId ∧ delta = ledger.debt
    | _ => True
  answers ledger statement result after :=
    match statement with
    | .reserve _ =>
      after = if ledger.debt = 0 ∧ ∀ bound ∈ call.limit plans, result < bound then { ledger with stage := .reserved }
        else ledger
    | .insertTrace _ => (result = 0 ∧ after = ledger) ∨ (result ≠ 0 ∧ after = ⟨ledger.debt + 1, .stored⟩)
    | .deleteRows .trace ids => after = { ledger with debt := ledger.debt - result } ∧
      (call.deletesChains = true → result = ids.length)
    | .adjustTraceCount _ _ => after = { ledger with debt := 0 }
    | _ => after = ledger
  raises _ := True

variable {owner plans}

omit h in
theorem orgs_eq (h : committed.organizations.map (fun org ↦ (org.id, org.plan)) = plans) :
    orgId ∈ plans.map Prod.fst ↔ ∃ org ∈ committed.organizations, org.id = orgId := by
  rw [← h, List.map_map, List.mem_map]
  rfl

theorem Effect.plans_eq :
    (engine.after committed writes).organizations.map (fun org ↦ (org.id, org.plan)) =
      committed.organizations.map fun org ↦ (org.id, org.plan) := by
  rw [h.organizations, List.map_map]
  apply List.map_congr_left
  intro org _
  simp only [Function.comp_apply]
  split_ifs <;> rfl

end

theorem seen_of_linked (hcommitted : Accounted owner plans committed)
    (hlinked : Linked owner plans call committed writes locks ledger) :
    Seen owner plans (engine.after committed writes) := by
  obtain ⟨added, removed, count, heffect, hunique, -⟩ := hlinked
  exact ⟨hunique, heffect.owned committed hcommitted.owned, heffect.plans_eq.trans hcommitted.plans⟩

theorem neutral_supersede (original superseding : String) : (Write.supersede original superseding).Neutral := by
  refine ⟨?_, fun _ ↦ rfl, ?_⟩
  · intro database
    rw [Database.ids, Database.ids, Write.apply, List.map_map]
    apply List.map_congr_left
    intro trace _
    simp only [Function.comp_apply]
    split_ifs <;> rfl
  · intro database trace htrace
    obtain ⟨other, hother, rfl⟩ := List.mem_map.mp htrace
    refine ⟨other, hother, ?_⟩
    split_ifs <;> exact ⟨rfl, rfl⟩

theorem neutral_of_eq {write : Write} (htraces : ∀ database, (write.apply database).traces = database.traces)
    (horgs : ∀ database, (write.apply database).organizations = database.organizations) : write.Neutral where
  ids := fun database ↦ by rw [Database.ids, Database.ids, htraces]
  organizations := horgs
  owners := fun database trace htrace ↦ ⟨trace, htraces database ▸ htrace, rfl, rfl⟩

theorem neutral_deleteRows {model : Model} (h : model ≠ .trace) (ids : List String) :
    (Write.deleteRows model ids).Neutral := by
  cases model with
  | trace => exact absurd rfl h
  | _ => exact neutral_of_eq (fun _ ↦ rfl) fun _ ↦ rfl

theorem Staged.mono {limit : Option ℤ} {known reserved reserved' : Prop} {added added' : List String}
    {count count' : ℤ}
    {stage : Stage} (h : Staged limit known reserved added count stage) (hreserved : reserved → reserved')
    (hadded : added = [] → added' = []) (hcount : count' ≤ count) :
    Staged limit known reserved' added' count' stage := by
  cases stage with
  | idle => exact fun hlimit ↦ hadded (h hlimit)
  | reserved => exact ⟨hreserved h.1, fun bound hbound hknown ↦ hcount.trans_lt (h.2 bound hbound hknown)⟩
  | stored => exact fun bound hbound ↦ ⟨hreserved (h bound hbound).1, fun hknown ↦
    hcount.trans ((h bound hbound).2 hknown)⟩

section

variable (hlinked : Linked owner plans call committed writes locks ledger)
include hlinked

theorem Linked.lock (more : List Lock) :
    Linked owner plans call committed writes (locks ++ more) ledger := by
  obtain ⟨added, removed, count, heffect, hunique, hcount, hstage⟩ := hlinked
  exact ⟨added, removed, count, heffect.lock more, hunique, hcount, hstage.mono (List.mem_append_left _) id le_rfl⟩

theorem Linked.neutral {write : Write}
    (hneutral : write.Neutral) : Linked owner plans call committed (writes ++ [write]) locks ledger := by
  obtain ⟨added, removed, count, heffect, hunique, hcount, hstage⟩ := hlinked
  have hids : (engine.after committed (writes ++ [write])).ids = (engine.after committed writes).ids := by
    rw [after_append, after_singleton, hneutral.ids]
  rw [← hids] at hunique hcount hstage
  exact ⟨added, removed, count, heffect.neutral hneutral, hunique, hcount, hstage⟩

omit hlinked in
theorem Linked.reserve (hcommitted : Accounted owner plans committed)
    (hlinked : Linked owner plans call committed writes locks ledger) (hdebt : ledger.debt = 0)
    (hbound : ∀ bound ∈ call.limit plans,
      (Statement.reserve call.orgId).result (engine.after committed writes) < bound) :
    Linked owner plans call committed writes (locks ++ [.organization call.orgId])
      { ledger with stage := .reserved } := by
  have hseen := seen_of_linked hcommitted hlinked
  obtain ⟨added, removed, count, heffect, hunique, hcount, -⟩ := hlinked
  refine ⟨added, removed, count, heffect.lock _, hunique, hcount, List.mem_append_right _ List.mem_cons_self, ?_⟩
  intro bound hlimit hknown
  obtain ⟨org, horg, hid⟩ := (orgs_eq hseen.plans).mp hknown
  have hfound : ∃ found, (engine.after committed writes).organizations.find? (·.id = call.orgId) = some found :=
    Option.isSome_iff_exists.mp (List.find?_isSome.mpr ⟨org, horg, decide_eq_true hid⟩)
  obtain ⟨found, hfound⟩ := hfound
  have hless := hbound bound hlimit
  rw [Statement.result, hfound] at hless
  have hmem := List.mem_of_find?_eq_some hfound
  have hfoundId : found.id = call.orgId := by simpa using List.find?_some hfound
  rw [heffect.organizations, List.mem_map] at hmem
  obtain ⟨before, hbefore, rfl⟩ := hmem
  by_cases hbeforeId : before.id = call.orgId
  · rw [if_pos hbeforeId] at hless
    have hstored := hcount before hbefore hbeforeId
    rw [hdebt, sub_zero] at hstored
    rw [← hstored]
    exact hless
  · rw [if_neg hbeforeId] at hfoundId
    exact absurd hfoundId hbeforeId

theorem Linked.insert {trace : Trace}
    (horg : trace.orgId = call.orgId) (howner : owner trace.id = call.orgId)
    (hstage : (call.limit plans).isSome = true → ledger.stage = .reserved)
    (hnew : violates (engine.after committed writes) trace = false) (hlock : Lock.trace trace.id ∈ locks) :
    Linked owner plans call committed (writes ++ [.insertTrace trace]) locks ⟨ledger.debt + 1, .stored⟩ := by
  obtain ⟨added, removed, count, heffect, hunique, hcount, hstaged⟩ := hlinked
  have hids : (engine.after committed (writes ++ [.insertTrace trace])).ids =
      (engine.after committed writes).ids ++ [trace.id] := by
    rw [after_append, after_singleton, Database.ids, Write.apply, List.map_append]
    rfl
  have htally : tally owner call.orgId [trace.id] = 1 := tally_eq_length fun id hid ↦
    List.mem_singleton.mp hid ▸ howner
  have hfresh : trace.id ∉ (engine.after committed writes).ids := by
    intro hmem
    obtain ⟨other, hother, hid⟩ := List.mem_map.mp hmem
    rw [violates, Bool.or_eq_false_iff] at hnew
    have hany := List.any_eq_false.mp hnew.2 other hother
    simp [hid] at hany
  refine ⟨added ++ [trace.id], removed, count, heffect.insert (howner.trans horg.symm) horg hlock, ?_, ?_, ?_⟩
  · rw [hids]
    refine List.nodup_append.mpr ⟨hunique, List.nodup_singleton _, ?_⟩
    rintro id hid _ hlast rfl
    exact hfresh (List.mem_singleton.mp hlast ▸ hid)
  · intro org hmem hid
    rw [hids, tally_append, htally, hcount org hmem hid]
    push_cast
    ring
  · intro bound hbound
    rw [hstage (Option.isSome_iff_exists.mpr ⟨bound, hbound⟩)] at hstaged
    refine ⟨hstaged.1, fun hknown ↦ ?_⟩
    have hless := hstaged.2 bound hbound hknown
    rw [hids, tally_append, htally]
    push_cast
    omega

end

theorem found_trace (database : Database) (ids : List String) :
    database.found .trace ids = database.ids.filter fun id ↦ id ∈ ids := by
  rw [Database.found, Database.table, Database.ids, List.filter_map, List.map_map, List.filter_map]
  rfl

theorem tally_deleted (howner : ∀ id ∈ ids, owner id = orgId) (stored : List String) :
    (tally owner orgId (stored.filter fun id ↦ id ∉ stored.filter fun id ↦ id ∈ ids) : ℤ) =
      tally owner orgId stored - (stored.filter fun id ↦ id ∈ ids).length := by
  have hsplit : tally owner orgId (stored.filter fun id ↦ decide (id ∈ ids)) +
      tally owner orgId (stored.filter fun id ↦ !decide (id ∈ ids)) = tally owner orgId stored := tally_filter _
  have hgone : tally owner orgId (stored.filter fun id ↦ id ∈ ids) = (stored.filter fun id ↦ id ∈ ids).length :=
    tally_eq_length fun id hid ↦ howner id (of_decide_eq_true (List.mem_filter.mp hid).2)
  have hkept : (stored.filter fun id ↦ id ∉ stored.filter fun id ↦ id ∈ ids) =
      stored.filter fun id ↦ !decide (id ∈ ids) := by
    apply List.filter_congr
    intro id hid
    simp [hid]
  rw [hkept]
  omega

theorem Linked.delete (hlinked : Linked owner plans call committed writes locks ledger)
    (howner : ∀ id ∈ ids, owner id = call.orgId)
    (hlocks : ∀ id ∈ (engine.after committed writes).found .trace ids, Lock.trace id ∈ locks) :
    Linked owner plans call committed
      (writes ++ [.deleteRows .trace ((engine.after committed writes).found .trace ids)]) locks
      { ledger with debt := ledger.debt - ((engine.after committed writes).found .trace ids).length } := by
  obtain ⟨added, removed, count, heffect, hunique, hcount, hstaged⟩ := hlinked
  rw [found_trace] at hlocks ⊢
  have hids : (engine.after committed (writes ++ [.deleteRows .trace
      ((engine.after committed writes).ids.filter fun id ↦ id ∈ ids)])).ids =
      (engine.after committed writes).ids.filter fun id ↦
        id ∉ (engine.after committed writes).ids.filter fun id ↦ id ∈ ids := by
    rw [after_append, after_singleton, Write.apply, ids_deleteRows]
  have htally := tally_deleted howner (engine.after committed writes).ids
  have hle : (tally owner call.orgId ((engine.after committed writes).ids.filter fun id ↦
      id ∉ (engine.after committed writes).ids.filter fun id ↦ id ∈ ids) : ℤ) ≤
      tally owner call.orgId (engine.after committed writes).ids := by omega
  refine ⟨_, _, count, heffect.delete fun id hid ↦ ⟨hlocks id hid,
    howner id (of_decide_eq_true (List.mem_filter.mp hid).2)⟩, ?_, ?_, ?_⟩
  · rw [hids]
    exact hunique.filter _
  · intro org hmem hid
    rw [hids, htally, hcount org hmem hid]
    dsimp only
    ring
  · rw [hids]
    exact hstaged.mono id (fun hnil ↦ by rw [hnil, List.filter_nil]) hle

theorem Linked.adjust (hlinked : Linked owner plans call committed writes locks ledger)
    (hlock : Lock.organization call.orgId ∈ locks) :
    Linked owner plans call committed (writes ++ [.adjustTraceCount call.orgId ledger.debt]) locks
      { ledger with debt := 0 } := by
  obtain ⟨added, removed, count, heffect, hunique, hcount, hstaged⟩ := hlinked
  have hids : (engine.after committed (writes ++ [.adjustTraceCount call.orgId ledger.debt])).ids =
      (engine.after committed writes).ids := by
    rw [after_append]
    rfl
  refine ⟨added, removed, _, heffect.adjust ledger.debt hlock, ?_, ?_, ?_⟩
  · rwa [hids]
  · intro org hmem hid
    rw [hids, hcount org hmem hid, sub_add_cancel, sub_zero]
    exact max_eq_right (Nat.cast_nonneg _)
  · rw [hids]
    exact hstaged

theorem length_found (hunique : database.ids.Nodup) (hids : ids.Nodup) (hall : ∀ id ∈ ids, id ∈ database.ids) :
    (database.found .trace ids).length = ids.length := by
  rw [found_trace]
  refine List.Perm.length_eq ((List.perm_ext_iff_of_nodup (hunique.filter _) hids).mpr ?_)
  intro id
  rw [List.mem_filter, decide_eq_true_eq]
  exact ⟨And.right, fun hid ↦ ⟨hall id hid, hid⟩⟩

theorem linked_execute (hcommitted : Accounted owner plans committed)
    (hlinked : Linked owner plans call committed writes locks ledger)
    (hpermits : (traceRules owner plans call).permits ledger statement)
    (hgood : FindsAll call statement before (engine.after committed writes)) :
    ∃ after, (traceRules owner plans call).answers ledger statement
        (engine.result statement (engine.after committed writes)) after ∧
      Linked owner plans call committed (writes ++ engine.writes statement (engine.after committed writes))
        (locks ++ engine.locks statement (engine.after committed writes)) after := by
  cases statement with
  | reserve orgId =>
    obtain rfl : orgId = call.orgId := hpermits
    refine ⟨_, rfl, ?_⟩
    change Linked owner plans call committed (writes ++ []) (locks ++ [.organization call.orgId]) _
    rw [List.append_nil]
    split_ifs with hslot
    · exact hlinked.reserve hcommitted hslot.1 hslot.2
    · exact hlinked.lock _
  | insertTrace trace =>
    obtain ⟨horg, howner, hstage⟩ := hpermits
    cases hviolates : violates (engine.after committed writes) trace with
    | true =>
      refine ⟨ledger, Or.inl ⟨if_pos hviolates, rfl⟩, ?_⟩
      change Linked owner plans call committed (writes ++ (if violates _ trace = true then [] else _)) _ _
      rw [if_pos hviolates, List.append_nil]
      exact hlinked.lock _
    | false =>
      have hresult : engine.result (.insertTrace trace) (engine.after committed writes) = 1 :=
        if_neg (by simp [hviolates])
      refine ⟨⟨ledger.debt + 1, .stored⟩, Or.inr ⟨by rw [hresult]; exact one_ne_zero, rfl⟩, ?_⟩
      change Linked owner plans call committed (writes ++ (if violates _ trace = true then [] else _)) _ _
      rw [if_neg (by simp [hviolates])]
      exact (hlinked.lock _).insert horg howner hstage hviolates
        (List.mem_append_right _ List.mem_cons_self)
  | supersede original superseding =>
    exact ⟨ledger, rfl, (hlinked.lock _).neutral (neutral_supersede original superseding)⟩
  | insertRelations relations =>
    exact ⟨ledger, rfl, (hlinked.lock _).neutral (neutral_of_eq (fun _ ↦ rfl) fun _ ↦ rfl)⟩
  | deleteRelationsTo ids =>
    exact ⟨ledger, rfl, (hlinked.lock _).neutral (neutral_of_eq (fun _ ↦ rfl) fun _ ↦ rfl)⟩
  | deleteRows model ids =>
    by_cases hmodel : model = .trace
    · subst hmodel
      obtain ⟨hids, howner⟩ := hpermits
      have hseen := seen_of_linked hcommitted hlinked
      refine ⟨_, ⟨rfl, ?_⟩, (hlinked.lock _).delete howner ?_⟩
      · intro hchain
        exact congrArg Nat.cast (length_found hseen.unique hids (hgood hchain))
      · intro id hid
        exact List.mem_append_right _ (List.mem_map.mpr ⟨id, hid, rfl⟩)
    · refine ⟨ledger, ?_, (hlinked.lock _).neutral (neutral_deleteRows hmodel _)⟩
      cases model <;> first | rfl | exact absurd rfl hmodel
  | adjustTraceCount orgId delta =>
    obtain ⟨rfl, rfl⟩ : orgId = call.orgId ∧ delta = ledger.debt := hpermits
    exact ⟨_, rfl, (hlinked.lock _).adjust (List.mem_append_right _ List.mem_cons_self)⟩
  | lockSubmission submissionId =>
    refine ⟨ledger, rfl, ?_⟩
    change Linked owner plans call committed (writes ++ []) _ _
    rw [List.append_nil]
    exact hlinked.lock _
  | updateSubmission submissionId status resultingTraceId =>
    exact ⟨ledger, rfl, (hlinked.lock _).neutral (neutral_of_eq (fun _ ↦ rfl) fun _ ↦ rfl)⟩
  | insertAudit entry =>
    exact ⟨ledger, rfl, (hlinked.lock _).neutral (neutral_of_eq (fun _ ↦ rfl) fun _ ↦ rfl)⟩

theorem Effect.tally_of_ne (h : Effect owner orgId writes locks added removed count) {other : String}
    (hne : other ≠ orgId) :
    tally owner other (engine.after committed writes).ids = tally owner other committed.ids := by
  have hforeign : ∀ ids : List String, (∀ id ∈ ids, owner id = orgId) → tally owner other ids = 0 :=
    fun ids hids ↦ tally_eq_zero fun id hid heq ↦ hne (heq.symm.trans (hids id hid))
  have hsplit : tally owner other (committed.ids.filter fun id ↦ decide (id ∈ removed)) +
      tally owner other (committed.ids.filter fun id ↦ !decide (id ∈ removed)) = tally owner other committed.ids :=
    tally_filter _
  rw [hforeign _ fun id hid ↦ (h.locked id (Or.inr (of_decide_eq_true (List.mem_filter.mp hid).2))).2] at hsplit
  rw [h.ids, tally_append, hforeign added fun id hid ↦ (h.locked id (Or.inl hid)).2, ← hsplit]
  simp only [decide_not]
  omega

theorem accounted_commit (hcommitted : Accounted owner plans committed)
    (hlinked : Linked owner plans call committed writes locks ledger) (hdebt : ledger.debt = 0) :
    Accounted owner plans (engine.after committed writes) := by
  have hseen := seen_of_linked hcommitted hlinked
  obtain ⟨added, removed, count, heffect, hunique, hcount, -⟩ := hlinked
  refine ⟨hseen, ?_⟩
  intro org horg
  rw [heffect.organizations, List.mem_map] at horg
  obtain ⟨before, hbefore, rfl⟩ := horg
  rw [storedTraces_eq hseen.owned]
  by_cases hid : before.id = call.orgId
  · rw [if_pos hid]
    change count before.traceCount = tally owner before.id _
    rw [hcount before hbefore hid, hdebt, sub_zero, hid]
  · rw [if_neg hid, heffect.tally_of_ne hid, hcommitted.exact before hbefore, storedTraces_eq hcommitted.owned]

theorem tally_perm {others : List String} (h : ids.Perm others) : tally owner orgId ids = tally owner orgId others :=
  (h.filter _).length_eq

variable {writes' : List Write} {locks' : List Lock} {added' removed' : List String} {count' : ℤ → ℤ}
    {ledger' : Ledger}

section

variable (h : Effect owner call.orgId writes locks added removed count)
include h

theorem Effect.mem_ids_iff
    (h' : Effect owner other.orgId writes' locks' added' removed' count') (hapart : ∀ lock ∈ locks, lock ∉ locks')
    {id : String} (hid : id ∈ added' ∨ id ∈ removed') :
    id ∈ (engine.after committed writes).ids ↔ id ∈ committed.ids := by
  have hlock := (h'.locked id hid).1
  have hadded : id ∉ added := fun hmem ↦ hapart _ (h.locked id (Or.inl hmem)).1 hlock
  have hremoved : id ∉ removed := fun hmem ↦ hapart _ (h.locked id (Or.inr hmem)).1 hlock
  rw [h.ids, List.mem_append, List.mem_filter]
  simp [hadded, hremoved]

omit h in
theorem Effect.tally_eq (h : Effect owner orgId writes locks added removed count) (database : Database) :
    (tally owner orgId (engine.after database writes).ids : ℤ) = tally owner orgId database.ids +
      (tally owner orgId added - tally owner orgId (database.ids.filter fun id ↦ id ∈ removed)) := by
  have hsplit : tally owner orgId (database.ids.filter fun id ↦ decide (id ∈ removed)) +
      tally owner orgId (database.ids.filter fun id ↦ !decide (id ∈ removed)) = tally owner orgId database.ids :=
    tally_filter _
  rw [h.ids, tally_append, ← hsplit]
  simp only [decide_not]
  push_cast
  ring

theorem Effect.tally_removed
    (h' : Effect owner other.orgId writes' locks' added' removed' count') (hapart : ∀ lock ∈ locks, lock ∉ locks')
    (hunique : committed.ids.Nodup) (hunique' : (engine.after committed writes).ids.Nodup) :
    tally owner other.orgId ((engine.after committed writes).ids.filter fun id ↦ id ∈ removed') =
      tally owner other.orgId (committed.ids.filter fun id ↦ id ∈ removed') := by
  apply tally_perm
  refine (List.perm_ext_iff_of_nodup (hunique'.filter _) (hunique.filter _)).mpr ?_
  intro id
  simp only [List.mem_filter, decide_eq_true_eq]
  constructor
  · rintro ⟨hid, hremoved⟩
    exact ⟨(h.mem_ids_iff h' hapart (Or.inr hremoved)).mp hid, hremoved⟩
  · rintro ⟨hid, hremoved⟩
    exact ⟨(h.mem_ids_iff h' hapart (Or.inr hremoved)).mpr hid, hremoved⟩

theorem Effect.nodup_ids
    (h' : Effect owner other.orgId writes' locks' added' removed' count') (hapart : ∀ lock ∈ locks, lock ∉ locks')
    (hunique : (engine.after committed writes).ids.Nodup) (hview : (engine.after committed writes').ids.Nodup) :
    (engine.after (engine.after committed writes) writes').ids.Nodup := by
  rw [h'.ids, List.nodup_append] at hview ⊢
  obtain ⟨-, hadded, hdisjoint⟩ := hview
  refine ⟨hunique.filter _, hadded, ?_⟩
  intro id hid added hmem heq
  subst heq
  obtain ⟨hstored, hkept⟩ := List.mem_filter.mp hid
  exact hdisjoint id (List.mem_filter.mpr ⟨(h.mem_ids_iff h' hapart (Or.inl hmem)).mp hstored, hkept⟩) id hmem rfl

end

theorem tally_of_locked (hcommitted : Accounted owner plans committed)
    (hafter : Accounted owner plans (engine.after committed writes))
    (h : Effect owner call.orgId writes locks added removed count) (hapart : ∀ lock ∈ locks, lock ∉ locks')
    (hlock : Lock.organization other.orgId ∈ locks') (hknown : ∃ org ∈ committed.organizations, org.id =
      other.orgId) :
    tally owner other.orgId (engine.after committed writes).ids = tally owner other.orgId committed.ids := by
  by_cases hsame : other.orgId = call.orgId
  · have hcount : count = id := h.reserved.resolve_right fun hheld ↦ hapart _ hheld (hsame ▸ hlock)
    obtain ⟨org, horg, hid⟩ := hknown
    have hmem : org ∈ (engine.after committed writes).organizations := by
      rw [h.organizations, List.mem_map]
      refine ⟨org, horg, ?_⟩
      rw [hcount]
      split_ifs <;> rfl
    have hexact := hafter.exact org hmem
    rw [hcommitted.exact org horg, storedTraces_eq hafter.owned, storedTraces_eq hcommitted.owned, hid] at hexact
    exact_mod_cast hexact.symm
  · exact h.tally_of_ne hsame

theorem linked_stable (hcommitted : Accounted owner plans committed)
    (hlinked : Linked owner plans call committed writes locks ledger) (hdebt : ledger.debt = 0)
    (hlinked' : Linked owner plans other committed writes' locks' ledger') (hapart : ∀ lock ∈ locks, lock ∉ locks') :
    Linked owner plans other (engine.after committed writes) writes' locks' ledger' := by
  have hafter := accounted_commit hcommitted hlinked hdebt
  obtain ⟨added, removed, count, heffect, -, -, -⟩ := hlinked
  obtain ⟨added', removed', count', heffect', hunique', hcount', hstaged'⟩ := hlinked'
  have hview := heffect'.tally_eq committed
  have hview' := heffect'.tally_eq (engine.after committed writes)
  rw [heffect.tally_removed heffect' hapart hcommitted.unique hafter.unique] at hview'
  have hlocked : Lock.organization other.orgId ∈ locks' →
      (∃ org ∈ committed.organizations, org.id = other.orgId) →
        (tally owner other.orgId (engine.after (engine.after committed writes) writes').ids : ℤ) =
          tally owner other.orgId (engine.after committed writes').ids := by
    intro hlock hknown
    rw [hview, hview', tally_of_locked hcommitted hafter heffect hapart hlock hknown]
  refine ⟨added', removed', count', heffect', heffect.nodup_ids heffect' hapart hafter.unique hunique', ?_, ?_⟩
  · intro org horg hid
    have hexact := hafter.exact org horg
    rw [storedTraces_eq hafter.owned, hid] at hexact
    rw [heffect.organizations, List.mem_map] at horg
    obtain ⟨before, hbefore, heq⟩ := horg
    have hbeforeId : before.id = other.orgId := by
      rw [← hid, ← heq]
      split_ifs <;> rfl
    have hexact' := hcommitted.exact before hbefore
    rw [storedTraces_eq hcommitted.owned, hbeforeId] at hexact'
    have hcounted := hcount' before hbefore hbeforeId
    obtain hfree | hlock := heffect'.reserved
    · rw [hfree, id] at hcounted ⊢
      omega
    · have hsame : org.traceCount = before.traceCount := by
        rw [hexact, hexact', tally_of_locked hcommitted hafter heffect hapart hlock ⟨before, hbefore, hbeforeId⟩]
      rw [hsame, hcounted, hlocked hlock ⟨before, hbefore, hbeforeId⟩]
  · have hknown : other.orgId ∈ plans.map Prod.fst → ∃ org ∈ committed.organizations, org.id = other.orgId :=
      (orgs_eq hcommitted.plans).mp
    cases hstage : ledger'.stage with
    | idle =>
      rw [hstage] at hstaged'
      exact hstaged'
    | reserved =>
      rw [hstage] at hstaged'
      refine ⟨hstaged'.1, fun bound hbound hplan ↦ ?_⟩
      rw [hlocked hstaged'.1 (hknown hplan)]
      exact hstaged'.2 bound hbound hplan
    | stored =>
      rw [hstage] at hstaged'
      intro bound hbound
      obtain ⟨hlock, hless⟩ := hstaged' bound hbound
      refine ⟨hlock, fun hplan ↦ ?_⟩
      rw [hlocked hlock (hknown hplan)]
      exact hless hplan

end UniMem.Hub
