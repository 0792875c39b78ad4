import UniMem.Library.Grouping
import UniMem.Library.Json
import UniMem.Python

/-!
# The tables of the hub

An organization owns traces, votes, observations, submissions and audit entries. A vote and a relation belong to a
trace and go with it, as their foreign keys declare.
-/

namespace UniMem.Hub

open Library

/-- A value of an outcome. -/
inductive OutcomeValue where
  | null
  | bool (value : Bool)
  | int (value : ℤ)
  deriving DecidableEq

/-- An outcome: the items of the dictionary. -/
abbrev Outcome := List (String × OutcomeValue)

structure Trace where
  id : String
  orgId : String
  title : String
  contextText : String
  solutionText : String
  tags : List String
  subjectIds : List String
  agentType : String
  profile : String
  outcome : Outcome
  scopes : List String
  validFrom : Option ℤ
  validUntil : Option ℤ
  supersedesTraceId : Option String
  supersededByTraceId : Option String
  createdAt : ℤ
  idempotencyKey : Option String
  requestHash : Option String
  quarantined : Bool
  quarantineReason : String
  commonsRetractedAt : Option ℤ
  commonsSource : String
  deriving DecidableEq, Inhabited

structure Vote where
  id : String
  traceId : String
  orgId : String
  createdAt : ℤ
  deriving DecidableEq

structure TraceRelation where
  id : String
  traceId : String
  relatedTraceId : String
  relationshipType : String
  deriving DecidableEq

structure HoldoutObservation where
  id : String
  orgId : String
  succeeded : Option Bool
  createdAt : ℤ
  deriving DecidableEq

structure KnowledgeBaseSubmission where
  id : String
  orgId : String
  title : String
  contextText : String
  solutionText : String
  tags : List String
  agentType : String
  status : String
  createdAt : ℤ
  resultingTraceId : Option String
  deriving DecidableEq

structure AuditLogEntry where
  id : String
  createdAt : ℤ
  orgId : Option String
  action : String
  deriving DecidableEq

structure Organization where
  id : String
  plan : String
  traceCount : ℤ
  holdoutRate : ℚ
  deriving DecidableEq

structure RetentionPolicy where
  orgId : String
  objectType : String
  status : String
  maxAgeDays : ℕ
  deriving DecidableEq

/-- A hold on everything, on the rows of one type, or on one row. -/
structure LegalHold where
  orgId : String
  objectType : String
  targetId : String
  releasedAt : Option ℤ
  deriving DecidableEq

structure Database where
  organizations : List Organization
  traces : List Trace
  votes : List Vote
  relations : List TraceRelation
  observations : List HoldoutObservation
  submissions : List KnowledgeBaseSubmission
  auditLog : List AuditLogEntry
  policies : List RetentionPolicy
  holds : List LegalHold
  deriving DecidableEq

/-- The tables that a retention policy can name. -/
inductive Model where
  | trace
  | vote
  | holdoutObservation
  | knowledgeBaseSubmission
  | auditLogEntry
  deriving DecidableEq

/-- A row of one of these tables. -/
inductive Row where
  | trace (row : Trace)
  | vote (row : Vote)
  | holdoutObservation (row : HoldoutObservation)
  | knowledgeBaseSubmission (row : KnowledgeBaseSubmission)
  | auditLogEntry (row : AuditLogEntry)
  deriving DecidableEq

namespace Row

def model : Row → Model
  | trace _ => .trace
  | vote _ => .vote
  | holdoutObservation _ => .holdoutObservation
  | knowledgeBaseSubmission _ => .knowledgeBaseSubmission
  | auditLogEntry _ => .auditLogEntry

def id : Row → String
  | trace row => row.id
  | vote row => row.id
  | holdoutObservation row => row.id
  | knowledgeBaseSubmission row => row.id
  | auditLogEntry row => row.id

def orgId : Row → Option String
  | trace row => some row.orgId
  | vote row => some row.orgId
  | holdoutObservation row => some row.orgId
  | knowledgeBaseSubmission row => some row.orgId
  | auditLogEntry row => row.orgId

def createdAt : Row → ℤ
  | trace row => row.createdAt
  | vote row => row.createdAt
  | holdoutObservation row => row.createdAt
  | knowledgeBaseSubmission row => row.createdAt
  | auditLogEntry row => row.createdAt

end Row

namespace Database

/-- The rows of a table. -/
def table (database : Database) : Model → List Row
  | .trace => database.traces.map .trace
  | .vote => database.votes.map .vote
  | .holdoutObservation => database.observations.map .holdoutObservation
  | .knowledgeBaseSubmission => database.submissions.map .knowledgeBaseSubmission
  | .auditLogEntry => database.auditLog.map .auditLogEntry

/-- Whether a row stands in its table. -/
def Stores (database : Database) (row : Row) : Prop := row ∈ database.table row.model

/-- `DELETE FROM traces`, with what the foreign keys of votes and relations delete. -/
def deleteTraces (database : Database) (condition : Trace → Bool) : Database :=
  let gone := (database.traces.filter condition).map Trace.id
  { database with
    traces := database.traces.filter fun trace ↦ !condition trace
    votes := database.votes.filter fun vote ↦ vote.traceId ∉ gone
    relations := database.relations.filter fun relation ↦ relation.traceId ∉ gone }

/-- `DELETE FROM trace_relations WHERE related_trace_id IN ids`. -/
def deleteRelationsTo (database : Database) (ids : List String) : Database :=
  { database with relations := database.relations.filter fun relation ↦ relation.relatedTraceId ∉ ids }

/-- `DELETE FROM table WHERE id IN ids`. -/
def deleteRows (database : Database) (model : Model) (ids : List String) : Database :=
  match model with
  | .trace => database.deleteTraces fun trace ↦ trace.id ∈ ids
  | .vote => { database with votes := database.votes.filter fun vote ↦ vote.id ∉ ids }
  | .holdoutObservation =>
    { database with observations := database.observations.filter fun row ↦ row.id ∉ ids }
  | .knowledgeBaseSubmission =>
    { database with submissions := database.submissions.filter fun row ↦ row.id ∉ ids }
  | .auditLogEntry => { database with auditLog := database.auditLog.filter fun entry ↦ entry.id ∉ ids }

/-- `trace_count = greatest(0, trace_count + delta)` for one organization. -/
def adjustTraceCount (database : Database) (orgId : String) (delta : ℤ) : Database :=
  { database with
    organizations := database.organizations.map fun org ↦
      if org.id = orgId then { org with traceCount := max 0 (org.traceCount + delta) } else org }

variable {database : Database} {model : Model} {ids : List String} {row : Row}

theorem model_of_mem_table (h : row ∈ database.table model) : row.model = model := by
  cases model <;>
    (obtain ⟨other, -, rfl⟩ := List.mem_map.mp h; rfl)

@[simp]
theorem stores_trace {trace : Trace} : database.Stores (.trace trace) ↔ trace ∈ database.traces := by
  simp [Stores, table, Row.model]

@[simp]
theorem stores_vote {vote : Vote} : database.Stores (.vote vote) ↔ vote ∈ database.votes := by
  simp [Stores, table, Row.model]

@[simp]
theorem stores_holdoutObservation {row : HoldoutObservation} :
    database.Stores (.holdoutObservation row) ↔ row ∈ database.observations := by
  simp [Stores, table, Row.model]

@[simp]
theorem stores_knowledgeBaseSubmission {row : KnowledgeBaseSubmission} :
    database.Stores (.knowledgeBaseSubmission row) ↔ row ∈ database.submissions := by
  simp [Stores, table, Row.model]

@[simp]
theorem stores_auditLogEntry {entry : AuditLogEntry} :
    database.Stores (.auditLogEntry entry) ↔ entry ∈ database.auditLog := by
  simp [Stores, table, Row.model]

@[simp]
theorem stores_adjustTraceCount {orgId : String} {delta : ℤ} :
    (database.adjustTraceCount orgId delta).Stores row ↔ database.Stores row := by
  cases row <;> simp [adjustTraceCount]

@[simp]
theorem stores_deleteRelationsTo : (database.deleteRelationsTo ids).Stores row ↔ database.Stores row := by
  cases row <;> simp [deleteRelationsTo]

theorem stores_deleteRows :
    (database.deleteRows model ids).Stores row ↔ database.Stores row ∧ ¬(row.model = model ∧ row.id ∈ ids) ∧
        ¬(model = .trace ∧ ∃ vote, row = .vote vote ∧
          ∃ trace ∈ database.traces, trace.id ∈ ids ∧ trace.id = vote.traceId) := by
  cases model <;> cases row <;> simp [deleteRows, deleteTraces, Row.model, Row.id]

theorem relations_deleteRows (h : model ≠ .trace) : (database.deleteRows model ids).relations =
    database.relations := by
  cases model <;> simp_all [deleteRows]

end Database

end UniMem.Hub
