import UniMem.FrontierProtocol.Values
import UniMem.HoldoutIo.Readers
import UniMem.Library.Transitions

/-!
# Recording outcomes

Processes append assignments and outcomes under locks and read them without. A write may stop after any byte. An
outcome that was recorded is read from then on.
-/

namespace UniMem.HoldoutIo

open Library AppendedLines Capabilities FrontierProtocol

variable {φ τ ι ρ μ : Type}

/-- The row of an outcome. -/
def outcomeRow (occasion : String) (succeeded : Bool) (moment : String) : Json :=
  .obj [("occasion_id", .str occasion), ("succeeded", .bool succeeded), ("at", .str moment)]

/-- What `_append_lines` writes behind some bytes. -/
def appended (bytes : Bytes) (lines : List Bytes) : Bytes :=
  (if bytes ≠ [] ∧ bytes.getLast? ≠ some newline then [newline] else []) ++ lines.flatMap (· ++ [newline])

/-- The process that holds a lock, what it writes and the bytes to come. -/
structure Writer (ρ α : Type) where
  process : ρ
  task : α
  rest : Bytes

/-- A log, its lock and what each process remembers of it. -/
structure Log (ρ ι α σ : Type) where
  file : Option (File ι)
  writer : Option (Writer ρ α)
  caches : ρ → Option (Cache ι σ)

namespace Log

variable {α σ : Type}

def init : Log ρ ι α σ := ⟨none, none, fun _ ↦ none⟩

/-- `_append_lines` opens the file. -/
def start (log : Log ρ ι α σ) (process : ρ) (task : α) (lines : List Bytes) (identity : ι) : Log ρ ι α σ :=
  { log with
    file := some (log.file.getD ⟨identity, []⟩)
    writer := some ⟨process, task, appended (content log.file) lines⟩ }

/-- The next bytes reach the file. -/
def write (log : Log ρ ι α σ) (count : ℕ) : Log ρ ι α σ :=
  match log.writer with
  | none => log
  | some writer =>
    { log with
      file := log.file.map fun file ↦ { file with bytes := file.bytes ++ writer.rest.take count }
      writer := some { writer with rest := writer.rest.drop count } }

/-- The lock is given up. -/
def release (log : Log ρ ι α σ) : Log ρ ι α σ := { log with writer := none }

section Processes

variable [DecidableEq ρ]

/-- What a process remembers after a read. -/
def remember (log : Log ρ ι α σ) (process : ρ) (cache : Option (Cache ι σ)) : Log ρ ι α σ :=
  { log with caches := Function.update log.caches process cache }

/-- A process ends. -/
def crash (log : Log ρ ι α σ) (process : ρ) : Log ρ ι α σ :=
  { log with
    writer := log.writer.filter fun writer ↦ writer.process ≠ process
    caches := Function.update log.caches process none }

end Processes

/-- Every process remembers what the first bytes of the file give. -/
def Tracked (absorb : σ → Bytes → σ) (initial : σ) (log : Log ρ ι α σ) : Prop :=
  ∀ process, Remembers absorb initial log.file (log.caches process)

variable {absorb : σ → Bytes → σ} {initial : σ} {log : Log ρ ι α σ}

theorem tracked_init : (init : Log ρ ι α σ).Tracked absorb initial := fun _ _ h ↦ (nomatch h)

section

variable (h : log.Tracked absorb initial)
include h

theorem Tracked.start (process : ρ) (task : α) (lines : List Bytes) (identity : ι) :
    (log.start process task lines identity).Tracked absorb initial := by
  intro other known hknown
  obtain ⟨file, hfile, htracks⟩ := h other known hknown
  refine ⟨file, ?_, htracks⟩
  show some (log.file.getD _) = some file
  rw [Option.mem_def.mp hfile, Option.getD_some]

theorem Tracked.write (count : ℕ) : (log.write count).Tracked absorb initial := by
  rw [Log.write]
  split
  · exact h
  · next writer _ =>
    intro other known hknown
    obtain ⟨file, hfile, htracks⟩ := h other known hknown
    refine ⟨{ file with bytes := file.bytes ++ writer.rest.take count }, ?_, htracks.append _⟩
    rw [Option.mem_def] at hfile ⊢
    rw [hfile]
    rfl

variable [DecidableEq ρ]

theorem Tracked.remember (process : ρ) {cache : Option (Cache ι σ)}
    (hcache : Remembers absorb initial log.file cache) : (log.remember process cache).Tracked absorb initial := by
  intro other
  by_cases hother : other = process
  · subst hother
    show Remembers absorb initial log.file (Function.update log.caches other cache other)
    rw [Function.update_self]
    exact hcache
  · show Remembers absorb initial log.file (Function.update log.caches process cache other)
    rw [Function.update_of_ne hother]
    exact h other

theorem Tracked.crash (process : ρ) : (log.crash process).Tracked absorb initial :=
  h.remember process fun _ hknown ↦ (nomatch hknown)

end

end Log

/-- A secondary label of an occasion. -/
structure Label where
  digest : String
  active : Bool

/-- What `record_metrics` uses of the registrations and of other modules. -/
structure Auditing (μ : Type) where
  /-- `pure.metrics`. -/
  metrics : μ → Py μ
  identity : String → String
  digest : String → μ → String
  registered : String → Bool
  /-- `capability_io.permits` on the scopes of some registrations. -/
  permits : List String → Bool

/-- The holder of `secondary-metrics.lock` that is about to write a label. -/
structure Auditor (ρ : Type) where
  process : ρ
  identity : String
  label : Label

/-- A store and its processes, with the outcomes that were recorded. -/
structure World (φ τ ι ρ : Type) where
  outcomes : Log ρ ι (String × Bool) Outcomes
  assignments : Log ρ ι Unit (Assignments φ τ)
  secondary : List (String × Label)
  auditor : Option (Auditor ρ)
  recorded : List (String × Bool)

/-- How a call goes on. -/
inductive Reply where
  | returned (value : Bool)
  /-- `record_metrics` returns. -/
  | passed
  | raised (error : PyError)
  | conflictingOutcome (message : String)
  /-- The call writes under the lock it holds. -/
  | writing
  deriving DecidableEq

/-- The refusal to change an outcome. -/
def conflict (setting : Setting φ τ) (occasion : String) (existing : Bool) : Reply :=
  let before := if existing then "succeeded" else "failed"
  .conflictingOutcome s!"occasion {setting.repr occasion} is already recorded as {before}; refusing to change it"

/-- The checks of `record_outcome` on its occasion. -/
def occasionArgument (occasion : String) : Py String :=
  if strip occasion = "" then .error (.valueError "occasion_id must be a non-empty string")
  else text occasion "occasion" 512

namespace World

def init : World φ τ ι ρ := ⟨.init, .init, [], none, []⟩

variable [DecidableEq ι] [DecidableEq ρ]

/-- `read_outcomes`. -/
def readOutcomes (setting : Setting φ τ) (world : World φ τ ι ρ) (process : ρ) (size : ℕ) :
    Outcomes × World φ τ ι ρ :=
  let (outcomes, cache) := outcomesShared setting (world.outcomes.caches process) world.outcomes.file size
  (outcomes, { world with outcomes := world.outcomes.remember process cache })

/-- `read_log`. -/
def readLog (setting : Setting φ τ) (world : World φ τ ι ρ) (process : ρ) (size : ℕ) :
    Assignments φ τ × World φ τ ι ρ :=
  let (log, cache) := HoldoutIo.readLog setting (world.assignments.caches process) world.assignments.file size
  (log, { world with assignments := world.assignments.remember process cache })

/-- `record_metrics` up to its write. -/
def audit (setting : Setting φ τ) (auditing : Auditing μ) (world : World φ τ ι ρ) (process : ρ) (occasion : String)
    (values : μ) (size logSize : ℕ) : World φ τ ι ρ × Reply :=
  match auditing.metrics values, text occasion "identifier" 512 with
  | .error error, _ => (world, .raised error)
  | .ok _, .error error => (world, .raised error)
  | .ok normalized, .ok _ =>
    let identity := auditing.identity occasion
    let digest := auditing.digest occasion normalized
    match world.secondary.lookup identity with
    | some prior =>
      if prior.digest = digest ∧ prior.active then (world, .passed)
      else (world, .raised (.valueError "UniMem secondary metrics are immutable or erased"))
    | none =>
      let (outcomes, world) := world.readOutcomes setting process size
      if (outcomes.lookup occasion).isSome then
        (world, .raised (.valueError "UniMem secondary metrics must precede the primary outcome"))
      else
        let ((logged, corrupt), world) := world.readLog setting process logSize
        let members := ((logged.filter fun row ↦ row.occasionId = occasion).map LogRecord.lesson).filter
          auditing.registered
        if corrupt ≠ 0 ∨ members = [] then
          (world, .raised (.valueError
            "UniMem secondary metrics require an assigned preregistered personalization audit"))
        else if !auditing.permits members then
          (world, .raised (.permissionError "UniMem secondary metric write exceeds the leaf capability"))
        else ({ world with auditor := some ⟨process, identity, ⟨digest, true⟩⟩ }, .writing)

/-- `record_outcome` from its lock up to its write. -/
def record (setting : Setting φ τ) (world : World φ τ ι ρ) (process : ρ) (occasion : String) (succeeded : Bool)
    (moment : String) (size : ℕ) (identity : ι) : World φ τ ι ρ × Reply :=
  match occasionArgument occasion with
  | .error error => (world, .raised error)
  | .ok _ =>
    let (outcomes, world) := world.readOutcomes setting process size
    match outcomes.lookup occasion with
    | some existing =>
      if existing = succeeded then (world, .returned false) else (world, conflict setting occasion existing)
    | none =>
      ({ world with
        outcomes := world.outcomes.start process (occasion, succeeded)
          [asciiDumps (outcomeRow occasion succeeded moment)] identity }, .writing)

end World

/-- What a process does, or what becomes of it. -/
inductive Action (ι ρ μ : Type) where
  | readOutcomes (process : ρ) (size : ℕ)
  | readLog (process : ρ) (size : ℕ)
  | audit (process : ρ) (occasion : String) (values : μ) (size logSize : ℕ)
  /-- The label is written, or writing it raises. -/
  | label (written : Bool)
  | record (process : ρ) (occasion : String) (succeeded : Bool) (moment : String) (size : ℕ) (identity : ι)
  | assign (process : ρ) (rows : List Json) (identity : ι)
  | writeOutcome (count : ℕ)
  | writeAssignments (count : ℕ)
  /-- The lock is released after the last byte, and `record_outcome` returns `True`. -/
  | finishOutcome
  | finishAssignments
  /-- The write raises, or what follows it does. -/
  | tearOutcome
  | tearAssignments
  | crash (process : ρ)

/-- One step. A call that waits for a lock takes none. -/
def World.step [DecidableEq ι] [DecidableEq ρ] (setting : Setting φ τ) (auditing : Auditing μ)
    (world : World φ τ ι ρ) :
    Action ι ρ μ → Except Unit (World φ τ ι ρ)
  | .readOutcomes process size => .ok (world.readOutcomes setting process size).2
  | .readLog process size => .ok (world.readLog setting process size).2
  | .audit process occasion values size logSize =>
    if world.auditor.isSome then .error ()
    else .ok (world.audit setting auditing process occasion values size logSize).1
  | .label written =>
    match world.auditor with
    | none => .error ()
    | some auditor =>
      .ok { world with
        auditor := none
        secondary := if written then (auditor.identity, auditor.label) :: world.secondary else world.secondary }
  | .record process occasion succeeded moment size identity =>
    if world.outcomes.writer.isSome then .error ()
    else .ok (world.record setting process occasion succeeded moment size identity).1
  | .assign process rows identity =>
    if world.assignments.writer.isSome then .error ()
    else .ok { world with assignments := world.assignments.start process () (rows.map asciiDumps) identity }
  | .writeOutcome count => .ok { world with outcomes := world.outcomes.write count }
  | .writeAssignments count => .ok { world with assignments := world.assignments.write count }
  | .finishOutcome =>
    match world.outcomes.writer with
    | none => .error ()
    | some writer =>
      if writer.rest = [] then
        .ok { world with outcomes := world.outcomes.release, recorded := writer.task :: world.recorded }
      else .error ()
  | .finishAssignments =>
    match world.assignments.writer with
    | none => .error ()
    | some writer =>
      if writer.rest = [] then .ok { world with assignments := world.assignments.release } else .error ()
  | .tearOutcome => .ok { world with outcomes := world.outcomes.release }
  | .tearAssignments => .ok { world with assignments := world.assignments.release }
  | .crash process =>
    .ok { world with
      outcomes := world.outcomes.crash process
      assignments := world.assignments.crash process
      auditor := world.auditor.filter fun auditor ↦ auditor.process ≠ process }

end UniMem.HoldoutIo
