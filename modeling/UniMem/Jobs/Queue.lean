import UniMem.Library.Grouping
import UniMem.Library.Transitions
import UniMem.Python

/-!
# The durable job queue

A worker claims a ready job with a lease and a token that it gives back to `renew`, `complete` and `fail`. Every
call is one transaction. A float is a rational number, absent when it is not finite.
-/

namespace UniMem.Jobs

open Library

/-- `STATUSES`. -/
inductive Status where
  | queued
  | running
  | done
  | failed
  | dead
  deriving DecidableEq

/-- The statuses in which a deduplication key is taken. -/
def Status.pending : Status → Bool
  | queued => true
  | running => true
  | failed => true
  | done => false
  | dead => false

/-- A row of the table. -/
structure Job where
  id : String
  kind : String
  payload : String
  status : Status
  attempts : ℕ
  maxAttempts : ℕ
  priority : ℤ
  runAfter : ℚ
  leaseUntil : Option ℚ
  leaseToken : Option String
  dedupeKey : Option String
  created : ℚ
  updated : ℚ
  result : Option String
  error : Option String

/-- What the primary key and the index `jobs_dedupe` say about two rows. -/
def Compatible (first second : Job) : Prop :=
  first.id ≠ second.id ∧ (first.status.pending = true → second.status.pending = true →
    first.dedupeKey.isSome = true → first.dedupeKey ≠ second.dedupeKey)

instance : DecidableRel Compatible := fun _ _ ↦ inferInstanceAs (Decidable (_ ∧ _))

/-- A table that was written. -/
def written (jobs : List Job) : Py (List Job) := do
  Py.require (decide (jobs.Pairwise Compatible)) (.integrityError "UNIQUE constraint failed")
  return jobs

/-- `UPDATE jobs SET … WHERE …`. -/
def update (condition : Job → Bool) (change : Job → Job) (jobs : List Job) : Py (List Job) :=
  written (jobs.map fun job ↦ if condition job then change job else job)

/-- The keys of `HANDLERS`. -/
def handlers : List String :=
  ["wiki", "mental-model", "ingest", "extract", "summarize", "index", "link", "commit", "distill", "learn-session"]

/-- What `enqueue` is given, with the payload as JSON. -/
structure Enqueue where
  kind : String
  body : String
  dedupeKey : Option String
  delay : Option ℚ
  maxAttempts : ℤ
  priority : ℤ
  /-- `uuid.uuid4().hex[:16]`. -/
  identity : String

/-- The row that `enqueue` inserts. -/
def Enqueue.job (given : Enqueue) (delay now : ℚ) : Job where
  id := given.identity
  kind := given.kind
  payload := given.body
  status := .queued
  attempts := 0
  maxAttempts := (max 1 (min given.maxAttempts 20)).toNat
  priority := given.priority
  runAfter := now + max 0 delay
  leaseUntil := none
  leaseToken := none
  dedupeKey := given.dedupeKey
  created := now
  updated := now
  result := none
  error := none

/-- The pending job of a deduplication key. -/
def duplicateOf (jobs : List Job) (dedupeKey : Option String) : Option Job :=
  dedupeKey.bind fun key ↦
    if key.isEmpty then none
    else jobs.find? fun job ↦ job.dedupeKey = some key && job.status.pending

/-- `enqueue`. -/
def enqueue (jobs : List Job) (now : ℚ) (given : Enqueue) : Py (List Job) := do
  Py.require (given.kind ∈ handlers)
    (.jobError ("unknown job kind '" ++ given.kind ++ "'; known: " ++ ", ".intercalate (sortBy id handlers)))
  match given.delay with
  | none => throw (.jobError "job delay must be finite")
  | some delay =>
    Py.require (given.body.length ≤ 256000)
      (.jobError "job payload is larger than 256 kB; pass a path, not the content")
    if (duplicateOf jobs given.dedupeKey).isSome then return jobs
    else written (jobs ++ [given.job delay now])

/-- The rows that `claim` gives up. -/
def exhausted (now : ℚ) (job : Job) : Bool :=
  job.status = .running && job.leaseUntil.any (· ≤ now) && job.maxAttempts ≤ job.attempts

/-- A row that `claim` gives up. -/
def Job.expire (job : Job) (now : ℚ) : Job :=
  { job with
    status := .dead
    error := some "worker lease expired after maximum attempts"
    leaseUntil := none
    leaseToken := none
    updated := now }

/-- The rows that `claim` may take. -/
def ready (now : ℚ) (job : Job) : Bool :=
  (((job.status = .queued || job.status = .failed) && job.runAfter ≤ now) ||
    (job.status = .running && job.leaseUntil.any (· ≤ now))) && job.attempts < job.maxAttempts

/-- `ORDER BY priority DESC, run_after, created`. -/
def precedes (first second : Job) : Bool :=
  second.priority < first.priority || (first.priority = second.priority &&
    (first.runAfter < second.runAfter || (first.runAfter = second.runAfter && first.created < second.created)))

/-- The first row in this order. -/
def first (jobs : List Job) : Option Job :=
  jobs.foldl (fun best job ↦ some (best.elim job fun other ↦ if precedes job other then job else other)) none

/-- The row of a claim. -/
def Job.start (job : Job) (now lease : ℚ) (token : String) : Job :=
  { job with
    status := .running
    attempts := job.attempts + 1
    leaseUntil := some (now + lease)
    leaseToken := some token
    updated := now }

/-- The row that `claim` takes. -/
def next (jobs : List Job) (now : ℚ) (kinds : List String) : Option Job :=
  first (jobs.filter fun job ↦ ready now job && (kinds.isEmpty || job.kind ∈ kinds))

/-- `claim`, with the token that it draws. -/
def claim (jobs : List Job) (now : ℚ) (kinds : List String) (lease : Option ℚ) (token : String) :
    Py (List Job) :=
  match lease with
  | none => .error (.jobError "job lease must be finite")
  | some lease => do
    let jobs ← update (exhausted now) (·.expire now) jobs
    match next jobs now kinds with
    | none => return jobs
    | some chosen => update (fun job ↦ job.id = chosen.id) (fun job ↦ job.start now lease token) jobs

/-- The condition of `renew` and of `complete` with a token. -/
def live (now : ℚ) (identity token : String) (job : Job) : Bool :=
  job.id = identity && job.status = .running && job.leaseToken = some token && job.leaseUntil.any (now < ·)

/-- The message of a lost lease. -/
def leaseLost (identity : String) : PyError :=
  .leaseLost ("job " ++ identity ++ " claim expired or was replaced")

/-- A row that is complete. -/
def Job.finish (job : Job) (now : ℚ) (body : String) : Job :=
  { job with
    status := .done
    result := some body
    error := none
    leaseUntil := none
    leaseToken := none
    updated := now }

/-- `complete`, with the result as JSON. -/
def complete (jobs : List Job) (now : ℚ) (identity body : String) (token : Option String) :
    Py (List Job) := do
  Py.require (body.length ≤ 64000)
    (.jobError "job result is larger than 64 kB; save an artifact and return its path")
  let condition := token.elim (fun job : Job ↦ decide (job.id = identity)) (live now identity)
  Py.require (token.isNone || jobs.any condition) (leaseLost identity)
  update condition (·.finish now body) jobs

/-- Whether `fail` refuses a token for a row. -/
def refused (now : ℚ) (token : String) (job : Job) : Bool :=
  job.status ≠ .running || job.leaseToken ≠ some token || job.leaseUntil.getD 0 ≤ now

/-- A row that has failed. -/
def Job.park (job : Job) (now : ℚ) (error : String) : Job :=
  { job with
    status := if job.maxAttempts ≤ job.attempts then .dead else .failed
    error := some (String.ofList (error.toList.take 4000))
    runAfter := now + min 3600 (5 * 2 ^ (job.attempts - 1))
    leaseUntil := none
    leaseToken := none
    updated := now }

/-- `fail`. -/
def fail (jobs : List Job) (now : ℚ) (identity error : String) (token : Option String) :
    Py (List Job) :=
  match jobs.find? fun job ↦ job.id = identity with
  | none => .error (.jobError ("no job " ++ identity))
  | some row => do
    Py.require (token.all fun token ↦ !refused now token row) (leaseLost identity)
    update (fun job ↦ job.id = identity) (·.park now error) jobs

/-- `renew`. -/
def renew (jobs : List Job) (now : ℚ) (identity token : String) (lease : Option ℚ) : Py (List Job) := do
  Py.require (!token.isEmpty && lease.any (0 < ·))
    (.jobError "renewal requires a claim token and a finite positive lease")
  Py.require (jobs.any (live now identity token)) (leaseLost identity)
  update (live now identity token) (fun job ↦
    { job with leaseUntil := job.leaseUntil.map (max · (now + lease.getD 0)), updated := now }) jobs

/-- A row that is queued again. -/
def Job.requeue (job : Job) (now : ℚ) : Job :=
  { job with
    status := .queued
    attempts := 0
    runAfter := now
    leaseUntil := none
    leaseToken := none
    updated := now }

/-- `retry`. -/
def retry (jobs : List Job) (now : ℚ) (identity : Option String) : Py (List Job) :=
  match identity.filter (!·.isEmpty) with
  | some identity =>
    update (fun job ↦ job.id = identity && (job.status = .dead || job.status = .failed)) (·.requeue now) jobs
  | none => update (fun job ↦ job.status = .dead) (·.requeue now) jobs

/-- `purge`. -/
def purge (jobs : List Job) (now olderThanDays : ℚ) : List Job :=
  jobs.filter fun job ↦ !(job.status = .done && job.updated < now - olderThanDays * 86400)

/-- The table and the clock. -/
structure World where
  jobs : List Job
  clock : ℚ

/-- The calls of the workers and the clock. -/
inductive Action where
  | tick (elapsed : NNRat)
  | enqueue (given : Enqueue)
  | claim (kinds : List String) (lease : Option ℚ) (token : String)
  | renew (identity token : String) (lease : Option ℚ)
  | complete (identity body token : String)
  | fail (identity error token : String)
  | retry (identity : Option String)
  | purge (olderThanDays : ℚ)

/-- The token that a call draws. -/
def Action.drawn : Action → Option String
  | claim _ _ token => some token
  | _ => none

/-- The tokens that the calls of a run draw. -/
def tokens (actions : List Action) : List String := actions.filterMap Action.drawn

/-- One call. -/
def step (world : World) : Action → Py World
  | .tick elapsed => .ok { world with clock := world.clock + elapsed }
  | .enqueue given => do return { world with jobs := ← enqueue world.jobs world.clock given }
  | .claim kinds lease token => do return { world with jobs := ← claim world.jobs world.clock kinds lease token }
  | .renew identity token lease => do
    return { world with jobs := ← renew world.jobs world.clock identity token lease }
  | .complete identity body token => do
    return { world with jobs := ← complete world.jobs world.clock identity body (some token) }
  | .fail identity error token => do
    return { world with jobs := ← fail world.jobs world.clock identity error (some token) }
  | .retry identity => do return { world with jobs := ← retry world.jobs world.clock identity }
  | .purge olderThanDays => .ok { world with jobs := purge world.jobs world.clock olderThanDays }

/-- The empty table. -/
def World.initial (clock : ℚ) : World := ⟨[], clock⟩

end UniMem.Jobs
