import UniMem.Library.Transitions
import UniMem.TeamIsolation.Leases

/-!
# Team writes

A write holds the lock of the team from its first check to its commit. `_checked` compares the declared versions
before the change and looks at what was changed after it.
-/

namespace UniMem.TeamIsolation

open Library FrontierProtocol

/-- `allow_nan=False` and the bound on the digits of an integer. -/
def dumpable (value : Json) : Bool :=
  convertible value && value.total (fun node ↦
    match node with
    | .float ⟨_, none, _⟩ => 1
    | _ => 0) = 0

/-- `transaction_time`. -/
def transactionTime (runtime : Runtime) (record : Json) : Py String := do
  Py.require (dumpable record) (.valueError "Out of range float values are not JSON compliant")
  Py.require ((canonicalBytes record).length ≤ 256 * 1024)
    (.valueError "UniMem team fact exceeds 256 KiB")
  return "tx1:" ++ runtime.sha256 (canonicalBytes record)

/-- `re.fullmatch(r"tx1:[0-9a-f]{64}", version)`. -/
def isVersion (version : String) : Bool :=
  version.toList.take 4 = ['t', 'x', '1', ':'] && (version.toList.drop 4).length = 64 &&
    (version.toList.drop 4).all fun char ↦ ('0' ≤ char && char ≤ '9') || ('a' ≤ char && char ≤ 'f')

/-- `MAX_READS`. -/
def maxReads : ℕ := 256

/-- The identity of a pair. -/
def readIdentity (value : Json) : Py String :=
  match value with
  | .str identity =>
    if identity.isEmpty ∨ 256 < identity.length ∨ identity.toList.any (·.toNat < 32) then
      .error (.valueError "UniMem invalid read_set fact ID")
    else .ok identity
  | _ => .error (.valueError "UniMem invalid read_set fact ID")

/-- The version of a pair. -/
def readVersion (value : Json) : Py String :=
  match value with
  | .str version =>
    if isVersion version then .ok version else .error (.valueError "UniMem invalid transaction_time")
  | _ => .error (.valueError "UniMem invalid transaction_time")

/-- One pair of a read set, after pairs that were read. -/
def readPair (known : List (String × String)) (pair : Json) : Py (String × String) :=
  match pair with
  | .obj fields => do
    Py.require (keysAre fields ["id", "transaction_time"])
      (.valueError "UniMem read_set entries require id and transaction_time")
    let identity ← readIdentity (← field fields "id")
    let version ← readVersion (← field fields "transaction_time")
    Py.require ((known.lookup identity).isNone) (.valueError "UniMem read_set repeats a fact")
    return (identity, version)
  | _ => .error (.valueError "UniMem read_set entries require id and transaction_time")

/-- `read_set`. -/
def readSet (value : Json) : Py (List (String × String)) :=
  match value with
  | .arr pairs => do
    Py.require (pairs.length ≤ maxReads)
      (.valueError "UniMem read_set must contain at most 256 version pairs")
    pairs.foldlM (fun known pair ↦ do return known ++ [← readPair known pair]) []
  | _ => .error (.valueError "UniMem read_set must contain at most 256 version pairs")

/-- `stale`: the declared facts whose version is not the current one. -/
def stale (declared current : List (String × String)) : List String :=
  sortBy id ((declared.filter fun entry ↦ current.lookup entry.1 ≠ some entry.2).map Prod.fst)

/-- What a caller gives to `request`. -/
structure Arguments where
  readSet : Option Json
  context : List String
  claimed : Claimed

/-- The value of the context variable `REQUEST`. -/
structure Value where
  readSet : Option (List (String × String))
  context : List String
  claimed : Claimed

/-- A text that may be empty. -/
def optionalText (value label : String) (maximum : ℕ) : Py Unit :=
  if value.isEmpty then .ok () else (fun _ ↦ ()) <$> text value label maximum

/-- `request`. -/
def request (arguments : Arguments) : Py Value := do
  let _ ← text arguments.claimed.space "space" 128
  let _ ← count arguments.context.length 0 128 "count"
  let context ← Py.collect (Py.always fun label ↦ text label "scope" 256) arguments.context
  let _ ← arguments.claimed.fencingToken.elim (.ok 0) fun token ↦
    count token 1 (2 ^ 53 - 1) "fencing token"
  optionalText arguments.claimed.item "work item" 128
  optionalText arguments.claimed.leaseId "lease ID" 128
  let declared ← arguments.readSet.elim (.ok none) fun value ↦ some <$> readSet value
  return ⟨declared, context, arguments.claimed⟩

/-- The writer that a thread is bound to, and `REQUIRED_PRINCIPAL_SCOPE`. -/
structure Caller where
  principal : String
  requiredScope : String

/-- `DIMENSIONS`. -/
def dimensions : List String :=
  ["tenant", "user", "agent", "app", "project", "session", "repo", "domain"]

/-- Whether a label names a dimension. -/
def orthogonal (label : String) : Bool :=
  ':' ∈ label.toList && String.ofList (label.toList.takeWhile (· ≠ ':')) ∈ dimensions

/-- `memory_control.matches`. -/
def matchesContext (caller : Caller) (labels context : List String) : Bool :=
  (caller.requiredScope.isEmpty || caller.requiredScope ∈ labels) &&
    (labels.filter orthogonal).all (· ∈ context) &&
    ((labels.filter fun label ↦ !orthogonal label).isEmpty ||
      (labels.filter fun label ↦ !orthogonal label).any (· ∈ context))

/-- `fact.scopes`. -/
def scopesOf (fact : Json) : List String :=
  match fact.get? "scopes" with
  | some (.arr labels) => labels.filterMap fun label ↦
      match label with
      | .str text => some text
      | _ => none
  | _ => []

/-- `fact.superseded_by`, empty when there is none. -/
def supersededBy (fact : Json) : String :=
  match fact.get? "superseded_by" with
  | some (.str identity) => identity
  | _ => ""

/-- A mapping of facts. -/
abbrev Facts := List (String × Json)

/-- What the checks take from the rest of the store. -/
structure Team where
  runtime : Runtime
  /-- `team-isolation.json`, when the file exists. -/
  config : Option Config
  /-- `search_recipes._eligible_fact`, at an instant and for a context. -/
  eligible : Facts → Json → ℤ → List String → Py Bool

/-- `_visible`. -/
def visible (team : Team) (now : ℤ) (facts : Facts) (context identities : List String) : Py Facts :=
  Py.collect (fun identity ↦
    match facts.lookup identity with
    | none => .ok none
    | some fact => do
      return if ← team.eligible facts fact now context then some (identity, fact) else none) identities

/-- The versions of facts. -/
def versions (runtime : Runtime) (facts : Facts) : Py (List (String × String)) :=
  Py.collect (Py.always fun entry ↦ do
    return (entry.1, ← transactionTime runtime entry.2)) facts

/-- What the checks before a write keep for those after it. -/
structure Check where
  settings : Space
  value : Value
  declared : List (String × String)
  changed : List String
  before : List (String × String)
  priorScopes : List (String × List String)

/-- The facts that a conflict names: those that changed, or their admitted successors. -/
def successors (facts admitted : Facts) (context changed : List String) : List String :=
  changed.flatMap fun identity ↦
    (if (admitted.lookup identity).isSome then [identity] else []) ++
      match facts.lookup identity with
      | none => []
      | some old =>
        if (scopesOf old).all (· ∈ context) ∧ ¬(supersededBy old).isEmpty then [supersededBy old] else []

/-- The part of `_checked` before the caller's changes. -/
def checkBefore (team : Team) (leases : List Lease) (now : ℤ) (caller : Caller) (settings : Space)
    (value : Value) (facts : Facts) : Py Check := do
  Py.require (settings.level = .none || value.readSet.isSome) (.staleGeneration "read_set_required")
  let declared := value.readSet.getD []
  let admitted ← visible team now facts value.context (declared.map Prod.fst)
  let current ← versions team.runtime admitted
  let changed := stale declared current
  if (settings.level = .serializable ∨ settings.level = .sequenced) ∧ changed ≠ [] then
    let _ ← visible team now facts value.context
      ((successors facts admitted value.context changed).take maxReads)
    throw (.staleGeneration "read_set_changed")
  else
    fence leases now settings caller.principal value.claimed
    let _ ← digest team.runtime
      (.arr ((sortBy Prod.fst declared).map fun entry ↦ .arr [.str entry.1, .str entry.2]))
    let _ ← count facts.length 0 10000 "team fact count"
    let before ← versions team.runtime facts
    return ⟨settings, value, declared, changed, before, facts.map fun entry ↦ (entry.1, scopesOf entry.2)⟩

/-- The facts that were added, changed or removed. -/
def changedIds (before after : List (String × String)) : List String :=
  (after.filter fun entry ↦ before.lookup entry.1 ≠ some entry.2).map Prod.fst ++
    (before.filter fun entry ↦ (after.lookup entry.1).isNone).map Prod.fst

/-- The part of `_checked` after the caller's changes. -/
def checkAfter (team : Team) (leases : List Lease) (now : ℤ) (caller : Caller) (check : Check)
    (facts : Facts) : Py Unit := do
  let after ← versions team.runtime facts
  let ids := changedIds check.before after
  Py.require (ids.all fun identity ↦ (facts.lookup identity).all fun fact ↦
      matchesContext caller (scopesOf fact) check.value.context)
    (.permissionError "UniMem team write is outside the caller's scope")
  Py.require (ids.all fun identity ↦ (check.priorScopes.lookup identity).all fun labels ↦
      matchesContext caller labels check.value.context)
    (.permissionError "UniMem team write cannot alter an unavailable source")
  Py.require (ids.all fun identity ↦ (facts.lookup identity).all fun fact ↦
      check.settings.scopes.all (· ∈ scopesOf fact))
    (.permissionError "UniMem team write cannot escape its space")
  Py.require (check.settings.level ≠ .snapshot || ids.all fun identity ↦
      (check.before.lookup identity).isNone ||
        ((check.declared.lookup identity).isSome && identity ∉ check.changed))
    (.staleGeneration "snapshot_write_conflict")
  fence leases now check.settings caller.principal check.value.claimed

/-- The check of a privacy purge on what it removed. -/
def checkErasure (runtime : Runtime) (before : List (String × String)) (identities : List String)
    (facts : Facts) : Py Unit := do
  let after ← versions runtime facts
  Py.require (after.all (fun entry ↦ before.lookup entry.1 = some entry.2) &&
      (before.filter fun entry ↦ (after.lookup entry.1).isNone).all (·.1 ∈ identities))
    (.permissionError "UniMem privacy purge may only remove its authorized facts")

/-- The paths through `transactions`: unchecked, a purge, or checked. -/
inductive Kind where
  | free
  | erasure (identities : List String) (before : List (String × String))
  | checked (check : Check)

/-- A write whose body is running, or whose last checks have passed. -/
structure Open where
  thread : ℕ
  caller : Caller
  kind : Kind
  facts : Facts
  validated : Bool

/-- A write that was committed, with the canonical facts before and after it. -/
structure Commit where
  caller : Caller
  kind : Kind
  old : Facts
  new : Facts

/-- What happened in a run. -/
inductive Event where
  | granted (lease : Lease)
  | committed (commit : Commit)

/-- The canonical facts, the leases, the clock, the current write, and what happened. -/
structure World where
  facts : Facts
  leases : List Lease
  clock : ℤ
  active : Option Open
  history : List Event

/-- The steps of the threads of a team. -/
inductive Action where
  | tick (microseconds : ℕ)
  | lease (thread : ℕ) (request : LeaseRequest)
  | release (thread : ℕ) (request : ReleaseRequest)
  /-- The call of a writer, in the context of a privacy purge or of a request. -/
  | begin (thread : ℕ) (caller : Caller) (erasure : Option (List String)) (arguments : Option Arguments)
  /-- Any change of the live mapping by the body of a write. -/
  | edit (thread : ℕ) (facts : Facts)
  /-- The body ends and the last checks run. -/
  | validate (thread : ℕ)
  /-- The wrapped factory commits, or raises. -/
  | commit (thread : ℕ) (succeeds : Bool)
  /-- The body raises. -/
  | abort (thread : ℕ)

/-- What a thread gets when it has to wait for the lock. -/
def blocked : PyError := .valueError "the lock is held by another thread"

/-- The reentrant lock of a thread in a call of `lease`. -/
def World.reentrant (world : World) (thread : ℕ) : Bool :=
  world.active.all fun write ↦ write.thread = thread && !write.validated

/-- The write of a thread. -/
def World.writeOf (world : World) (thread : ℕ) (validated : Bool) : Py Open :=
  match world.active with
  | some write =>
    if write.thread = thread ∧ write.validated = validated then .ok write else .error blocked
  | none => .error blocked

/-- The path that a write takes, after its first checks. -/
def beginKind (team : Team) (world : World) (caller : Caller) (erasure : Option (List String))
    (arguments : Option Arguments) : Py Kind :=
  match team.config, erasure, arguments with
  | none, _, _ => .ok .free
  | some _, some identities, _ => do return .erasure identities (← versions team.runtime world.facts)
  | some config, none, none => do
    Py.require (config.all fun entry ↦ entry.2.level = .none) (.staleGeneration "team_request_required")
    return .free
  | some config, none, some arguments => do
    let value ← request arguments
    let settings ← spaceSettings config value.claimed.space value.context
    return .checked (← checkBefore team world.leases world.clock caller settings value world.facts)

/-- The last checks of a write. -/
def lastChecks (team : Team) (world : World) (write : Open) : Py Unit :=
  match write.kind with
  | .free => .ok ()
  | .erasure identities before => checkErasure team.runtime before identities write.facts
  | .checked check => checkAfter team world.leases world.clock write.caller check write.facts

/-- One step of a run. -/
def step (team : Team) (world : World) : Action → Py World
  | .tick microseconds => .ok { world with clock := world.clock + microseconds }
  | .lease thread request => do
    Py.require (world.reentrant thread) blocked
    let lease ← grantLease (team.config.getD []) world.leases world.clock request
    return { world with
      leases := putLease world.leases lease
      history := world.history ++ [.granted lease] }
  | .release thread request => do
    Py.require (world.reentrant thread) blocked
    let lease ← releaseLease (team.config.getD []) world.leases world.clock request
    return { world with leases := putLease world.leases lease }
  | .begin thread caller erasure arguments => do
    Py.require world.active.isNone blocked
    let kind ← beginKind team world caller erasure arguments
    return { world with active := some ⟨thread, caller, kind, world.facts, false⟩ }
  | .edit thread facts => do
    let write ← world.writeOf thread false
    return { world with active := some { write with facts := facts } }
  | .validate thread => do
    let write ← world.writeOf thread false
    -- an exception of the last checks reaches the wrapped factory, which rolls back
    return { world with
      active :=
        match lastChecks team world write with
        | .ok _ => some { write with validated := true }
        | .error _ => none }
  | .commit thread succeeds => do
    let write ← world.writeOf thread true
    return if succeeds then { world with
        facts := write.facts
        active := none
        history := world.history ++ [.committed ⟨write.caller, write.kind, world.facts, write.facts⟩] }
      else { world with active := none }
  | .abort thread => do
    let _ ← world.writeOf thread false
    return { world with active := none }

/-- What a step does when it returns. -/
inductive Moved (team : Team) (world : World) : World → Prop
  | ticked (microseconds : ℕ) : Moved team world { world with clock := world.clock + microseconds }
  | leased (request : LeaseRequest) (lease : Lease)
      (hfree : ∀ write, world.active = some write → write.validated = false)
      (hgrant : grantLease (team.config.getD []) world.leases world.clock request = .ok lease) :
      Moved team world { world with
        leases := putLease world.leases lease
        history := world.history ++ [.granted lease] }
  | released (request : ReleaseRequest) (lease : Lease)
      (hfree : ∀ write, world.active = some write → write.validated = false)
      (hrelease : releaseLease (team.config.getD []) world.leases world.clock request = .ok lease) :
      Moved team world { world with leases := putLease world.leases lease }
  | began (thread : ℕ) (caller : Caller) (erasure : Option (List String)) (arguments : Option Arguments)
      (kind : Kind) (hactive : world.active = none)
      (hkind : beginKind team world caller erasure arguments = .ok kind) :
      Moved team world { world with active := some ⟨thread, caller, kind, world.facts, false⟩ }
  | edited (write : Open) (facts : Facts) (hactive : world.active = some write)
      (hrunning : write.validated = false) :
      Moved team world { world with active := some { write with facts := facts } }
  | validated (write : Open) (hactive : world.active = some write)
      (hchecks : lastChecks team world write = .ok ()) :
      Moved team world { world with active := some { write with validated := true } }
  | committed (write : Open) (hactive : world.active = some write) (hvalidated : write.validated = true) :
      Moved team world { world with
        facts := write.facts
        active := none
        history := world.history ++ [.committed ⟨write.caller, write.kind, world.facts, write.facts⟩] }
  | ended : Moved team world { world with active := none }

theorem writeOf_eq_ok_iff {world : World} {thread : ℕ} {validated : Bool} {write : Open} :
    world.writeOf thread validated = .ok write ↔
      world.active = some write ∧ write.thread = thread ∧ write.validated = validated := by
  unfold World.writeOf
  cases world.active with
  | none => simp
  | some found =>
    dsimp only
    split_ifs with h
    · rw [Except.ok.injEq, Option.some.injEq]
      exact ⟨fun heq ↦ ⟨heq, heq ▸ h⟩, And.left⟩
    · refine iff_of_false (by simp) ?_
      rintro ⟨heq, hfound⟩
      rw [Option.some.injEq] at heq
      exact h (heq ▸ hfound)

theorem not_validated_of_reentrant {world : World} {thread : ℕ} (h : world.reentrant thread = true) :
    ∀ write, world.active = some write → write.validated = false := by
  intro write hactive
  rw [World.reentrant, hactive, Option.all_some, Bool.and_eq_true, Bool.not_eq_true'] at h
  exact h.2

theorem moved_of_step {team : Team} {world next : World} {action : Action}
    (h : step team world action = .ok next) : Moved team world next := by
  cases action with
  | tick microseconds =>
    cases h
    exact .ticked microseconds
  | lease thread request =>
    simp only [step, Py.bind_eq_ok_iff, Py.require_eq_ok_iff, Py.pure_eq_ok, Except.ok.injEq] at h
    obtain ⟨_, hfree, lease, hgrant, rfl⟩ := h
    exact .leased request lease (not_validated_of_reentrant hfree) hgrant
  | release thread request =>
    simp only [step, Py.bind_eq_ok_iff, Py.require_eq_ok_iff, Py.pure_eq_ok, Except.ok.injEq] at h
    obtain ⟨_, hfree, lease, hrelease, rfl⟩ := h
    exact .released request lease (not_validated_of_reentrant hfree) hrelease
  | begin thread caller erasure arguments =>
    simp only [step, Py.bind_eq_ok_iff, Py.require_eq_ok_iff, Py.pure_eq_ok, Except.ok.injEq,
      Option.isNone_iff_eq_none] at h
    obtain ⟨_, hactive, kind, hkind, rfl⟩ := h
    exact .began thread caller erasure arguments kind hactive hkind
  | edit thread facts =>
    simp only [step, Py.bind_eq_ok_iff, writeOf_eq_ok_iff, Py.pure_eq_ok, Except.ok.injEq] at h
    obtain ⟨write, ⟨hactive, -, hrunning⟩, rfl⟩ := h
    exact .edited write facts hactive hrunning
  | validate thread =>
    simp only [step, Py.bind_eq_ok_iff, writeOf_eq_ok_iff, Py.pure_eq_ok, Except.ok.injEq] at h
    obtain ⟨write, ⟨hactive, -, -⟩, rfl⟩ := h
    cases hchecks : lastChecks team world write with
    | ok result => exact .validated write hactive hchecks
    | error error => exact .ended
  | commit thread succeeds =>
    simp only [step, Py.bind_eq_ok_iff, writeOf_eq_ok_iff, Py.pure_eq_ok, Except.ok.injEq] at h
    obtain ⟨write, ⟨hactive, -, hvalidated⟩, rfl⟩ := h
    cases succeeds with
    | true => exact .committed write hactive hvalidated
    | false => exact .ended
  | abort thread =>
    simp only [step, Py.bind_eq_ok_iff, writeOf_eq_ok_iff, Py.pure_eq_ok, Except.ok.injEq] at h
    obtain ⟨_, -, rfl⟩ := h
    exact .ended

/-- The empty team: some facts and a clock. -/
def World.initial (facts : Facts) (clock : ℤ) : World := ⟨facts, [], clock, none, []⟩

end UniMem.TeamIsolation
