import UniMem.Robotics.Monitor

/-!
# The action shield

`register` stores a normalized formula, and `check` monitors a trace against it. The journal is its verified rows;
digests, recoveries and the record of a verdict are parameters. A latency is not modelled.
-/

namespace UniMem.Robotics.Shield

open Library FrontierProtocol

/-- `MAX_FORMULA_NODES`. -/
def maxFormulaNodes : ℕ := 256

def comparisonOf : Json → Py Comparison
  | .str ">=" => .ok .atLeast
  | .str ">" => .ok .above
  | .str "<=" => .ok .atMost
  | .str "<" => .ok .below
  | _ => .error (.valueError "unsupported STL comparison")

/-- An ASCII letter. -/
def isLetter (char : Char) : Bool := char.isUpper || char.isLower

/-- `[a-zA-Z][a-zA-Z0-9_.-]*`. -/
def isSignal (text : String) : Bool :=
  match text.toList with
  | [] => false
  | first :: rest => isLetter first && rest.all fun char ↦ isLetter char || char.isDigit || "_.-".toList.contains char

/-- `[a-z][a-z0-9_-]{0,95}`. -/
def isSpecId (text : String) : Bool :=
  match text.toList with
  | [] => false
  | first :: rest => first.isLower && decide (rest.length ≤ 95) &&
      rest.all fun char ↦ char.isLower || char.isDigit || "_-".toList.contains char

/-- Between 0 and 1e6. -/
def intervalLimits : Limits := ⟨0, 1_000_000, "[0, 1000000.0]"⟩

/-- The interval of a temporal operator. -/
def intervalOf (fields : List (String × Json)) : Py (ℚ × ℚ) := do
  let start ← field fields "from"
  let start ← numberArgument start intervalLimits "number"
  let stop ← field fields "to"
  let stop ← numberArgument stop intervalLimits "number"
  Py.require (decide (start ≤ stop)) (.valueError "STL interval end must be >= start")
  return (start, stop)

/-- A predicate. -/
def predicateOf (fields : List (String × Json)) : Py Formula := do
  Py.require (keysAre fields ["op", "signal", "cmp", "value"])
    (.valueError "predicate requires op, signal, cmp and value")
  let signal ← field fields "signal"
  let signal ← textArgument signal "signal" 96
  Py.require (isSignal signal) (.valueError "invalid telemetry signal")
  let cmp ← field fields "cmp"
  let cmp ← comparisonOf cmp
  let value ← field fields "value"
  let value ← numberArgument value signalLimits "number"
  return .predicate signal cmp value

/-- `_formula` with the levels that are left, and the number of nodes so far. -/
def formulaOf : ℕ → Json → ℕ → Py (Formula × ℕ)
  | levels, node, work =>
    if maxFormulaNodes < work + 1 then .error (.valueError "STL formula exceeds the node bound")
    else
      match levels, node with
      | levels + 1, .obj fields =>
        match fields.lookup "op" with
        | some (.str "predicate") => do
          let formula ← predicateOf fields
          return (formula, work + 1)
        | some (.str "always") => do
          Py.require (keysAre fields ["op", "from", "to", "arg"])
            (.valueError "temporal operator requires op, from, to and arg")
          let (start, stop) ← intervalOf fields
          let arg ← field fields "arg"
          let (arg, work) ← formulaOf levels arg (work + 1)
          return (.always start stop arg, work)
        | some (.str "eventually") => do
          Py.require (keysAre fields ["op", "from", "to", "arg"])
            (.valueError "temporal operator requires op, from, to and arg")
          let (start, stop) ← intervalOf fields
          let arg ← field fields "arg"
          let (arg, work) ← formulaOf levels arg (work + 1)
          return (.eventually start stop arg, work)
        | some (.str "until") => do
          Py.require (keysAre fields ["op", "from", "to", "left", "right"])
            (.valueError "until requires op, from, to, left and right")
          let (start, stop) ← intervalOf fields
          let left ← field fields "left"
          let (left, work) ← formulaOf levels left (work + 1)
          let right ← field fields "right"
          let (right, work) ← formulaOf levels right work
          return (.leftUntil start stop left right, work)
        | some (.str _) => .error (.valueError "STL operator must be predicate, always, eventually or until")
        | _ => .error (.valueError "STL operator must be a string")
      | _, _ => .error (.valueError "STL formula must be a bounded-depth object")

/-- A registered formula. -/
structure Spec where
  specId : String
  formula : Formula
  memoryId : String
  embodiment : String
  description : String

/-- A row of the journal. -/
inductive Row where
  | spec (spec : Spec)
  | verdict (content : Json)

/-- The specs of an identifier, in the order of their registration. -/
def specsOf (journal : List Row) (specId : String) : List Spec :=
  journal.filterMap fun row ↦
    match row with
    | .spec spec => if spec.specId = specId then some spec else none
    | .verdict _ => none

/-- `register`; `append` is the signed write. -/
def register (append : Row → Py Unit) (journal : List Row) (specId formula memoryId embodiment description : Json) :
    Py (List Row) := do
  let specId ← textArgument specId "spec id" 96
  Py.require (isSpecId specId) (.valueError "spec id must be a lowercase identifier")
  let (formula, _) ← formulaOf 17 formula 0
  let memoryId ← textArgument memoryId "memory id" 256
  let embodiment ← textArgument embodiment "embodiment" 96
  let description ← textArgument description "description" 1024
  Py.require (specsOf journal specId).isEmpty (.valueError "STL spec identifiers are immutable")
  let row := Row.spec ⟨specId, formula, memoryId, embodiment, description⟩
  append row
  return journal ++ [row]

/-- The time of a sample. -/
def timeOf (row : Json) : Py ℚ :=
  match row with
  | .obj fields =>
    match fields.lookup "t" with
    | some (.int time) => numberArgument (.int time) ⟨0, 1_000_000_000, "[0, 1000000000.0]"⟩ "number"
    | some (.float time) => numberArgument (.float time) ⟨0, 1_000_000_000, "[0, 1000000000.0]"⟩ "number"
    | some (.bool _) => .error (.valueError "number must be finite")
    | _ => .error (.valueError "each telemetry sample must have a finite time t")
  | _ => .error (.valueError "each telemetry sample must have a finite time t")

/-- The signals of a sample. -/
def signalsOf (row : Json) : Py (List (String × ℚ)) :=
  match row with
  | .obj fields => (fields.filter (·.1 ≠ "t")).mapM fun entry ↦ do
    let value ← numberArgument entry.2 signalLimits "number"
    return (entry.1, value)
  | _ => .ok []

/-- The samples of a trace, after the time of the sample before it. -/
def samplesFrom : Option ℚ → List Json → Py (List Sample)
  | _, [] => .ok []
  | last, row :: rows => do
    let time ← timeOf row
    Py.require (last.all (· < time)) (.valueError "telemetry times must be strictly increasing")
    let values ← signalsOf row
    let samples ← samplesFrom (some time) rows
    return ⟨time, values⟩ :: samples

inductive Verdict where
  | memoryNotRecalled
  | safe
  | violated
  | monitorBudgetExceeded
  | incompleteTelemetry
  deriving DecidableEq

/-- A recovery of the registry. -/
structure Recovery where
  id : String
  hazard : Bool

/-- The rest of the system: floats, digests, the registry and the record of a verdict. -/
structure Environment where
  floats : Floats
  digest : Json → String
  /-- `recovery.recall`. -/
  recoveries : String → Json → Py (List Recovery)

/-- The arguments of `check`. -/
structure Request where
  specId : String
  action : Json
  trace : Json
  sourceMemoryIds : Json
  recoveryMemoryIds : Option (List String)
  recoveryContext : Option Json
  failureType : Option String

/-- The result of `check`. -/
structure Report where
  specId : String
  verdict : Verdict
  robustness : Option Robustness
  proposedActionDigest : String
  sourceMemoryIds : List String
  recoveryFallback : List Recovery
  action : String
  monitorWork : ℕ

/-- The rows of a trace. -/
def rowsOf (trace : Json) : Py (List Json) :=
  match trace with
  | .arr rows =>
    if rows.isEmpty ∨ 100_000 < rows.length then .error (.valueError "telemetry trace must contain 1..100000 samples")
    else .ok rows
  | _ => .error (.valueError "telemetry trace must contain 1..100000 samples")

/-- The sources of a call. -/
def sourceIds (value : Json) : Py (List Json) :=
  match value with
  | .arr ids =>
    if 1024 < ids.length then .error (.valueError "shield sources must be an array of at most 1024 memory IDs")
    else .ok ids
  | _ => .error (.valueError "shield sources must be an array of at most 1024 memory IDs")

/-- The proposed action is a dictionary that is not empty. -/
def checkAction (action : Json) : Py Unit :=
  match action with
  | .obj (_ :: _) => .ok ()
  | _ => .error (.valueError "shield requires the proposed robot action")

/-- The verdict, the robustness and the work of the monitor. -/
def judge (floats : Floats) (spec : Spec) (samples : List Sample) (sources : List String) :
    Py (Verdict × Option Robustness × ℕ) :=
  if spec.memoryId ∉ sources then .ok (.memoryNotRecalled, none, 0)
  else
    match samples with
    | [] => .error (.keyError "0")
    | first :: _ =>
      match (robust floats samples spec.formula first.time).run.run 0 with
      | (.ok value, work) => .ok (if 0 ≤ value then .safe else .violated, some value, work)
      | (.error .budgetExceeded, work) => .ok (.monitorBudgetExceeded, none, work)
      | (.error .incompleteTelemetry, work) => .ok (.incompleteTelemetry, none, work)
      | (.error (.raised error), _) => .error error

/-- The recoveries of a violation. -/
def fallbackOf (environment : Environment) (request : Request) (verdict : Verdict) : Py (List Recovery) :=
  match request.recoveryContext, request.failureType with
  | some context, some failureType =>
    if verdict = .violated ∧ failureType ≠ "" then do
      let failureType ← text failureType "failure type" 128
      let candidates : List Recovery ← environment.recoveries failureType context
      let wanted := request.recoveryMemoryIds.getD []
      return candidates.filter fun row ↦ row.hazard && (wanted.isEmpty || decide (row.id ∈ wanted))
    else return []
  | _, _ => return []

/-- The last spec of an identifier. -/
def specOf (journal : List Row) (specId : String) : Py Spec :=
  match (specsOf journal specId).getLast? with
  | some spec => .ok spec
  | none => .error (.keyError "unknown STL spec")

/-- `check` up to the record of the verdict. -/
def check (environment : Environment) (journal : List Row) (request : Request) : Py Report := do
  let spec ← specOf journal request.specId
  let rows ← rowsOf request.trace
  let _ ← wire request.trace
  let ids ← sourceIds request.sourceMemoryIds
  Py.require (request.recoveryMemoryIds.all (·.length ≤ 1024))
    (.valueError "shield recoveries must be an array of at most 1024 memory IDs")
  let samples ← samplesFrom none rows
  checkAction request.action
  let _ ← wire request.action
  let sources ← ids.mapM fun id ↦ textArgument id "source memory id" 256
  let sources := sortBy id sources.dedup
  let (verdict, robustness, work) ← judge environment.floats spec samples sources
  Py.require (!(request.recoveryMemoryIds.any (!·.isEmpty)) ||
      (request.recoveryContext.isSome && request.failureType.any (· ≠ "")))
    (.valueError "selected recovery memories require failure type and scoped registry context")
  let fallback ← fallbackOf environment request verdict
  return {
    specId := request.specId
    verdict := verdict
    robustness := robustness
    proposedActionDigest := environment.digest request.action
    sourceMemoryIds := sources
    recoveryFallback := fallback
    action := if verdict = .safe then "continue" else if fallback.isEmpty then "hold" else "hold-and-use-recovery"
    monitorWork := work }

theorem pairwise_samplesFrom {last : Option ℚ} {rows : List Json} {samples : List Sample}
    (h : samplesFrom last rows = .ok samples) :
    (samples.map Sample.time).Pairwise (· < ·) ∧ ∀ time ∈ samples.map Sample.time, ∀ before ∈ last,
      before < time := by
  induction rows generalizing last samples with
  | nil =>
    obtain rfl := Except.ok.inj h
    exact ⟨.nil, fun _ hmem ↦ absurd hmem List.not_mem_nil⟩
  | cons row rows ih =>
    obtain ⟨time, -, h⟩ := Py.of_bind h
    obtain ⟨_, hlast, h⟩ := Py.of_bind h
    obtain ⟨values, -, h⟩ := Py.of_bind h
    obtain ⟨rest, hrest, h⟩ := Py.of_bind h
    obtain rfl := Except.ok.inj h
    obtain ⟨hsorted, hafter⟩ := ih hrest
    have hfirst : ∀ before ∈ last, before < time := fun before hbefore ↦ by
      rw [Option.mem_def] at hbefore
      simpa [hbefore] using hlast
    refine ⟨List.pairwise_cons.mpr ⟨fun later hlater ↦ hafter later hlater time rfl, hsorted⟩,
      fun later hlater before hbefore ↦ ?_⟩
    rcases List.mem_cons.mp hlater with rfl | hlate
    · exact hfirst before hbefore
    · exact (hfirst before hbefore).trans (hafter later hlate time rfl)

theorem judge_spec {floats : Floats} {spec : Spec} {samples : List Sample} {sources : List String} {verdict : Verdict}
    {robustness : Option Robustness} {work : ℕ} (h : judge floats spec samples sources =
      .ok (verdict, robustness, work)) :
    (verdict = .safe → spec.memoryId ∈ sources ∧ ∃ value, robustness = some value ∧ 0 ≤ value) ∧
    ∀ value, robustness = some value → (0 ≤ value → verdict = .safe) ∧ ∃ first, samples.head? = some first ∧
      Gives (robust floats samples spec.formula first.time) 0 value work := by
  unfold judge at h
  by_cases hsources : spec.memoryId ∈ sources
  · rw [if_neg (not_not.mpr hsources)] at h
    split at h
    · cases h
    · next first rest =>
      split at h
      · next value after heq =>
        obtain ⟨rfl, hrest⟩ := Prod.mk.inj (Except.ok.inj h)
        obtain ⟨rfl, rfl⟩ := Prod.mk.inj hrest
        refine ⟨fun hsafe ↦ ⟨hsources, value, rfl, ?_⟩, fun found hfound ↦ ?_⟩
        · by_contra hnot
          rw [if_neg hnot] at hsafe
          cases hsafe
        · obtain rfl := Option.some.inj hfound
          exact ⟨fun hnonneg ↦ if_pos hnonneg, first, rfl, heq⟩
      · obtain ⟨rfl, hrest⟩ := Prod.mk.inj (Except.ok.inj h)
        obtain ⟨rfl, -⟩ := Prod.mk.inj hrest
        exact ⟨fun hsafe ↦ absurd hsafe (by simp), fun _ hvalue ↦ absurd hvalue (by simp)⟩
      · obtain ⟨rfl, hrest⟩ := Prod.mk.inj (Except.ok.inj h)
        obtain ⟨rfl, -⟩ := Prod.mk.inj hrest
        exact ⟨fun hsafe ↦ absurd hsafe (by simp), fun _ hvalue ↦ absurd hvalue (by simp)⟩
      · cases h
  · rw [if_pos hsources] at h
    obtain ⟨rfl, hrest⟩ := Prod.mk.inj (Except.ok.inj h)
    obtain ⟨rfl, -⟩ := Prod.mk.inj hrest
    exact ⟨fun hsafe ↦ absurd hsafe (by simp), fun _ hvalue ↦ absurd hvalue (by simp)⟩

/-- The spec and the samples of a check that returns. -/
structure Checked (environment : Environment) (journal : List Row) (request : Request) (spec : Spec)
    (samples : List Sample) (report : Report) : Prop where
  found : (specsOf journal request.specId).getLast? = some spec
  read : ∃ rows, request.trace = .arr rows ∧ samplesFrom none rows = .ok samples
  judged : judge environment.floats spec samples report.sourceMemoryIds =
    .ok (report.verdict, report.robustness, report.monitorWork)
  action : report.action = "continue" ↔ report.verdict = .safe

theorem checked_of_check {environment : Environment} {journal : List Row} {request : Request} {report : Report}
    (h : check environment journal request = .ok report) :
    ∃ spec samples, Checked environment journal request spec samples report := by
  obtain ⟨spec, hspec, h⟩ := Py.of_bind h
  obtain ⟨rows, hrows, h⟩ := Py.of_bind h
  obtain ⟨_, h⟩ := Py.of_rest h
  obtain ⟨ids, -, h⟩ := Py.of_bind h
  obtain ⟨_, h⟩ := Py.of_rest h
  obtain ⟨samples, hsamples, h⟩ := Py.of_bind h
  obtain ⟨_, h⟩ := Py.of_rest h
  obtain ⟨_, h⟩ := Py.of_rest h
  obtain ⟨sources, -, h⟩ := Py.of_bind h
  obtain ⟨⟨verdict, robustness, work⟩, hjudge, h⟩ := Py.of_bind h
  obtain ⟨_, h⟩ := Py.of_rest h
  obtain ⟨fallback, -, h⟩ := Py.of_bind h
  obtain rfl := Except.ok.inj h
  refine ⟨spec, samples, ?_, ⟨rows, ?_, hsamples⟩, hjudge, ?_⟩
  · unfold specOf at hspec
    split at hspec
    · next found hfound => exact Except.ok.inj hspec ▸ hfound
    · cases hspec
  · unfold rowsOf at hrows
    split at hrows
    · next found htrace =>
      split_ifs at hrows
      exact htrace.trans (congrArg Json.arr (Except.ok.inj hrows))
    · cases hrows
  · dsimp only
    by_cases hsafe : verdict = .safe
    · simp [hsafe]
    · rw [if_neg hsafe]
      split_ifs <;> simp [hsafe]

/-- A check that returns `continue` recalled its memory, and the trace satisfies the formula. -/
theorem continue_sound (environment : Environment) (journal : List Row) (request : Request) (report : Report)
    (h : check environment journal request = .ok report) :
    ∃ spec samples, (specsOf journal request.specId).getLast? = some spec ∧
      (∃ rows, request.trace = .arr rows ∧ samplesFrom none rows = .ok samples) ∧
      (Exact environment.floats samples spec.formula →
        (report.action = "continue" → spec.memoryId ∈ report.sourceMemoryIds ∧
          ∃ first, samples.head? = some first ∧ Satisfies environment.floats samples spec.formula first.time) ∧
        (report.robustness.isSome → (∃ first, samples.head? = some first ∧
          Satisfies environment.floats samples spec.formula first.time) → report.verdict = .safe)) := by
  obtain ⟨spec, samples, hchecked⟩ := checked_of_check h
  refine ⟨spec, samples, hchecked.found, hchecked.read, fun hexact ↦ ?_⟩
  obtain ⟨rows, -, hsamples⟩ := hchecked.read
  have hsorted := (pairwise_samplesFrom hsamples).1
  obtain ⟨hsafe, hvalues⟩ := judge_spec hchecked.judged
  constructor
  · intro haction
    obtain ⟨hsource, value, hvalue, hnonneg⟩ := hsafe (hchecked.action.mp haction)
    obtain ⟨-, first, hfirst, hgives⟩ := hvalues value hvalue
    exact ⟨hsource, first, hfirst, (robust_iff hsorted hexact hgives).mp hnonneg⟩
  · rintro hcompleted ⟨first, hfirst, hsatisfies⟩
    obtain ⟨value, hvalue⟩ := Option.isSome_iff_exists.mp hcompleted
    obtain ⟨hverdict, other, hother, hgives⟩ := hvalues value hvalue
    obtain rfl := Option.some.inj (hfirst.symm.trans hother)
    exact hverdict ((robust_iff hsorted hexact hgives).mpr hsatisfies)

namespace Example

/-- Exact arithmetic; the neighbors are those of floats from 1 to 2. -/
def floats : Floats := ⟨(· + ·), (· - ·), (· + 1 / 2 ^ 52), (· - 1 / 2 ^ 52), fun _ ↦ ""⟩

/-- The clearance stays at least 1 for two seconds. -/
def spec : Spec := ⟨"clearance", .always 0 2 (.predicate "distance" .atLeast 1), "memory", "arm", "keeps clear"⟩

def sample (time distance : ℤ) : Json := .obj [("t", .int time), ("distance", .int distance)]

def request : Request where
  specId := "clearance"
  action := .obj [("move", .int 1)]
  trace := .arr [sample 0 3, sample 1 2, sample 2 1]
  sourceMemoryIds := .arr [.str "memory"]
  recoveryMemoryIds := none
  recoveryContext := none
  failureType := none

def environment : Environment := ⟨floats, fun _ ↦ "", fun _ _ ↦ .ok []⟩

theorem check_request : (check environment [.spec spec] request).toOption.map Report.action = some "continue" := by
  decide +kernel

end Example

/-- A trace that keeps the distance continues. -/
theorem continue_sound_distance :
    ∃ report, check Example.environment [.spec Example.spec] Example.request = .ok report ∧
      report.action = "continue" ∧ Example.spec.memoryId ∈ report.sourceMemoryIds := by
  obtain ⟨report, hreport, haction⟩ := Option.map_eq_some_iff.mp Example.check_request
  have hcheck : check Example.environment [.spec Example.spec] Example.request = .ok report := by
    cases hresult : check Example.environment [.spec Example.spec] Example.request with
    | error error => rw [hresult] at hreport; cases hreport
    | ok found => rw [hresult] at hreport; exact congrArg Except.ok (Option.some.inj hreport)
  obtain ⟨spec, samples, hspec, -, hsound⟩ := continue_sound Example.environment [.spec Example.spec] Example.request
    report hcheck
  obtain rfl : Example.spec = spec := Option.some.inj hspec
  refine ⟨report, hcheck, haction, ((hsound ?_).1 haction).1⟩
  intro sample _ value _
  exact sub_nonneg

end UniMem.Robotics.Shield
