import UniMem.Python
import UniMem.Library.Grouping

/-!
# Reflection within a token budget

`reflect` puts every directive into the context, fills the budget with rows, and reserves room for facts to be
explored. The answers of other modules are functions of a `Setting`.
-/

namespace UniMem.MemoryControl

open Library

/-- `DIMENSIONS`. -/
def dimensions : List String := ["tenant", "user", "agent", "app", "project", "session", "repo", "domain"]

/-- One revision of a directive, as its file is read. -/
structure Revision where
  id : String
  recordedAt : String
  revision : String
  scopes : List String
  text : String
  /-- The origin receipt verifies, or there never was one. -/
  admitted : Bool

/-- A label of one of the dimensions. -/
def orthogonal (label : String) : Bool :=
  ':' ∈ label.toList && String.ofList (label.toList.takeWhile (· ≠ ':')) ∈ dimensions

/-- `matches` for rows that are not governed. -/
def matchesContext (labels context : List String) : Bool :=
  let legacy := labels.filter fun label ↦ !orthogonal label
  (labels.filter orthogonal).all (· ∈ context) && (legacy.isEmpty || legacy.any (· ∈ context))

/-- The tuple of the time and the revision is greater. -/
def supersedes (row before : Revision) : Bool :=
  before.recordedAt < row.recordedAt || (before.recordedAt = row.recordedAt && before.revision < row.revision)

/-- One turn of the loop of `records`. -/
def keepLatest (latest : List (String × Revision)) (row : Revision) : List (String × Revision) :=
  match latest.lookup row.id with
  | none => assign row.id row latest
  | some before => if supersedes row before then assign row.id row latest else latest

/-- `records` for directives. -/
def records (revisions : List Revision) (context : List String) : Py (List Revision) := do
  revisions.forM fun row ↦
    Py.require row.admitted (.permissionError "mandatory directive has an invalid origin receipt")
  return ((revisions.foldl keepLatest []).map Prod.snd).filter fun row ↦ matchesContext row.scopes context

/-- A row of one of the layers. -/
structure Row where
  id : String
  text : String
  sources : List String

/-- A current fact. -/
structure Fact where
  id : String
  statement : String
  sources : List String

/-- An active compression. -/
structure Artifact where
  id : String
  text : String
  level : String

/-- A selected row. -/
structure Selected where
  layer : String
  row : Row

/-- What `reflect` has gathered before it selects. -/
structure Gathered where
  directives : List Revision
  promoted : List Artifact
  curated : List Row
  consolidated : List Row
  raw : List Row
  facts : List Fact
  nodup : (facts.map Fact.id).Nodup

/-- What other modules say about a question and about texts. -/
structure Setting where
  /-- `len(q & set(terms(text)))`. -/
  overlap : String → ℕ
  /-- `injection_guard.injection_labels` is not empty. -/
  flagged : String → Bool
  /-- The identity is one of `HarmWatch.current`. -/
  harmful : String → Bool
  /-- `recall.weak_coverage` gives a reason. -/
  weak : List String → Bool
  /-- The factor of `AUTO_BUDGET_FACTORS` for the shape of the question. -/
  factor : ℕ

/-- What chance decides in the holdout, the screens, the samples and the delivery. -/
structure Chance where
  keep : List Selected → Selected → Bool
  sample : List String → ℕ → List String
  sample_nodup : ∀ pool count, pool.Nodup → (sample pool count).Nodup
  sample_subset : ∀ pool count, ∀ identity ∈ sample pool count, identity ∈ pool
  sample_length : ∀ pool count, (sample pool count).length ≤ count
  delivered : String → Bool

/-- The arguments of `reflect`. Negative ones raise before anything is read. -/
structure Request where
  context : List String
  budget : ℕ
  causal : Bool
  slots : ℕ
  adaptive : Bool
  maxBudget : Option ℕ

/-- `f"[{layer}:{id}] {text}"`. -/
def line (layer identity text : String) : String := "[" ++ layer ++ ":" ++ identity ++ "] " ++ text

def Selected.line (selected : Selected) : String :=
    MemoryControl.line selected.layer selected.row.id selected.row.text

/-- `(len(text.encode()) + 3) // 4`. -/
def tokens (text : String) : ℕ := (text.utf8ByteSize + 3) / 4

/-- `"\n".join(lines)`. -/
def joinLines : List String → String
  | [] => ""
  | [text] => text
  | text :: other :: rest => text ++ "\n" ++ joinLines (other :: rest)

/-- The lines of all rules: directives, then promoted compressions. -/
def directiveLines (gathered : Gathered) (context : List String) : Py (List String) := do
  let rules ← records gathered.directives context
  let promoted := gathered.promoted.filter fun artifact ↦ artifact.level = "directive"
  return rules.map (fun rule ↦ line "directive" rule.id rule.text) ++
    promoted.map fun artifact ↦ line "directive" artifact.id artifact.text

/-- `candidates.sort(key=lambda r: (-len(q & set(terms(r["text"]))), r["id"]))`. -/
def sortRows (setting : Setting) (rows : List Row) : List Row :=
  rows.insertionSort fun first second ↦ setting.overlap second.text < setting.overlap first.text ∨
    (setting.overlap first.text = setting.overlap second.text ∧ first.id ≤ second.id)

/-- The layers in order. -/
def layers (setting : Setting) (gathered : Gathered) : List (String × List Row) :=
  [("curated", sortRows setting gathered.curated), ("consolidated", sortRows setting gathered.consolidated),
    ("raw", sortRows setting gathered.raw)]

/-- What `fill` has selected so far. -/
structure Filling where
  rendered : List String
  selected : List Selected
  used : ℕ
  consumed : List String
  texts : List String
  leftOut : ℕ

/-- One turn of the inner loop of `fill`, with the room that the reserve leaves. -/
def consider (setting : Setting) (room : ℤ) (layer : String) (state : Filling) (row : Row) : Filling :=
  if setting.flagged row.text then state
  else if row.id ∈ state.consumed ∨ row.text ∈ state.texts then state
  else
    let text := line layer row.id row.text
    let cost := tokens text + if state.rendered = [] then 0 else 1
    if ((state.used + cost : ℕ) : ℤ) ≤ room then
      { state with
        rendered := state.rendered ++ [text]
        selected := state.selected ++ [⟨layer, row⟩]
        used := state.used + cost
        consumed := state.consumed ++ row.sources
        texts := state.texts ++ [row.text] }
    else { state with leftOut := state.leftOut + 1 }

/-- `fill`. -/
def fill (setting : Setting) (layers : List (String × List Row)) (directives : List String) (reserve limit : ℕ) :
    Filling :=
  layers.foldl (fun state layer ↦ layer.2.foldl (consider setting (limit - reserve) layer.1) state)
    ⟨directives, [], (directives.map tokens).sum, [], [], 0⟩

/-- `MAX_GROWTH_STEPS` of `recall`. -/
def maxGrowthSteps : ℕ := 2

/-- `ADAPTIVE_CAP` of `recall`. -/
def adaptiveCap : ℕ := 12_000

/-- The loop that doubles the budget while the evidence is weak. -/
def grow (setting : Setting) (fillAt : ℕ → Filling) (cap : ℕ) : ℕ → ℕ → Filling → ℕ × Filling
  | 0, budget, state => (budget, state)
  | steps + 1, budget, state =>
    if budget < cap ∧ setting.weak (state.selected.map fun selected ↦ selected.row.text) ∧ state.leftOut ≠ 0 then
      grow setting fillAt cap steps (min cap (budget * 2)) (fillAt (min cap (budget * 2)))
    else (budget, state)

/-- The line of a fact that is explored, and its cost with the line break. -/
def Fact.line (fact : Fact) : String := MemoryControl.line "exploration" fact.id fact.statement

def Fact.cost (fact : Fact) : ℕ := tokens fact.line + 1

/-- A fact that may be explored when it fits. -/
def Explorable (setting : Setting) (fact : Fact) : Prop :=
  setting.harmful fact.id = false ∧ setting.flagged fact.statement = false

instance (setting : Setting) (fact : Fact) : Decidable (Explorable setting fact) :=
  inferInstanceAs (Decidable (_ ∧ _))

/-- `exploration_pool`, with what one slot may cost. -/
def explorationPool (setting : Setting) (facts : List Fact) (slots room : ℕ) : List Fact :=
  if slots = 0 then [] else facts.filter fun fact ↦ fact.cost ≤ room / slots ∧ Explorable setting fact

/-- What is kept free for explored facts. -/
def reserveFor (pool : List Fact) (slots : ℕ) : ℕ := (pool.map Fact.cost).foldl max 0 * min slots pool.length

/-- `causal_policy.explore` with nothing ranked: the delivered identities. -/
def explore (chance : Chance) (eligible : List String) (slots : ℕ) : List String :=
  (chance.sample eligible (min slots eligible.length)).filter chance.delivered

/-- The facts that are delivered. -/
def explored (chance : Chance) (pool : List Fact) (slots : ℕ) (state : Filling) : List Fact :=
  let ranked := state.selected.map fun selected ↦ selected.row.id
  let available := pool.filter fun fact ↦ fact.id ∉ state.consumed ∧ fact.id ∉ ranked
  let identities := (available.map Fact.id).insertionSort (· ≤ ·)
  (explore chance identities slots).filterMap fun identity ↦ available.find? fun fact ↦ fact.id = identity

/-- A delivered fact as a selected row. -/
def Fact.selected (fact : Fact) : Selected := ⟨"exploration", fact.id, fact.statement, fact.sources⟩

/-- What `reflect` returns. -/
structure Result where
  context : String
  tokensEstimate : ℕ
  budget : ℕ
  evidence : List Selected

/-- The budget that the shape of the question asks for, and the cap of its growth. -/
def shapedBudget (setting : Setting) (request : Request) : ℕ × ℕ :=
  if request.adaptive ∧ 0 < request.budget then
    let cap := max request.budget (request.maxBudget.getD adaptiveCap)
    (min cap (request.budget * setting.factor), cap)
  else (request.budget, request.budget)

/-- What is selected and delivered from a budget that holds the directives. -/
def selectRows (setting : Setting) (chance : Chance) (request : Request) (gathered : Gathered)
    (directives : List String) (budget cap : ℕ) : Result :=
  let pool := explorationPool setting gathered.facts request.slots (budget - (directives.map tokens).sum)
  let fillAt := fill setting (layers setting gathered) directives (reserveFor pool request.slots)
  let (effective, state) := grow setting fillAt cap maxGrowthSteps budget (fillAt budget)
  if request.causal then
    let kept := state.selected.filter (chance.keep state.selected)
    let delivered := if request.slots = 0 then [] else explored chance pool request.slots state
    let rendered := directives ++ kept.map Selected.line ++ delivered.map Fact.line
    ⟨joinLines rendered, tokens (joinLines rendered), effective, kept ++ delivered.map Fact.selected⟩
  else ⟨joinLines state.rendered, state.used, effective, state.selected⟩

/-- `reflect`. -/
def reflect (setting : Setting) (chance : Chance) (gathered : Gathered) (request : Request) : Py Result := do
  Py.require (request.budget ≤ 100_000) (.valueError "budget must be an integer in 0..100000")
  Py.require (¬(request.adaptive ∧ 0 < request.budget) ∨ request.maxBudget.getD 0 ≤ 100_000)
    (.valueError "max_budget must be an integer in 0..100000")
  Py.require (request.slots ≤ 100) (.valueError "exploration slots must be an integer in 0..100")
  Py.require (request.slots = 0 ∨ request.causal) (.valueError "exploration requires a measured retrieval")
  let directives ← directiveLines gathered request.context
  let (budget, cap) := shapedBudget setting request
  Py.require ((directives.map tokens).sum ≤ budget) (.valueError "token budget cannot fit mandatory directives")
  return selectRows setting chance request gathered directives budget cap

end UniMem.MemoryControl
