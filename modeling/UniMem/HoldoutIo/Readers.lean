import UniMem.Capabilities.Policy
import UniMem.Library.Grouping
import UniMem.Python.Collections
import UniMem.Python.Text

/-!
# Readers of the holdout logs

Assignments and outcomes are lines of JSON. Both readers remember what they have read of a file and read on from
  there;
what they return is what the whole file gives.
-/

namespace UniMem.HoldoutIo

open Library AppendedLines Capabilities

/-- What the readers use of the standard library. -/
structure Setting (φ τ : Type) where
  /-- `json.loads` of bytes; `none` where it raises `ValueError`. -/
  loads : Bytes → Option Json
  /-- `json.loads` of a text. -/
  loadsText : String → Option Json
  str : Json → String
  repr : String → String
  /-- `float(value)`, where it returns a finite number. -/
  float : Json → Option φ
  /-- `int(value)`, where it returns. -/
  int : Json → Option ℤ
  fromisoformat : String → Option τ
  /-- `experiment.DEFAULT_HOLDOUT_RATE`. -/
  defaultRate : φ

variable {φ τ ι : Type}

/-- `_TAIL_CHECK`. -/
def tailCheck : ℕ := 64

def defaultSalt : String := "default"

/-- `dict[str, bool]`. -/
abbrev Outcomes := List (String × Bool)

/-- `_parse_outcome_line`. -/
def parseOutcomeLine (setting : Setting φ τ) (out : Outcomes) (line : Bytes) : Outcomes :=
  match setting.loads line with
  | some (.obj row) =>
    match row.lookup "occasion_id", row.lookup "succeeded" with
    | some (.str occasion), some (.bool succeeded) => if occasion ≠ "" then assign occasion succeeded out else out
    | _, _ => out
  | _ => out

/-- The loop over the whole lines of a chunk. -/
def absorbOutcomes (setting : Setting φ τ) (out : Outcomes) (lines : Bytes) : Outcomes :=
  (splitlines lines).foldl (parseOutcomeLine setting) out

/-- The outcomes with the line that is still open. -/
def mergeOutcome (setting : Setting φ τ) (out : Outcomes) (pending : Bytes) : Outcomes :=
  if pending.all isSpaceByte then out else parseOutcomeLine setting out pending

section Shared

variable [DecidableEq ι]

/-- `_outcomes_shared`, with the size found before the file was opened. -/
def outcomesShared (setting : Setting φ τ) (cache : Option (Cache ι Outcomes)) (file : Option (File ι)) (size : ℕ) :
    Outcomes × Option (Cache ι Outcomes) :=
  match file with
  | none => ([], cache)
  | some file =>
    let (cache, pending) := refresh (absorbOutcomes setting) [] tailCheck cache file size
    (mergeOutcome setting cache.parsed pending, some cache)

end Shared

/-- The outcomes of a file that is read from its start. -/
def parseOutcomes (setting : Setting φ τ) (bytes : Bytes) : Outcomes :=
  mergeOutcome setting (absorbOutcomes setting [] (whole bytes)) (pending bytes)

/-- `LogRecord`. -/
structure LogRecord (φ τ : Type) where
  lesson : String
  occasionId : String
  injected : Bool
  rate : φ
  salt : String
  assigned : Option τ
  revision : Option String
  relevance : Option φ
  rank : Option ℤ
  scorer : Option String
  floor : Option φ
  schedule : Option String
  context : Option String

/-- `raw.get(key)` where it is true. -/
def given (raw : List (String × Json)) (key : String) : Option Json := (raw.lookup key).filter truthy

/-- `_parse_log_line`. -/
def parseLogLine (setting : Setting φ τ) (line : String) : Option (LogRecord φ τ) :=
  match setting.loadsText (strip line) with
  | some (.obj raw) => do
    let lesson ← raw.lookup "lesson"
    let occasionId ← raw.lookup "occasion_id"
    let injected ← raw.lookup "injected"
    return {
      lesson := setting.str lesson
      occasionId := setting.str occasionId
      injected := truthy injected
      rate := ((raw.lookup "rate").bind setting.float).getD setting.defaultRate
      salt := ((given raw "salt").map setting.str).getD defaultSalt
      assigned := (given raw "at").bind fun value ↦ setting.fromisoformat (setting.str value)
      revision := (given raw "revision").map setting.str
      relevance := (raw.lookup "relevance").bind setting.float
      rank := (raw.lookup "rank").bind setting.int
      scorer := (given raw "scorer").map setting.str
      floor := (raw.lookup "floor").bind setting.float
      schedule := (given raw "schedule").map setting.str
      context := (given raw "context").map setting.str }
  | _ => none

/-- The records that were read and the number of lines that could not be. -/
abbrev Assignments (φ τ : Type) := List (LogRecord φ τ) × ℕ

/-- One line of the log: a blank one is passed over. -/
def logLine (setting : Setting φ τ) (log : Assignments φ τ) (line : List Char) : Assignments φ τ :=
  if strip (String.ofList line) = "" then log
  else
    match parseLogLine setting (String.ofList line) with
    | none => (log.1, log.2 + 1)
    | some record => (log.1 ++ [record], log.2)

/-- The loop over the whole lines of a chunk. -/
def absorbLog (setting : Setting φ τ) (log : Assignments φ τ) (lines : Bytes) : Assignments φ τ :=
  ((decodeReplace lines).splitOn '\n').foldl (logLine setting) log

section Shared

variable [DecidableEq ι]

/-- `read_log`, with the size that `os.stat` has found before the file was opened. -/
def readLog (setting : Setting φ τ) (cache : Option (Cache ι (Assignments φ τ))) (file : Option (File ι)) (size : ℕ) :
    Assignments φ τ × Option (Cache ι (Assignments φ τ)) :=
  match file with
  | none => (([], 0), cache)
  | some file =>
    let (cache, pending) := refresh (absorbLog setting) ([], 0) tailCheck cache file size
    (logLine setting cache.parsed (decodeReplace pending), some cache)

end Shared

/-- The assignments of a file that is read from its start. -/
def parseLog (setting : Setting φ τ) (bytes : Bytes) : Assignments φ τ :=
  logLine setting (absorbLog setting ([], 0) (whole bytes)) (decodeReplace (pending bytes))

theorem incremental_absorbOutcomes (setting : Setting φ τ) : Incremental (absorbOutcomes setting) where
  nil := fun _ ↦ rfl
  append := by
    intro state first second hfirst
    rw [absorbOutcomes, absorbOutcomes, absorbOutcomes, splitlines_append hfirst, List.foldl_append]

theorem logLine_nil (setting : Setting φ τ) (log : Assignments φ τ) : logLine setting log [] = log := if_pos rfl

theorem absorbLog_nil (setting : Setting φ τ) (log : Assignments φ τ) : absorbLog setting log [] = log := by
  rw [absorbLog, decodeReplace_nil, List.splitOn_nil]
  exact logLine_nil setting log

theorem absorbLog_append (setting : Setting φ τ) (log : Assignments φ τ) (first second : Bytes) :
    absorbLog setting log (first ++ newline :: second) =
      absorbLog setting (((decodeReplace first).splitOn '\n').foldl (logLine setting) log) second := by
  rw [absorbLog, decodeReplace_append, List.splitOn_append_cons_self, List.foldl_append]
  rfl

theorem incremental_absorbLog (setting : Setting φ τ) : Incremental (absorbLog setting) where
  nil := absorbLog_nil setting
  append := by
    intro state first second hfirst
    obtain rfl | ⟨before, rfl⟩ := hfirst.eq_nil_or_concat
    · rw [absorbLog_nil, List.nil_append]
    · rw [absorbLog_append, absorbLog_nil, List.append_assoc, List.singleton_append, absorbLog_append]

section Exact

variable [DecidableEq ι]

/-- The bytes of a file that may not be there. -/
def content (file : Option (File ι)) : Bytes := (file.map File.bytes).getD []

/-- A cache of a file that may not be there yet. -/
def Remembers {σ : Type} (absorb : σ → Bytes → σ) (initial : σ) (file : Option (File ι))
    (cache : Option (Cache ι σ)) :
    Prop :=
  ∀ known ∈ cache, ∃ bytes ∈ file, known.Tracks absorb initial bytes

variable {file : Option (File ι)}

theorem outcomesShared_eq (setting : Setting φ τ) {cache : Option (Cache ι Outcomes)}
    (h : Remembers (absorbOutcomes setting) [] file cache) (size : ℕ) :
    (outcomesShared setting cache file size).1 = parseOutcomes setting (content file) ∧
      Remembers (absorbOutcomes setting) [] file (outcomesShared setting cache file size).2 := by
  cases file with
  | none => exact ⟨rfl, h⟩
  | some file =>
    have htracks : ∀ known ∈ cache, known.Tracks (absorbOutcomes setting) [] file := by
      intro known hknown
      obtain ⟨found, hfound, htracks⟩ := h known hknown
      obtain rfl := Option.some.inj hfound
      exact htracks
    obtain ⟨hnew, hparsed, hpending⟩ :=
      @refresh_eq _ _ _ _ tailCheck _ _ (incremental_absorbOutcomes setting) _ htracks size
    constructor
    · rw [outcomesShared]
      dsimp only
      rw [hparsed, hpending]
      rfl
    · intro known hknown
      obtain rfl := Option.some.inj hknown
      exact ⟨file, rfl, hnew⟩

theorem readLog_eq (setting : Setting φ τ) {cache : Option (Cache ι (Assignments φ τ))}
    (h : Remembers (absorbLog setting) ([], 0) file cache) (size : ℕ) :
    (readLog setting cache file size).1 = parseLog setting (content file) ∧
      Remembers (absorbLog setting) ([], 0) file (readLog setting cache file size).2 := by
  cases file with
  | none =>
    refine ⟨?_, h⟩
    have hwhole : whole (content (none : Option (File ι))) = [] := rfl
    have hpending : pending (content (none : Option (File ι))) = [] := rfl
    rw [parseLog, hwhole, hpending, absorbLog_nil, decodeReplace_nil, logLine_nil]
    rfl
  | some file =>
    have htracks : ∀ known ∈ cache, known.Tracks (absorbLog setting) ([], 0) file := by
      intro known hknown
      obtain ⟨found, hfound, htracks⟩ := h known hknown
      obtain rfl := Option.some.inj hfound
      exact htracks
    obtain ⟨hnew, hparsed, hpending⟩ :=
      @refresh_eq _ _ _ _ tailCheck _ _ (incremental_absorbLog setting) _ htracks size
    constructor
    · rw [readLog]
      dsimp only
      rw [hparsed, hpending]
      rfl
    · intro known hknown
      obtain rfl := Option.some.inj hknown
      exact ⟨file, rfl, hnew⟩

end Exact

end UniMem.HoldoutIo
