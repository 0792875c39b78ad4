import UniMem.Library.Grouping
import UniMem.Library.Transitions
import UniMem.Python

/-!
# Settlements

`settle` reads the book, computes a statement from the licences and the proven lift, and commits it under a
lock. The book may change between the read and the commit. Amounts are exact.
-/

namespace UniMem.MarketSettlement

open Library

inductive Per where
  | install
  | month
  | year
  deriving DecidableEq

structure Price where
  per : Per
  amount : ℚ

/-- A licence that `_licence` accepts. -/
structure Licence where
  id : String
  price : Option Price
  outcomeShare : Option ℚ
  share_pos : ∀ share ∈ outcomeShare, 0 < share

/-- A row of `installed`. -/
structure Row where
  listing : String
  slug : String
  publisher : String
  installedAt : String

inductive Verdict where
  | helps
  | hurts
  | noEffect
  | underpowered
  deriving DecidableEq

/-- The effect of a lesson in the holdout. -/
structure Effect where
  verdict : Verdict
  ciLow : ℚ
  effect : ℚ
  injected : ℕ
  withheld : ℕ

/-- What a call reads besides the book. -/
structure Observation where
  installed : List Row
  /-- `install` writes no listing twice. -/
  unique : (installed.map Row.listing).Nodup
  /-- `_status`. -/
  status : String → Option String
  /-- `effects.get(canonical_slug(slug))`. -/
  effect : String → Option Effect
  issuedAt : String

/-- What stays the same: licences, the value of an occasion, digests and digits. -/
structure Market where
  licence : String → Licence
  valuePerOccasion : Option ℚ
  /-- `\d`. -/
  decimal : Char → Bool

/-- The share of a listing. -/
def Market.share (market : Market) (listing : String) : ℚ := (market.licence listing).outcomeShare.getD 0

theorem Market.share_nonneg (market : Market) (listing : String) : 0 ≤ market.share listing := by
  unfold Market.share
  cases hshare : (market.licence listing).outcomeShare with
  | none => exact le_rfl
  | some share => exact ((market.licence listing).share_pos share hshare).le

/-- The evidence of an outcome share. -/
structure Evidence where
  effect : Effect
  valuePerOccasion : ℚ
  basis : ℚ
  previous : ℚ
  share : ℚ

inductive Charge where
  | fee (per : Per)
  | outcomeShare (evidence : Evidence)

structure Line where
  publisher : String
  listing : String
  slug : String
  charge : Charge
  amount : ℚ
  licence : String

structure Statement where
  period : String
  lines : List Line
  refused : List (String × String)
  totals : List (String × ℚ)
  total : ℚ
  previousDigest : Option String
  issuedAt : String
  digest : String

/-- `memory/market/settlements.json`. -/
structure Book where
  statements : List Statement
  outcomeBasis : List (String × ℚ)

def Book.empty : Book := ⟨[], []⟩

/-- `outcome_basis.get(listing, 0.0)`. -/
def basisOf (bases : List (String × ℚ)) (listing : String) : ℚ := (bases.lookup listing).getD 0

/-- What a call has computed so far. -/
structure Account where
  lines : List Line
  refused : List (String × String)
  bases : List (String × ℚ)

/-- What a price charges in a period. -/
def Price.due (price : Price) (period : String) (row : Row) : ℚ :=
  match price.per with
  | .month => price.amount
  | .year => price.amount / 12
  | .install => if row.installedAt.toList.take 7 = period.toList then price.amount else 0

/-- The fee of a row. -/
def fee (market : Market) (period : String) (observation : Observation) (row : Row) : List Line :=
  let licence := market.licence row.listing
  match licence.price with
  | none => []
  | some price =>
    if observation.status row.slug = none ∨ observation.status row.slug = some "rejected" then []
    else if price.due period row = 0 then []
    else [⟨row.publisher, row.listing, row.slug, .fee price.per, price.due period row, licence.id⟩]

/-- The basis that a lesson has proved, or why its share is refused. -/
def proved (observation : Observation) (row : Row) (value : ℚ) : Except String (Effect × ℚ) :=
  match observation.effect row.slug with
  | some effect =>
    if observation.status row.slug = some "active" ∧ effect.verdict = .helps then
      .ok (effect, max 0 effect.ciLow * effect.injected * value)
    else .error (reason observation row)
  | none => .error (reason observation row)
where
  reason (observation : Observation) (row : Row) : String :=
    match observation.status row.slug with
    | none => "the lesson is missing, not active"
    | some status =>
      if status = "active" then "no HELPS verdict in this store's own holdout yet"
      else "the lesson is " ++ (if status.isEmpty then "missing" else status) ++ ", not active"

/-- The outcome share of a row. -/
def outcome (market : Market) (bases : List (String × ℚ)) (observation : Observation) (account : Account)
    (row : Row) : Account :=
  let licence := market.licence row.listing
  match licence.outcomeShare with
  | none => account
  | some share =>
    match market.valuePerOccasion with
    | none => { account with
        refused := account.refused ++ [(row.slug, "outcome share needs --value-per-occasion")] }
    | some value =>
      match proved observation row value with
      | .error reason => { account with refused := account.refused ++ [(row.slug, reason)] }
      | .ok (effect, basis) =>
        let previous := basisOf bases row.listing
        if basis - previous ≤ 0 then account
        else { account with
          bases := assign row.listing basis account.bases
          lines := account.lines ++ [⟨row.publisher, row.listing, row.slug,
            .outcomeShare ⟨effect, value, basis, previous, share⟩, (basis - previous) * share, licence.id⟩] }

/-- One turn of the loop of `settle`. -/
def settleRow (market : Market) (book : Book) (period : String) (observation : Observation)
    (account : Account) (row : Row) : Account :=
  outcome market book.outcomeBasis observation
    { account with lines := account.lines ++ fee market period observation row } row

/-- The loop of `settle`. -/
def account (market : Market) (book : Book) (period : String) (observation : Observation) : Account :=
  observation.installed.foldl (settleRow market book period observation) ⟨[], [], book.outcomeBasis⟩

/-- The sums of the lines of each publisher. -/
def totals (lines : List Line) : List (String × ℚ) :=
  (group Line.publisher lines).map fun entry ↦ (entry.1, (entry.2.map Line.amount).sum)

/-- `hashlib.sha256(json.dumps(statement, sort_keys=True))`. -/
abbrev Digest := Statement → String

/-- The statement of a period. -/
def statement (digest : Digest) (book : Book) (period : String) (observation : Observation)
    (account : Account) : Statement :=
  let sums := totals account.lines
  let unsigned : Statement := {
    period := period
    lines := account.lines
    refused := account.refused
    totals := sums
    total := (sums.map Prod.snd).sum
    previousDigest := book.statements.getLast?.map Statement.digest
    issuedAt := observation.issuedAt
    digest := "" }
  { unsigned with digest := digest unsigned }

/-- `_PERIOD.match`. The end of the pattern also matches before a last newline. -/
def isPeriod (market : Market) (period : String) : Bool :=
  match period.toList with
  | year₁ :: year₂ :: year₃ :: year₄ :: '-' :: month₁ :: month₂ :: rest =>
    [year₁, year₂, year₃, year₄].all market.decimal &&
      ((month₁ = '0' && '1' ≤ month₂ && month₂ ≤ '9') || (month₁ = '1' && '0' ≤ month₂ && month₂ ≤ '2')) &&
      (rest.isEmpty || rest = ['\n'])
  | _ => false

def alreadySettled (period : String) : PyError := .valueError (period ++ " is already settled")

def Book.settled (book : Book) (period : String) : Bool := book.statements.any (·.period = period)

/-- A call between its read and its commit. -/
structure Draft where
  /-- The book that the call has read. -/
  book : Book
  period : String
  observation : Observation

structure World where
  book : Book
  drafts : ℕ → Option Draft
  /-- What all calls have observed. -/
  observed : List Observation

def World.empty : World := ⟨.empty, fun _ ↦ none, []⟩

inductive Action where
  /-- A call of `settle` up to its lock. -/
  | draft (call : ℕ) (period : String) (observation : Observation)
  /-- The part under the lock. -/
  | commit (call : ℕ)

/-- The checks of `settle` before it computes. -/
def checkPeriod (market : Market) (book : Book) (period : String) : Py Unit := do
  Py.require (isPeriod market period) (.valueError "period must be YYYY-MM")
  Py.require (market.valuePerOccasion.all (0 ≤ ·)) (.valueError "value_per_occasion must be non-negative")
  Py.require (!book.settled period) (alreadySettled period)

/-- The book after the commit of a draft. -/
def Book.commit (market : Market) (digest : Digest) (book : Book) (draft : Draft) : Book :=
  let computed := account market draft.book draft.period draft.observation
  { statements := book.statements ++
      [statement digest draft.book draft.period draft.observation computed]
    outcomeBasis := computed.bases }

/-- One part of a call. -/
def step (market : Market) (digest : Digest) (world : World) : Action → Py World
  | .draft call period observation => do
    checkPeriod market world.book period
    return { world with
      drafts := Function.update world.drafts call (some ⟨world.book, period, observation⟩)
      observed := world.observed ++ [observation] }
  | .commit call =>
    match world.drafts call with
    | none => .ok world
    | some draft => do
      Py.require (!world.book.settled draft.period) (alreadySettled draft.period)
      return { world with
        book := world.book.commit market digest draft
        drafts := Function.update world.drafts call none }

end UniMem.MarketSettlement
