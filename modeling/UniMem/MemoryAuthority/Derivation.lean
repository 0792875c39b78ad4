import UniMem.Lineage.Attestations
import UniMem.MemoryAuthority

/-!
# Binding records to their origins

`bind` appends a receipt whose authority is the least one of the writer, of the last receipt of the record and of
those of its sources. The record keeps the owner scopes of its sources.
-/

namespace UniMem.MemoryAuthority

open Library Origin FrontierProtocol

/-- `TRUST`. -/
def Authority.rank : Authority → ℕ
  | external => 0
  | tool => 1
  | agent => 1
  | user => 2
  | operator => 3

/-- `min((first, second), key=lambda name: TRUST[name])`. -/
def Authority.least (first second : Authority) : Authority :=
  if second.rank < first.rank then second else first

/-- The name of a rank, when there is one. -/
def authorityOf (rank : ℕ) : Py Authority :=
  (([.external, .agent, .user, .operator] : List Authority).find? fun name ↦ name.rank = rank).elim
    (.error .stopIteration) .ok

/-- The authorization that `capabilities.CURRENT` holds. -/
structure Delegation where
  principal : String
  authority : Authority
  ceiling : ℕ
  operation : String

/-- `WRITER` and `capabilities.CURRENT`. -/
structure Caller where
  principal : String
  authority : Authority
  delegation : Option Delegation

/-- What other modules decide about a call. -/
structure Guards where
  /-- `policy_io.assert_write(root, record)`. -/
  assertWrite : Py Unit
  /-- `safety.assert_mutable(root, [record["id"]])`. -/
  assertMutable : Py Unit
  /-- `capability_io.current(root)` under a delegation. -/
  current : Py Unit
  /-- Whether the record has the labels of the active handoffs. -/
  inherits : Bool
  /-- `capability_io.permits(root, record, operation="write")`. -/
  permits : Py Bool

/-- The rank that a writer has under a delegation. -/
def Caller.rank (caller : Caller) : ℕ :=
  caller.delegation.elim caller.authority.rank fun delegation ↦
    min caller.authority.rank (min delegation.authority.rank delegation.ceiling)

/-- `bound_writer`. -/
def boundWriter (guards : Guards) (caller : Caller) : Py (String × Authority) :=
  match caller.delegation with
  | none => .ok (caller.principal, caller.authority)
  | some delegation => do
    guards.current
    return (delegation.principal, ← authorityOf
      (min (min caller.authority.rank delegation.authority.rank) delegation.ceiling))

/-- The caller inside a block of `writer`. -/
def writer (guards : Guards) (caller : Caller) (principal : String) (authority : Authority) : Py Caller := do
  Py.require (principal ≠ "") (.valueError "invalid authenticated writer")
  match caller.delegation with
  | none => return { caller with principal := principal, authority := authority }
  | some _ =>
    let (actual, bounded) ← boundWriter guards caller
    return { caller with principal := actual, authority := authority.least bounded }

/-- `capability_io.before_write` under a delegation. -/
def beforeWrite (guards : Guards) (caller : Caller) (delegation : Delegation) : Py (String × Authority) := do
  guards.current
  Py.require guards.inherits (.permissionError "UniMem write must inherit active handoff labels")
  Py.require (delegation.operation = "write") (.permissionError "UniMem write exceeds its leaf capability")
  Py.require (← guards.permits) (.permissionError "UniMem write exceeds its leaf capability")
  return (delegation.principal, ← authorityOf
    (min (min delegation.ceiling delegation.authority.rank) caller.authority.rank))

/-- `record_class`. -/
def recordClass (record : Row) : Py String :=
  if isText (record.lookup "record_kind") "markdown-store" then .ok "markdown-store"
  else if (record.lookup "statement").isSome ∧ (record.lookup "category").isSome then .ok "fact"
  else if (record.lookup "context").isSome ∧ (record.lookup "solution").isSome then .ok "trace"
  else
    match record.lookup "kind", record.lookup "data", record.lookup "revision" with
    | some (.str kind), some _, some _ => .ok ("control:" ++ kind)
    | some _, some _, some _ => .error (.typeError "can only concatenate str")
    | _, _, _ => .ok "journal"

/-- `record.get("id")`. -/
def idOf (record : Row) : Json := (record.lookup "id").getD .null

/-- The labels of a list of scopes, as `dimensions` reads them. -/
def labelsOf (scopes : Json) : Py (List String) :=
  match scopes with
  | .arr items => do
    Py.require (items.length ≤ 128) (.valueError "scope labels must be a bounded list")
    Py.collect (Py.always fun item ↦
      match item with
      | .str label => .ok label
      | _ => .error (.valueError "invalid scope label")) items
  | _ => .error (.valueError "scope labels must be a bounded list")

/-- `dimensions` of `record.get("scopes", [])`. -/
def ownersOf (record : Row) : Py (List (String × List String)) := do
  Lineage.owners (← labelsOf ((record.lookup "scopes").getD (.arr [])))

/-- The test of `_check_source_scopes` on one source. -/
def keepsOwners (wanted dimensions : List (String × List String)) : Bool :=
  dimensions.all fun entry ↦ (wanted.lookup entry.1).any fun values ↦
    values.all (· ∈ entry.2) && entry.2.all (· ∈ values)

/-- `_check_source_scopes`. -/
def checkSourceScopes (derived : Row) (sources : List Row) : Py Unit := do
  let wanted ← ownersOf derived
  sources.forM fun source ↦ do
    Py.require (keepsOwners wanted (← ownersOf source))
      (.permissionError "derived memory must preserve every authenticated source owner scope")

/-- A row of `origins.jsonl` with its record, sources and writer. -/
structure Entry where
  row : Row
  record : Row
  sources : List String
  caller : Caller

structure Store where
  signing : Signing
  entries : List Entry

/-- `r["record"]`. -/
def recordOf (row : Row) : Row :=
  match row.lookup "record" with
  | some (.obj record) => record
  | _ => []

/-- `r["authority"]`. -/
def readAuthority (row : Row) : Py Authority :=
  (([.external, .tool, .agent, .user, .operator] : List Authority).find? fun authority ↦
    isText (row.lookup "authority") authority.name).elim (.error (.keyError "authority")) .ok

/-- The rows of the wanted records that verify, by the identities of the records. -/
def readPrior (runtime : Runtime) (signing : Signing) (wanted : List Key) (rows : List Row) :
    Py (List (Key × Row)) :=
  Py.collect (fun row ↦ do
    let id ← hashKey (idOf (recordOf row))
    let kept ← if id ∈ wanted then verify runtime signing row else .ok false
    return if kept then some (id, row) else none) rows

/-- The last row of a record. -/
def latest (prior : List (Key × Row)) (id : Key) : Option Row :=
  (lastWith Prod.fst prior id).map Prod.snd

/-- The least rank of a writer and of the sources of a record. -/
def inheritedAuthority (authority : Authority) (inherited : List (Option Row)) : Py Authority :=
  match inherited with
  | [] => .ok authority
  | inherited => do
    let ranks ← Py.collect (Py.always fun source ↦
      match source with
      | none => .ok 0
      | some row => do return (← readAuthority row).rank) inherited
    authorityOf (ranks.foldl min authority.rank)

/-- A call of `bind`, with the bytes that a new key would receive. -/
structure Call where
  record : Row
  sources : List String
  caller : Caller
  guards : Guards
  entropy : Bytes
  length_entropy : entropy.length = 32

/-- The signing key of a store, checked against the pinned public key. -/
def signingKey (runtime : Runtime) (signing : Signing) : Py Bytes := do
  match ← key signing signing.algorithm with
  | none => throw (.permissionError "this public-verifier store has no signing key")
  | some bytes =>
    Py.require (signing.algorithm = .hmacSha256 ∨ signing.publicKey = some (runtime.ed25519PublicBytes bytes))
      (.permissionError "private signing key differs from the pinned public key")
    return bytes

/-- The writer that a receipt of a call names, before its sources are read. -/
def effectiveWriter (call : Call) (kind : String) : Py (String × Authority) := do
  let bound ← boundWriter call.guards call.caller
  match call.caller.delegation with
  | none => return bound
  | some delegation =>
    if kind = "journal" then return bound else beforeWrite call.guards call.caller delegation

/-- A record that has a receipt keeps its kind and does not gain authority. -/
def ownAuthority (kind : String) (authority : Authority) (before : Option Row) : Py Authority :=
  match before with
  | none => .ok authority
  | some row => do
    Py.require ((← recordClass (recordOf row)) = kind)
      (.valueError "origin record id is already bound to a different record kind")
    return authority.least (← readAuthority row)

/-- The scopes of a record that is not one of a journal. -/
def checkScopes (kind : String) (record : Row) (inherited : List (Option Row)) : Py Unit :=
  if kind = "journal" then .ok ()
  else checkSourceScopes record ((inherited.filterMap fun row ↦ row).map recordOf)

/-- The authority of a receipt, from the rows that the call reads. -/
def receiptAuthority (call : Call) (kind : String) (authority : Authority) (id : Key)
    (prior : List (Key × Row)) : Py Authority := do
  let authority ← ownAuthority kind authority (latest prior id)
  let inherited := call.sources.map fun source ↦ latest prior (.text source)
  checkScopes kind call.record inherited
  inheritedAuthority authority inherited

/-- The checks of a record by other modules. -/
def checkRecord (call : Call) (kind : String) : Py Unit := do
  (if kind = "journal" then .ok () else call.guards.assertWrite)
  (if truthy (idOf call.record) then call.guards.assertMutable else .ok ())

/-- `bind` up to its row in the ledger, with the store after it. -/
def bind (runtime : Runtime) (store : Store) (call : Call) : Py (Store × Row) := do
  let kind ← recordClass call.record
  checkRecord call kind
  let (principal, authority) ← effectiveWriter call kind
  let signing := if store.signing.algorithm = .hmacSha256 then
      createKey store.signing ⟨principal, authority, call.entropy, call.length_entropy⟩
    else store.signing
  let _ ← signingKey runtime signing
  let id ← hashKey (idOf call.record)
  let prior ← readPrior runtime signing (id :: call.sources.map .text) (store.entries.map Entry.row)
  let authority ← receiptAuthority call kind authority id prior
  let signed ← bindWith runtime signing ⟨principal, authority, call.entropy, call.length_entropy⟩ call.record
  return (⟨signing, store.entries ++ [⟨signed, call.record, call.sources, call.caller⟩]⟩, signed)

def step (runtime : Runtime) (store : Store) (call : Call) : Py Store := do
  return (← bind runtime store call).1

end UniMem.MemoryAuthority
