import UniMem.Capabilities.Token
import UniMem.Library.DepthSearch
import UniMem.Lineage.Attestations

/-!
# Revocation quarantine

After a revocation the targets that were written under a revoked chain and under no other accepted one are blocked,
with what was derived from them. The answer is kept for five minutes at most.
-/

namespace UniMem.CapabilityIo

open Library FrontierProtocol Capabilities

/-- The registration of an agent, with the key that its file or its pin holds. -/
structure Registration where
  algorithm : String
  clearance : List String
  key : Py Bytes
  commitment : String

/-- The pin of an external issuer. -/
structure IssuerPin where
  algorithm : String
  publicKey : Py Bytes
  caveats : Json

/-- `capabilities.json` with the root key and the tenant of a store. -/
structure Config where
  agents : List (String × Registration)
  issuers : List (String × IssuerPin)
  rootKey : Py Bytes
  tenant : String

variable (crypto : Crypto) (calendar : Calendar)

/-- `_verification_key`. -/
def verificationKey (config : Config) (identity : String) : Py (Registration × Bytes) :=
  match config.agents.lookup identity with
  | none => .error (.permissionError "UniMem unknown pinned agent key")
  | some registration => do
    let key ← registration.key
    Py.require (crypto.sha256 key = registration.commitment)
      (.permissionError "UniMem holder key differs from its immutable registration")
    return (registration, key)

/-- What `check` takes from the pin of an issuer. -/
structure Trust where
  issuer : String
  algorithm : String
  key : Bytes
  maximum : Option Json

/-- The pin of the issuer that a chain names. -/
def trustOf (config : Config) (issuer : Option Json) : Py Trust :=
  match issuer with
  | some (.str name) =>
    if name = "local" then do
      return ⟨name, "hmac-sha256", ← config.rootKey, none⟩
    else
      match config.issuers.lookup name with
      | none => .error (.permissionError "UniMem external issuer has no trusted pin")
      | some pin => do return ⟨name, pin.algorithm, ← pin.publicKey, some pin.caveats⟩
  | some (.arr _) => .error (.typeError "unhashable type: 'list'")
  | some (.obj _) => .error (.typeError "unhashable type: 'dict'")
  | _ => .error (.permissionError "UniMem external issuer has no trusted pin")

/-- `holder`. -/
def holderKey (config : Config) (algorithm identity : String) : Py Bytes := do
  let (registration, key) ← verificationKey crypto config identity
  Py.require (registration.algorithm = algorithm)
    (.permissionError "UniMem holder algorithm differs from this chain's issuer")
  return key

/-- `tenant_id or tenant(root)`. -/
def effectiveTenant (config : Config) (tenantId : String) : String :=
  if tenantId = "" then config.tenant else tenantId

def pinsOf (config : Config) (trust : Trust) (tenantId : String) : Pins where
  issuer := trust.issuer
  tenant := effectiveTenant config tenantId
  algorithm := trust.algorithm
  key := trust.key
  holderKey := holderKey crypto config trust.algorithm

/-- The first link within the limits of an external issuer. -/
def checkMaximum (maximum : Option Json) (root : Link) : Py Unit :=
  match maximum with
  | none => .ok ()
  | some caveats => do subset calendar caveats (← field root.record "caveats")

/-- The labels of a link within the clearance of its audience; a verified link has those of its policy. -/
def checkClearance (config : Config) (algorithm : String) (node : Link) : Py Unit := do
  let rules ← policy calendar (← field node.record "caveats")
  let (registration, _) ← verificationKey crypto config rules.audience
  Py.require (registration.algorithm = algorithm && (rules.sets .labels).all (· ∈ registration.clearance))
    (.permissionError "UniMem capability exceeds the holder's pinned clearance")

/-- `links[0]`. -/
def firstLink (links : List Link) : Py Link :=
  match links with
  | [] => .error (.indexError "list index out of range")
  | root :: _ => .ok root

/-- `check`. -/
def check (config : Config) (token : Json) (tenantId now : String) (revoked : List String) : Py Verified := do
  let chain ← readToken token
  let root ← firstLink chain.links
  let trust ← trustOf config (root.record.lookup "issuer")
  let verified ← verify crypto calendar (pinsOf crypto config trust tenantId) token now revoked
  checkMaximum calendar trust.maximum root
  chain.links.forM (checkClearance crypto calendar config trust.algorithm)
  return verified

/-- A row of `capability-writes`. -/
structure WriteRow where
  target : String
  contentHash : String
  chain : Json
  chainIds : List String

/-- What the quarantine is computed from. -/
structure Input where
  config : Config
  /-- `revocations(root)`. -/
  revoked : List String
  /-- `lineage.records(root)`. -/
  objects : List (String × Lineage.Statement)
  writes : List WriteRow
  /-- The sources and the targets of `capability-impacts`. -/
  impacts : List (String × String)

/-- `set(row["chain_ids"]) & revoked`. -/
def WriteRow.touched (row : WriteRow) (revoked : List String) : Bool := row.chainIds.any (· ∈ revoked)

/-- Whether a row is about the current content of its target. -/
def WriteRow.current (row : WriteRow) (objects : List (String × Lineage.Statement)) : Bool :=
  (objects.lookup row.target).any fun statement ↦ row.contentHash = statement.contentHash

/-- `chain["links"][0]["record"]["tenant"]`. -/
def chainTenant (chain : Json) : Py String :=
  match chain.get? "links" with
  | some (.arr (first :: _)) =>
    match (first.get? "record").bind fun record ↦ record.get? "tenant" with
    | some (.str tenant) => .ok tenant
    | _ => .error (.keyError "tenant")
  | _ => .error (.keyError "links")

/-- The time at which an accepted chain expires. -/
def accepts (input : Input) (now : String) (row : WriteRow) : Py ℤ := do
  let verified ← check crypto calendar input.config row.chain (← chainTenant row.chain) now input.revoked
  instant calendar (.str verified.caveats.expiresAt)

/-- Whether an exception is one that the loop over the rows catches. -/
def caught : PyError → Bool
  | .permissionError _ => true
  | .valueError _ => true
  | .staleGeneration _ => true
  | _ => false

/-- The first row of a target that was written under an accepted chain. -/
def findAlternate (input : Input) (now : String) : List WriteRow → Py (Option ℤ)
  | [] => .ok none
  | row :: rows =>
    if row.touched input.revoked then findAlternate input now rows
    else
      match accepts crypto calendar input now row with
      | .ok expiry => .ok (some expiry)
      | .error error => if caught error then findAlternate input now rows else .error error

/-- What the rows of a target decide. -/
inductive Verdict where
  | untouched
  | alternate (expiry : ℤ)
  | blocked

def judge (input : Input) (now : String) (rows : List WriteRow) : Py Verdict :=
  if rows.any (·.touched input.revoked) then do
    return (← findAlternate crypto calendar input now rows).elim .blocked .alternate
  else .ok .untouched

def Verdict.blocks : Verdict → Bool
  | blocked => true
  | _ => false

def Verdict.expiry? : Verdict → Option ℤ
  | alternate expiry => some expiry
  | _ => none

/-- The targets of the current rows with their verdicts. -/
def verdicts (input : Input) (now : String) : Py (List (String × Verdict)) :=
  Py.collect (Py.always fun entry ↦ do return (entry.1, ← judge crypto calendar input now entry.2))
    (group WriteRow.target (input.writes.filter fun row ↦ row.current input.objects))

/-- `blocked` before the search. -/
def seedsOf (judged : List (String × Verdict)) : List String :=
  (judged.filter fun entry ↦ entry.2.blocks).map Prod.fst

/-- The edges of `children`. -/
def edges (input : Input) : List (String × String) :=
  (input.objects.flatMap fun entry ↦ entry.2.inputs.map fun parent ↦ (parent.1, entry.1)) ++ input.impacts

/-- `children.get(identity, set())`. -/
def children (input : Input) (identity : String) : List String :=
  (((group Prod.fst (edges input)).lookup identity).getD []).map Prod.snd

/-- An answer with the time until which it may be returned. -/
structure Snapshot where
  deadline : ℤ
  blocked : List String
  deriving DecidableEq

/-- `timedelta(minutes=5)`. -/
def fiveMinutes : ℤ := 5 * 60 * 1_000_000

/-- The input that is read: without revocations no journal is. -/
def Input.read (input : Input) : Input :=
  if input.revoked = [] then { input with objects := [], writes := [], impacts := [] } else input

/-- The body of `_quarantine_snapshot`, with the order in which sets are iterated. -/
def compute (arrange : List String → List String) (input : Input) (now : String) : Py Snapshot := do
  let stamp ← instant calendar (.str now)
  let _ ← count input.read.objects.length 0 10_000 "UniMem scoped lineage namespace"
  let latest ← representable (stamp + fiveMinutes)
  let judged ← verdicts crypto calendar input.read now
  let deadline := (judged.filterMap fun entry ↦ entry.2.expiry?).foldl min latest
  match explore (children input.read) arrange 2_000 16 (seedsOf judged) with
  | .ok blocked => return ⟨deadline, blocked⟩
  | .error .deep => throw (.valueError "UniMem delegation dependency depth exceeds scoped bound")
  | .error _ => throw (.valueError "UniMem delegated quarantine namespace must be an integer in [0, 2000]")

/-- `_quarantine_snapshot`, with the answer that was kept. An epoch is the tuple of the stamps of the files. -/
def quarantineSnapshot {ε : Type} [DecidableEq ε] (epoch : Input → ε) (arrange : List String → List String)
    (kept : Option (ε × Snapshot)) (input : Input) (now : String) : Py Snapshot := do
  let stamp ← instant calendar (.str now)
  match kept with
  | some (stored, snapshot) =>
    if stamp < snapshot.deadline ∧ stored = epoch input then return snapshot
    else compute crypto calendar arrange input now
  | none => compute crypto calendar arrange input now

end UniMem.CapabilityIo
