import UniMem.Capabilities.Policy
import UniMem.MeshCrdt.Operation

/-!
# Capability chains

`grant` signs the first link of a chain, `attenuate` adds a link with narrower caveats and `verify` checks every
link against the one before it. Signatures and MACs are given by a `Crypto`.
-/

namespace UniMem.Capabilities

open Library FrontierProtocol MeshCrdt

/-- Ed25519 on raw signatures, besides the functions of a `Runtime`. -/
structure Crypto extends Runtime where
  /-- `Ed25519PrivateKey.from_private_bytes(key).sign(data)`. -/
  ed25519RawSign : Bytes → Bytes → Bytes
  /-- Whether `Ed25519PublicKey.from_public_bytes(key).verify(signature, data)` returns. -/
  ed25519RawVerify : Bytes → Bytes → Bytes → Bool

/-- Signatures that the schemes made are accepted and have the sizes of the schemes. -/
structure Crypto.Correct (crypto : Crypto) : Prop where
  hmac_hex : ∀ key data, ∃ raw : Bytes, raw.length = 32 ∧ crypto.hmacSha256 key data = hex raw
  public_length : ∀ key : Bytes, key.length = 32 → (crypto.ed25519PublicBytes key).length = 32
  ed25519_verify : ∀ key data, crypto.ed25519RawVerify (crypto.ed25519PublicBytes key)
    (crypto.ed25519RawSign key data) data = true

/-- `ALGORITHMS`. -/
def algorithms : List String := ["hmac-sha256", "ed25519"]

variable (crypto : Crypto) (calendar : Calendar)

/-- `_bytes`. -/
def message (domain : String) (record : List (String × Json)) : Py Bytes := do
  return Json.utf8 domain ++ 0 :: (← wire (.obj record))

/-- `_sign`. -/
def sign (algorithm : String) (key data : Bytes) : Py String := do
  Py.require (algorithm ∈ algorithms ∧ key.length = 32)
    (.valueError "UniMem capability signing requires a pinned algorithm and 32-byte key")
  return if algorithm = "hmac-sha256" then crypto.hmacSha256 key data
    else hex (crypto.ed25519RawSign key data)

def signatureRejected : PyError := .permissionError "UniMem capability signature rejected"

/-- `hmac.compare_digest` on texts. -/
def compareDigest (first second : String) : Py Bool :=
  if (first.toList ++ second.toList).all (·.toNat < 128) then .ok (first = second)
  else .error (.typeError "comparing strings with non-ASCII characters is not supported")

/-- `_verify`. -/
def verifySignature (algorithm : String) (key data : Bytes) (signature : Json) : Py Unit :=
  match signature with
  | .str signature => do
    Py.require (algorithm ∈ algorithms ∧ key.length = 32)
      (.permissionError "UniMem invalid pinned verification key or algorithm")
    if algorithm = "hmac-sha256" then
      Py.require (signature.length = 64) signatureRejected
      let expected ← sign crypto algorithm key data
      Py.require (← compareDigest expected signature) signatureRejected
    else
      match MeshCrdt.fromHex signature.toList with
      | none => .error signatureRejected
      | some raw => Py.require (crypto.ed25519RawVerify key raw data) signatureRejected
  | _ => .error (.permissionError "UniMem invalid pinned verification key or algorithm")

/-- A link of a chain, with the node that it was read from. -/
structure Link where
  node : Json
  record : List (String × Json)
  signature : Json
  authorization : Json

/-- A node of a chain. -/
def readLink (node : Json) : Py Link :=
  match node with
  | .obj fields => do
    Py.require (keysAre fields ["record", "signature", "authorization"])
      (.valueError "UniMem invalid capability chain node")
    match ← field fields "record" with
    | .obj record =>
      return ⟨node, record, ← field fields "signature", ← field fields "authorization"⟩
    | _ => .error (.valueError "UniMem invalid capability node record")
  | _ => .error (.valueError "UniMem invalid capability chain node")

/-- `len(fp.wire(dict(token))) > 65536`. -/
def maxToken : ℕ := 65536

/-- A token that passed `_token`: its algorithm and its links. -/
structure Token where
  algorithm : String
  links : List Link

/-- `_token`. -/
def readToken (token : Json) : Py Token :=
  match token with
  | .obj fields => do
    Py.require (keysAre fields ["version", "algorithm", "links"])
      (.valueError "UniMem invalid capability envelope")
    let version ← field fields "version"
    let algorithm ← field fields "algorithm"
    match version, algorithm with
    | .int 1, .str algorithm =>
      Py.require (algorithm ∈ algorithms)
        (.valueError "UniMem unsupported capability version or algorithm")
      match ← field fields "links" with
      | .arr nodes =>
        Py.require (1 ≤ nodes.length ∧ nodes.length ≤ 16)
          (.valueError "UniMem capability exceeds its chain bounds")
        let encoded ← wire (.obj fields)
        Py.require (encoded.length ≤ maxToken)
          (.valueError "UniMem capability exceeds its chain bounds")
        return ⟨algorithm, ← Py.collect (Py.always readLink) nodes⟩
      | _ => .error (.valueError "UniMem capability exceeds its chain bounds")
    | .int 1, .arr _ => .error (.typeError "unhashable type: 'list'")
    | .int 1, .obj _ => .error (.typeError "unhashable type: 'dict'")
    | _, _ => .error (.valueError "UniMem unsupported capability version or algorithm")
  | _ => .error (.valueError "UniMem invalid capability envelope")

/-- The dictionary of a token. -/
def envelope (algorithm : String) (nodes : List Json) : Json :=
  .obj [("version", .int 1), ("algorithm", .str algorithm), ("links", .arr nodes)]

/-- The node of a link. -/
def nodeOf (record : List (String × Json)) (signature authorization : String) : Json :=
  .obj [("record", .obj record), ("signature", .str signature), ("authorization", .str authorization)]

/-- `timedelta(days=7)`. -/
def week : ℤ := 7 * 86_400 * 1_000_000

/-- `issued < expires <= issued + timedelta(days=7)`. -/
def lifetimeValid (issued expires : ℤ) : Py Bool :=
  if issued < expires then do
    return expires ≤ (← representable (issued + week))
  else return false

/-- The record of a first link. -/
def rootRecord (issuer tenant nonce issuedAt : String) (caveats : Policy) : List (String × Json) :=
  [("type", .str "unimem.capability.root.v1"), ("issuer", .str issuer), ("tenant", .str tenant),
    ("nonce", .str nonce), ("issued_at", .str issuedAt), ("caveats", caveats.toJson)]

/-- The record of a link after the first. -/
def childRecord (parent : String) (caveats : Policy) : List (String × Json) :=
  [("type", .str "unimem.capability.child.v1"), ("parent", .str parent), ("caveats", caveats.toJson)]

/-- `grant`. -/
def grant (caveats : Json) (issuer tenant nonce now algorithm : String) (key : Bytes) : Py Json := do
  let caveats ← policy calendar caveats
  let issued ← instant calendar (.str now)
  let expires ← instant calendar (.str caveats.expiresAt)
  Py.require (← lifetimeValid issued expires)
    (.valueError "UniMem root capability lifetime must be positive and at most seven days")
  let issuer ← label (.str issuer)
  let tenant ← label (.str tenant)
  let nonce ← label (.str nonce)
  let record := rootRecord issuer tenant nonce (calendar.isoformat issued) caveats
  let data ← message "unimem.capability.root.v1" record
  let signature ← sign crypto algorithm key data
  return envelope algorithm [nodeOf record signature ""]

/-- `bytes.fromhex` on a value that may not be a text. -/
def fromHexArgument (value : Json) : Py Bytes :=
  match value with
  | .str text =>
    match MeshCrdt.fromHex text.toList with
    | some bytes => .ok bytes
    | none => .error (.valueError "non-hexadecimal number found in fromhex() arg")
  | _ => .error (.typeError "fromhex() argument must be str")

/-- `links[-1]`. -/
def lastLink (links : List Link) : Py Link :=
  match links.getLast? with
  | some link => .ok link
  | none => .error (.indexError "list index out of range")

/-- The signature of a link and the authorization of its parent's holder. -/
def signLink (algorithm : String) (parent : Link) (record : List (String × Json)) (key : Bytes) :
    Py (String × String) := do
  let data ← message "unimem.capability.child.v1" record
  if algorithm = "hmac-sha256" then
    let signature ← sign crypto "hmac-sha256" (← fromHexArgument parent.signature) data
    let holder ← message "unimem.capability.parent-holder.v1"
      [("record", .obj record), ("signature", .str signature)]
    return (signature, ← sign crypto "hmac-sha256" key holder)
  else return (← sign crypto "ed25519" key data, "")

/-- `{**dict(token), "links": [*links, node]}`. -/
def withLinks (token : Json) (nodes : List Json) : Json :=
  match token with
  | .obj fields => .obj (Json.setField fields "links" (.arr nodes))
  | value => value

/-- `attenuate`. -/
def attenuate (token caveats : Json) (key : Bytes) : Py Json := do
  let chain ← readToken token
  Py.require (chain.links.length < 16) (.valueError "UniMem capability chain depth exhausted")
  let caveats ← policy calendar caveats
  let parent ← lastLink chain.links
  subset calendar (← field parent.record "caveats") caveats.toJson
  let record := childRecord (← digest crypto.toRuntime token) caveats
  let (signature, authorization) ← signLink crypto chain.algorithm parent record key
  let result := withLinks token (chain.links.map Link.node ++ [nodeOf record signature authorization])
  let _ ← readToken result
  return result

/-- What a verifier is configured with. -/
structure Pins where
  issuer : String
  tenant : String
  algorithm : String
  key : Bytes
  holderKey : String → Py Bytes

/-- The checks on the first link. -/
def verifyRoot (pins : Pins) (root : Link) (now : String) : Py ℤ := do
  Py.require (keysAre root.record ["type", "issuer", "tenant", "nonce", "issued_at", "caveats"] &&
      Origin.isText (root.record.lookup "type") "unimem.capability.root.v1" &&
      Origin.isText (root.record.lookup "issuer") pins.issuer &&
      Origin.isText (root.record.lookup "tenant") pins.tenant)
    (.permissionError "UniMem capability issuer or tenant binding rejected")
  let issued ← instant calendar (← field root.record "issued_at")
  let stamp ← instant calendar (.str now)
  let rules ← policy calendar (← field root.record "caveats")
  Py.require (issued ≤ stamp)
    (.permissionError "UniMem capability issuance or lifetime rejected")
  let expires ← instant calendar (.str rules.expiresAt)
  Py.require (← lifetimeValid issued expires)
    (.permissionError "UniMem capability issuance or lifetime rejected")
  let _ ← label (← field root.record "nonce")
  Py.require (Origin.isText (some root.authorization) "")
    (.valueError "UniMem root has no parent authorization")
  let data ← message "unimem.capability.root.v1" root.record
  verifySignature crypto pins.algorithm pins.key data root.signature
  return stamp

/-- The checks of a link against its parent, the last of the links before it. -/
def verifyChild (pins : Pins) (before : List Link) (node : Link) (rules : Policy) : Py Unit := do
  Py.require (keysAre node.record ["type", "parent", "caveats"] &&
      Origin.isText (node.record.lookup "type") "unimem.capability.child.v1")
    (.valueError "UniMem invalid child record")
  let parentDigest ← digest crypto.toRuntime (envelope pins.algorithm (before.map Link.node))
  Py.require (Origin.isText (node.record.lookup "parent") parentDigest)
    (.permissionError "UniMem capability parent binding rejected")
  let parentLink ← lastLink before
  let parent ← policy calendar (← field parentLink.record "caveats")
  subset calendar parent.toJson rules.toJson
  let data ← message "unimem.capability.child.v1" node.record
  let holder ← pins.holderKey parent.audience
  if pins.algorithm = "hmac-sha256" then
    verifySignature crypto pins.algorithm (← fromHexArgument parentLink.signature) data node.signature
    let authorized ← message "unimem.capability.parent-holder.v1"
      [("record", .obj node.record), ("signature", node.signature)]
    verifySignature crypto pins.algorithm holder authorized node.authorization
  else
    Py.require (Origin.isText (some node.authorization) "")
      (.valueError "UniMem Ed25519 link has an unexpected local authorization")
    verifySignature crypto pins.algorithm holder data node.signature

/-- The first link has no parent. -/
def verifyParent (pins : Pins) (before : List Link) (node : Link) (rules : Policy) : Py Unit :=
  if before = [] then .ok () else verifyChild crypto calendar pins before node rules

/-- One turn of the loop over the links, after the links before it. -/
def verifyLink (pins : Pins) (stamp : ℤ) (revoked : List String) (before : List Link) (node : Link) :
    Py String := do
  let rules ← policy calendar (← field node.record "caveats")
  let expires ← instant calendar (.str rules.expiresAt)
  Py.require (stamp < expires) (.permissionError "UniMem capability expired")
  verifyParent crypto calendar pins before node rules
  let chainId ← digest crypto.toRuntime
    (envelope pins.algorithm ((before ++ [node]).map Link.node))
  Py.require (chainId ∉ revoked) (.permissionError "UniMem capability chain was revoked")
  return chainId

/-- The loop over the links, which collects `chain_ids`. -/
def verifyLinks (pins : Pins) (stamp : ℤ) (revoked : List String) :
    List Link → List Link → Py (List String)
  | _, [] => .ok []
  | before, node :: rest => do
    let chainId ← verifyLink crypto calendar pins stamp revoked before node
    return chainId :: (← verifyLinks pins stamp revoked (before ++ [node]) rest)

/-- What `verify` returns. -/
structure Verified where
  tenant : String
  issuer : String
  caveats : Policy
  chainIds : List String
  chainDigest : String

/-- `verify`. -/
def verify (pins : Pins) (token : Json) (now : String) (revoked : List String) : Py Verified := do
  let chain ← readToken token
  Py.require (chain.algorithm = pins.algorithm)
    (.permissionError "UniMem capability algorithm differs from issuer pin")
  match chain.links with
  | [] => .error (.indexError "list index out of range")
  | root :: _ =>
    let stamp ← verifyRoot crypto calendar pins root now
    let chainIds ← verifyLinks crypto calendar pins stamp revoked [] chain.links
    let leaf ← lastLink chain.links
    let caveats ← policy calendar (← field leaf.record "caveats")
    return ⟨pins.tenant, pins.issuer, caveats, chainIds, ← digest crypto.toRuntime token⟩

end UniMem.Capabilities
