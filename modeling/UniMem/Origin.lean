import UniMem.Python
import UniMem.Runtime

/-!
# Origin-bound receipts

`bind` signs a record for a principal and `verify` checks a receipt against the principal it
names. A receipt is a JSON object, so `verify` reads every field from whatever value the receipt
holds there.
-/

namespace UniMem.Origin

open Library

/-- The signing algorithms. -/
inductive Algorithm where
  | hmacSha256
  | ed25519
  deriving DecidableEq, Repr

/-- The text of an algorithm in a receipt. -/
def Algorithm.name : Algorithm → String
  | hmacSha256 => "hmac-sha256"
  | ed25519 => "ed25519"

/-- `Principal` as `bind` takes it. -/
structure Principal where
  id : String
  organization : String
  authority : String
  key : Bytes
  algorithm : Algorithm

/-- The fields that a signature covers. -/
def body (runtime : Runtime) (record : Json) (principal : Principal) : List (String × Json) :=
  [("record", record), ("principal", .str principal.id),
    ("organization", .str principal.organization), ("authority", .str principal.authority),
    ("digest", .str (runtime.sha256 (canonicalBytes record)))] ++
  match principal.algorithm with
  | .ed25519 => [("algorithm", .str "ed25519")]
  | .hmacSha256 => []

/-- The signature of a principal on a message. -/
def signature (runtime : Runtime) (principal : Principal) (message : Bytes) : String :=
  match principal.algorithm with
  | .ed25519 => runtime.ed25519Sign principal.key message
  | .hmacSha256 => runtime.hmacSha256 principal.key message

/-- `bind` on a detached record. -/
def bind (runtime : Runtime) (record : Json) (principal : Principal) :
    Py (List (String × Json)) :=
  if principal.key.length < 32 then
    .error (.valueError "origin signing key must be at least 32 bytes")
  else
    .ok (body runtime record principal ++ [("signature",
        .str (signature runtime principal (canonicalBytes (.obj (body runtime record principal)))))])

variable {runtime : Runtime} {record : Json} {principal : Principal} {fields : List (String × Json)}

theorem bind_eq_ok_iff :
    bind runtime record principal = .ok fields ↔ 32 ≤ principal.key.length ∧ fields = body runtime record principal ++
        [("signature", .str (signature runtime principal
          (canonicalBytes (.obj (body runtime record principal)))))] := by
  unfold bind
  split_ifs with hshort
  · exact iff_of_false (by simp) fun h ↦ absurd h.1 (not_le.mpr hshort)
  · rw [Except.ok.injEq, eq_comm]
    exact (and_iff_right (not_lt.mp hshort)).symm

/-- What `verify` knows of the principal that a receipt names. -/
structure Verifier where
  organization : String
  authority : String
  algorithm : Algorithm
  /-- The shared key, or the public key of `ed25519`. -/
  key : Bytes

/-- `str(value)` where it can be the text of a digest. -/
def scalarText : Json → Option String
  | .null => some "None"
  | .bool true => some "True"
  | .bool false => some "False"
  | .int value => some (toString value)
  | .float value => some value.text
  | .str value => some value
  | .arr _ => none
  | .obj _ => none

/-- Whether the signature of a receipt is one of `message`. -/
def signatureValid (runtime : Runtime) (verifier : Verifier) (given : Json) (message : Bytes) :
    Bool :=
  match verifier.algorithm with
  | .ed25519 =>
    match given with
    | .str text => runtime.ed25519Verify verifier.key text message
    | _ => false
  | .hmacSha256 => scalarText given = some (runtime.hmacSha256 verifier.key message)

/-- The text that a value is, if it is one. -/
def isText (value : Option Json) (expected : String) : Bool :=
  match value with
  | some (.str text) => text = expected
  | _ => false

theorem isText_iff {value : Option Json} {expected : String} :
    isText value expected = true ↔ value = some (.str expected) := by
  unfold isText
  cases value with
  | none => simp
  | some value => cases value <;> simp

/-- The fields of a receipt without its signature. -/
def unsigned (receipt : List (String × Json)) : List (String × Json) :=
  receipt.filter fun field ↦ field.1 ≠ "signature"

/-- `verify` where the configured principals are the one that the receipt names. -/
def verify (runtime : Runtime) (receipt : List (String × Json)) (verifier : Verifier) : Bool :=
  (receipt.lookup "principal").isSome &&
  (match receipt.lookup "algorithm" with
    | none => verifier.algorithm = .hmacSha256
    | some (.str text) => text = verifier.algorithm.name
    | some _ => false) &&
  (match receipt.lookup "signature" with
    | none => false
    | some given =>
      signatureValid runtime verifier given (canonicalBytes (.obj (unsigned receipt)))) &&
  isText (receipt.lookup "organization") verifier.organization &&
  isText (receipt.lookup "authority") verifier.authority &&
  (match receipt.lookup "record" with
    | none => false
    | some record =>
      isText (receipt.lookup "digest") (runtime.sha256 (canonicalBytes record)))

/-- The verifier that accepts what a principal signs. -/
def Principal.verifier (runtime : Runtime) (principal : Principal) : Verifier where
  organization := principal.organization
  authority := principal.authority
  algorithm := principal.algorithm
  key :=
    match principal.algorithm with
    | .ed25519 => runtime.ed25519PublicBytes principal.key
    | .hmacSha256 => principal.key

theorem unsigned_body_append (runtime : Runtime) (record : Json) (principal : Principal) (text : Json) :
    unsigned (body runtime record principal ++ [("signature", text)]) = body runtime record principal := by
  obtain ⟨id, organization, authority, key, algorithm⟩ := principal
  cases algorithm <;> rfl

theorem signatureValid_signature (hed : runtime.Ed25519Correct) (principal : Principal) (message : Bytes) :
    signatureValid runtime (principal.verifier runtime)
      (.str (signature runtime principal message)) message = true := by
  obtain ⟨id, organization, authority, key, algorithm⟩ := principal
  cases algorithm with
  | ed25519 => exact hed key message
  | hmacSha256 => exact decide_eq_true rfl

theorem verify_bind (hed : runtime.Ed25519Correct) (h : bind runtime record principal = .ok fields) :
    verify runtime fields (principal.verifier runtime) = true := by
  obtain ⟨-, rfl⟩ := bind_eq_ok_iff.mp h
  have hvalid := signatureValid_signature hed principal
    (canonicalBytes (.obj (body runtime record principal)))
  rw [verify, unsigned_body_append]
  obtain ⟨id, organization, authority, key, algorithm⟩ := principal
  cases algorithm <;>
    simpa [body, isText, List.lookup_cons, Principal.verifier, Algorithm.name] using hvalid

end UniMem.Origin
