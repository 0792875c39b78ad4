import UniMem.FrontierProtocol.Wire
import UniMem.Library.Grouping
import UniMem.Library.Interruption
import UniMem.Library.Transitions
import UniMem.Python.Hex

/-!
# The subject vault

Each subject has a wrapping key in a file of its own. `destroy` writes a tombstone and removes the key; every
access reads the one file with the tombstones of all subjects.
-/

namespace UniMem.CertifiedErasure

open Library FrontierProtocol

/-- AES-GCM on texts. -/
structure Cipher where
  /-- `AESGCM(key).encrypt(nonce, text.encode(), aad)`. -/
  encrypt : Bytes → Bytes → String → Bytes → Bytes
  /-- `AESGCM(key).decrypt(nonce, data, aad).decode()`. -/
  decrypt : Bytes → Bytes → Bytes → Bytes → Option String

/-- Decryption inverts encryption. -/
def Cipher.Inverts (cipher : Cipher) : Prop :=
  ∀ key nonce text aad, cipher.decrypt key nonce (cipher.encrypt key nonce text aad) aad = some text

/-- A ciphertext is as long as its text and a tag. -/
def Cipher.Tagged (cipher : Cipher) : Prop :=
  ∀ key nonce text aad, (cipher.encrypt key nonce text aad).length = text.utf8ByteSize + 16

structure Environment where
  cipher : Cipher
  /-- `fp.digest({"store": self.root, "subject": subject})`. -/
  digest : String → String

/-- A row of `destroyed.jsonl`. -/
structure Tombstone where
  reference : String
  destroyedAt : String
  deriving DecidableEq

def Tombstone.row (tombstone : Tombstone) : Json :=
  .obj [("reference", .str tombstone.reference), ("destroyed_at", .str tombstone.destroyedAt),
    ("kind", .str "filesystem-vault-key-destruction")]

/-- The bytes of a line. -/
def Tombstone.size (tombstone : Tombstone) : ℕ := (dumps tombstone.row).length + 1

/-- What `seal` returns. Ciphertexts and nonces are hexadecimal texts. -/
structure Envelope where
  schema : String
  reference : String
  recordId : String
  ciphertext : String
  nonce : String
  wrappedKey : String
  wrapNonce : String
  outerWrapped : Bool

def Envelope.json (envelope : Envelope) : Json :=
  .obj [("schema", .str envelope.schema), ("reference", .str envelope.reference),
    ("record_id", .str envelope.recordId), ("ciphertext", .str envelope.ciphertext),
    ("nonce", .str envelope.nonce), ("wrapped_key", .str envelope.wrappedKey),
    ("wrap_nonce", .str envelope.wrapNonce), ("outer_wrapped", .bool envelope.outerWrapped)]

/-- An outer key wrapper with its inverse. -/
structure Wrapper where
  wrap : String → String
  unwrap : String → String
  unwrap_wrap : ∀ text, unwrap (wrap text) = text

/-- An envelope with what it seals. -/
structure Sealed where
  subject : String
  plaintext : String
  wrapper : Option Wrapper
  envelope : Envelope

/-- The files of a vault, the envelopes it has sealed and the subjects it has destroyed. -/
structure Vault where
  tombstones : List Tombstone
  /-- The key files, by reference. -/
  keys : List (String × Bytes)
  envelopes : List Sealed
  destroyed : List String

def Vault.empty : Vault := ⟨[], [], [], []⟩

/-- The loop of `fp.rows` over the lines of the tombstones. -/
def readLoop : List Tombstone → ℕ → ℕ → Py Unit
  | [], _, _ => .ok ()
  | row :: rows, total, seen =>
    if 64 * maxBytes < total + row.size then .error (.valueError "journal exceeds 64 MiB; rotate it")
    else if maxRows ≤ seen ∨ maxBytes + 1 < row.size then
      .error (.valueError "journal is truncated or exceeds its size limit; rotate it")
    else readLoop rows (total + row.size) (seen + 1)

/-- `fp.rows(self.tombstones)`. -/
def readTombstones (vault : Vault) : Py (List Tombstone) := do
  readLoop vault.tombstones 0 0
  return vault.tombstones

/-- `SubjectVault.reference`. -/
def Environment.reference (environment : Environment) (subject : String) : Py String := do
  let subject ← text subject "subject" 1024
  return environment.digest subject

/-- A key file after `_key`: a new one when there is none and one may be created. -/
def createKey (keys : List (String × Bytes)) (reference : String) (fresh : Option Bytes) :
    List (String × Bytes) :=
  match keys.lookup reference, fresh with
  | none, some key => assign reference key keys
  | _, _ => keys

/-- `SubjectVault._key`, with the key files after it. -/
def vaultKey (environment : Environment) (vault : Vault) (subject : String) (fresh : Option Bytes) :
    Py (Bytes × List (String × Bytes)) := do
  let reference ← environment.reference subject
  let tombstones ← readTombstones vault
  Py.require (tombstones.all (·.reference ≠ reference)) (.permissionError "subject key was destroyed")
  let keys := createKey vault.keys reference fresh
  match keys.lookup reference with
  | none => throw (.permissionError "subject wrapping key is unavailable")
  | some key =>
    Py.require (key.length = 32) (.valueError "invalid subject wrapping key")
    return (key, keys)

/-- What `secrets` returns in one call of `seal`. -/
structure Randomness where
  key : Bytes
  dek : Bytes
  nonce : Bytes
  wrapNonce : Bytes
  key_length : key.length = 32
  dek_length : dek.length = 32
  nonce_length : nonce.length = 12
  wrapNonce_length : wrapNonce.length = 12

/-- `fp.wire({"reference": reference, "record_id": record_id})`. -/
def additional (reference recordId : String) : Py Bytes :=
  wire (.obj [("reference", .str reference), ("record_id", .str recordId)])

/-- The data key as it is wrapped. -/
def encodedKey (wrapper : Option Wrapper) (dek : Bytes) : String :=
  wrapper.elim (hexText dek) fun wrapper ↦ wrapper.wrap (hexText dek)

/-- The envelope of a text. -/
def envelope (cipher : Cipher) (key : Bytes) (reference recordId plaintext : String) (aad : Bytes)
    (wrapper : Option Wrapper) (random : Randomness) : Envelope where
  schema := "subject-envelope-v1"
  reference := reference
  recordId := recordId
  ciphertext := hexText (cipher.encrypt random.dek random.nonce plaintext aad)
  nonce := hexText random.nonce
  wrappedKey := hexText (cipher.encrypt key random.wrapNonce (encodedKey wrapper random.dek) aad)
  wrapNonce := hexText random.wrapNonce
  outerWrapped := wrapper.isSome

/-- `SubjectVault.seal`, with the vault after it. -/
def sealEnvelope (environment : Environment) (vault : Vault) (subject recordId plaintext : String)
    (wrapper : Option Wrapper) (random : Randomness) : Py (Vault × Envelope) := do
  let _ ← text recordId "identifier" 512
  let _ ← text plaintext "subject content" 64_000
  let (key, keys) ← vaultKey environment vault subject (some random.key)
  let reference ← environment.reference subject
  let aad ← additional reference recordId
  let result := envelope environment.cipher key reference recordId plaintext aad wrapper random
  return ({ vault with
    keys := keys
    envelopes := vault.envelopes ++ [⟨subject, plaintext, wrapper, result⟩] }, result)

/-- The text of an envelope under a wrapping key. -/
def plaintextOf (cipher : Cipher) (key aad : Bytes) (envelope : Envelope) (unwrapper : Option (String → String)) :
    Option String := do
  let encoded ← cipher.decrypt key (← fromHex envelope.wrapNonce) (← fromHex envelope.wrappedKey) aad
  let encoded ← if envelope.outerWrapped then unwrapper.map (· encoded) else some encoded
  cipher.decrypt (← fromHex encoded) (← fromHex envelope.nonce) (← fromHex envelope.ciphertext) aad

/-- `SubjectVault.open`. -/
def openEnvelope (environment : Environment) (vault : Vault) (subject : String) (envelope : Envelope)
    (unwrapper : Option (String → String)) : Py String := do
  let _ ← wire envelope.json
  Py.require (envelope.schema = "subject-envelope-v1") (.permissionError "subject envelope reference mismatch")
  let reference ← environment.reference subject
  Py.require (envelope.reference = reference) (.permissionError "subject envelope reference mismatch")
  let (key, _) ← vaultKey environment vault subject none
  let aad ← additional envelope.reference envelope.recordId
  match plaintextOf environment.cipher key aad envelope unwrapper with
  | none => throw (.valueError "subject envelope authentication failed")
  | some plaintext => return plaintext

/-- The steps of `destroy`. -/
inductive Effect where
  /-- `_jsonl.append_row(self.tombstones, tombstone)`. -/
  | append (subject : String) (tombstone : Tombstone)
  /-- `os.unlink(path)`. -/
  | unlink (reference : String)

def apply (vault : Vault) : Effect → Vault
  | .append subject tombstone => { vault with
      tombstones := vault.tombstones ++ [tombstone]
      destroyed := vault.destroyed ++ [subject] }
  | .unlink reference => { vault with keys := vault.keys.filter (·.1 ≠ reference) }

/-- The tombstone that `destroy` returns and its steps. -/
def destroyPlan (environment : Environment) (vault : Vault) (subject now : String) :
    Py (Tombstone × List Effect) := do
  let reference ← environment.reference subject
  let tombstones ← readTombstones vault
  match tombstones.find? (·.reference = reference) with
  | some prior => return (prior, [.unlink reference])
  | none =>
    Py.require (vault.keys.lookup reference).isSome
      (.valueError "cannot attest destruction of an unknown subject key")
    let tombstone : Tombstone := ⟨reference, now⟩
    return (tombstone, [.append subject tombstone, .unlink reference])

/-- `SubjectVault.destroy`, with the vault after it. -/
def destroy (environment : Environment) (vault : Vault) (subject now : String) : Py (Vault × Tombstone) := do
  let (tombstone, plan) ← destroyPlan environment vault subject now
  return (execute apply vault plan, tombstone)

inductive Action where
  | sealEnvelope (subject recordId plaintext : String) (wrapper : Option Wrapper) (random : Randomness)
  | openEnvelope (subject : String) (envelope : Envelope) (unwrapper : Option (String → String))
  /-- A call of `destroy` that ends after some of its steps. -/
  | destroy (subject now : String) (steps : ℕ)

def step (environment : Environment) (vault : Vault) : Action → Py Vault
  | .sealEnvelope subject recordId plaintext wrapper random => do
    return (← CertifiedErasure.sealEnvelope environment vault subject recordId plaintext wrapper random).1
  | .openEnvelope subject envelope unwrapper => do
    let _ ← CertifiedErasure.openEnvelope environment vault subject envelope unwrapper
    return vault
  | .destroy subject now steps => do
    let (_, plan) ← destroyPlan environment vault subject now
    return interrupt apply vault plan steps

end UniMem.CertifiedErasure
