import UniMem.Origin

/-!
# The signing identity of a store

The part of `memory_authority` that signed journals rest on: the keys and the signing
configuration of a store, who writes, and the check of a receipt against the keys.
-/

namespace UniMem.MemoryAuthority

open Library Origin

/-- The keys of `TRUST`. -/
inductive Authority where
  | external
  | tool
  | agent
  | user
  | operator
  deriving DecidableEq, Repr

/-- The text of an authority in a receipt. -/
def Authority.name : Authority → String
  | external => "external"
  | tool => "tool"
  | agent => "agent"
  | user => "user"
  | operator => "operator"

/-- `authority in TRUST`. -/
def trusted (authority : String) : Bool :=
  ["external", "tool", "agent", "user", "operator"].contains authority

theorem trusted_name (authority : Authority) : trusted authority.name = true := by
  cases authority <;> rfl

/-- The contents of `origin-signing.json` and of the two key files. -/
structure Signing where
  algorithm : Algorithm
  publicKey : Option Bytes
  hmacKey : Option Bytes
  ed25519Key : Option Bytes

/-- `_key` without `create`. -/
def key (signing : Signing) (algorithm : Algorithm) : Py (Option Bytes) :=
  match (match algorithm with
    | .ed25519 => signing.ed25519Key
    | .hmacSha256 => signing.hmacKey) with
  | none => .ok none
  | some bytes =>
    if bytes.length ≠ 32 then .error (.valueError "invalid origin key") else .ok (some bytes)

/-- A value that can be the key of a dictionary. -/
def hashable : Json → Bool
  | .arr _ => false
  | .obj _ => false
  | _ => true

def unhashable : PyError := .typeError "unhashable type"

/-- The principal that `verify` builds for a receipt of an authority. -/
def verifier (signing : Signing) (receipt : List (String × Json)) (authority : String) :
    Py (Option Verifier) :=
  if isText (receipt.lookup "algorithm") "ed25519" then
    .ok (signing.publicKey.map fun bytes ↦ ⟨"local-store", authority, .ed25519, bytes⟩)
  else
    (fun found ↦ found.map fun bytes ↦ ⟨"local-store", authority, .hmacSha256, bytes⟩) <$>
      key signing .hmacSha256

/-- `verify` of a receipt alone. -/
def verify (runtime : Runtime) (signing : Signing) (receipt : List (String × Json)) : Py Bool :=
  match receipt.lookup "authority" with
  | some (.str authority) =>
    if trusted authority then do
      match ← verifier signing receipt authority with
      | none => return false
      | some principal =>
        if hashable ((receipt.lookup "principal").getD (.str "")) then
          return Origin.verify runtime receipt principal
        else .error unhashable
    else .ok false
  | some (.arr _) => .error unhashable
  | some (.obj _) => .error unhashable
  | _ => .ok false

/-- `configure_signing` pins the public key of the private key that it finds or creates. -/
def Signing.Pinned (runtime : Runtime) (signing : Signing) : Prop :=
  ∀ bytes, signing.ed25519Key = some bytes →
    signing.publicKey = some (runtime.ed25519PublicBytes bytes)

/-- Keys are created, never replaced. -/
structure Signing.Extends (later earlier : Signing) : Prop where
  hmacKey : ∀ bytes, earlier.hmacKey = some bytes → later.hmacKey = some bytes
  publicKey : ∀ bytes, earlier.publicKey = some bytes → later.publicKey = some bytes

theorem Signing.Extends.refl (signing : Signing) : signing.Extends signing :=
  ⟨fun _ h ↦ h, fun _ h ↦ h⟩

theorem Signing.Extends.trans {third second first : Signing} (h : third.Extends second)
    (h' : second.Extends first) : third.Extends first :=
  ⟨fun bytes hbytes ↦ h.hmacKey bytes (h'.hmacKey bytes hbytes),
    fun bytes hbytes ↦ h.publicKey bytes (h'.publicKey bytes hbytes)⟩

variable {later earlier signing : Signing} {receipt record row : List (String × Json)} {runtime : Runtime}

theorem verifier_of_extends (h : later.Extends earlier) {authority : String} {principal : Verifier}
    (hverifier : verifier earlier receipt authority = .ok (some principal)) :
    verifier later receipt authority = .ok (some principal) := by
  unfold verifier at hverifier ⊢
  split_ifs at hverifier ⊢ with halgorithm
  · rw [Except.ok.injEq, Option.map_eq_some_iff] at hverifier ⊢
    obtain ⟨bytes, hbytes, hprincipal⟩ := hverifier
    exact ⟨bytes, h.publicKey bytes hbytes, hprincipal⟩
  · unfold key at hverifier ⊢
    cases hkey : earlier.hmacKey with
    | none => simp [hkey] at hverifier
    | some bytes => simpa [hkey, h.hmacKey bytes hkey] using hverifier

theorem verify_of_extends (h : later.Extends earlier) (hverify : verify runtime earlier receipt = .ok true) :
    verify runtime later receipt = .ok true := by
  unfold verify at hverify ⊢
  split at hverify
  · rename_i authority hauthority
    by_cases htrusted : trusted authority
    · rw [if_pos htrusted] at hverify ⊢
      obtain ⟨found, hfound, hrest⟩ := Py.of_bind hverify
      cases found with
      | none => cases hrest
      | some principal =>
        rw [verifier_of_extends h hfound, Py.bind_ok]
        exact hrest
    · rw [if_neg htrusted] at hverify
      cases hverify
  all_goals cases hverify

/-- Who signs: the bound writer, and fresh random bytes. -/
structure Writer where
  principal : String
  authority : Authority
  entropy : Bytes
  length_entropy : entropy.length = 32

theorem length_zeros : (List.replicate 32 (0 : UInt8)).length = 32 := rfl

/-- `_key` with `create` for `hmac-sha256`. -/
def createKey (signing : Signing) (writer : Writer) : Signing :=
  match signing.hmacKey with
  | none => { signing with hmacKey := some writer.entropy }
  | some _ => signing

theorem extends_createKey (signing : Signing) (writer : Writer) :
    (createKey signing writer).Extends signing := by
  unfold createKey
  split
  · rename_i hnone
    exact ⟨fun bytes hbytes ↦ absurd (hnone.symm.trans hbytes) (by simp), fun _ h ↦ h⟩
  · exact Signing.Extends.refl signing

theorem pinned_createKey (h : signing.Pinned runtime) (writer : Writer) :
    (createKey signing writer).Pinned runtime := by
  unfold createKey
  split <;> exact h

/-- `configure_signing` by an operator, with the bytes of a new private key. -/
def configureSigning (runtime : Runtime) (signing : Signing) (algorithm : Algorithm)
    (entropy : Bytes) : Py Signing :=
  match algorithm with
  | .hmacSha256 => .ok { signing with algorithm := .hmacSha256 }
  | .ed25519 => do
    let keyed : Signing :=
      if signing.publicKey = none ∧ signing.ed25519Key = none then
        { signing with ed25519Key := some entropy }
      else signing
    match ← key keyed .ed25519 with
    | none => .error (.permissionError "configured Ed25519 private key is missing")
    | some bytes =>
      return { keyed with
        algorithm := .ed25519
        publicKey := some (runtime.ed25519PublicBytes bytes) }

theorem key_ed25519_eq_ok {bytes : Bytes} (h : key signing .ed25519 = .ok (some bytes)) :
    signing.ed25519Key = some bytes := by
  unfold key at h
  cases hkey : signing.ed25519Key with
  | none => simp [hkey] at h
  | some stored =>
    simp only [hkey] at h
    split_ifs at h
    exact congrArg some (Option.some.inj (Except.ok.inj h))

theorem configureSigning_eq_ok {configured : Signing} {algorithm : Algorithm} {entropy : Bytes}
    (hpinned : signing.Pinned runtime) (h : configureSigning runtime signing algorithm entropy = .ok configured) :
    configured.Extends signing ∧ configured.Pinned runtime := by
  cases algorithm with
  | hmacSha256 =>
    obtain rfl := Except.ok.inj h
    exact ⟨⟨fun _ h ↦ h, fun _ h ↦ h⟩, hpinned⟩
  | ed25519 =>
    obtain ⟨found, hkey, h⟩ := Py.of_bind h
    cases found with
    | none => cases h
    | some bytes =>
      obtain rfl := Except.ok.inj h
      have hstored := key_ed25519_eq_ok hkey
      split_ifs at hkey hstored ⊢ with hnew
      · refine ⟨⟨fun _ h ↦ h, fun other hother ↦ ?_⟩, fun other hother ↦ ?_⟩
        · exact absurd (hnew.1.symm.trans hother) (by simp)
        · obtain rfl := Option.some.inj (hstored.symm.trans hother)
          rfl
      · refine ⟨⟨fun _ h ↦ h, fun other hother ↦ ?_⟩, fun other hother ↦ ?_⟩
        · exact (hpinned bytes hstored).symm.trans hother
        · obtain rfl := Option.some.inj (hstored.symm.trans hother)
          rfl

/-- `origin.bind` under the identity of the store. -/
def bindWith (runtime : Runtime) (signing : Signing) (writer : Writer)
    (record : List (String × Json)) : Py (List (String × Json)) := do
  match ← key signing signing.algorithm with
  | none => .error (.permissionError "store signing key is unavailable")
  | some bytes =>
    Origin.bind runtime (.obj record)
      ⟨writer.principal, "local-store", writer.authority.name, bytes, signing.algorithm⟩

theorem verify_bindWith_of_ed25519 (hed : runtime.Ed25519Correct)
    (hpinned : signing.algorithm = .ed25519 → signing.Pinned runtime) {writer : Writer}
    (h : bindWith runtime signing writer record = .ok row) :
    verify runtime signing row = .ok true := by
  obtain ⟨found, hkey, hbind⟩ := Py.of_bind h
  cases found with
  | none => cases hbind
  | some bytes =>
    have hverify := verify_bind hed hbind
    obtain ⟨-, rfl⟩ := bind_eq_ok_iff.mp hbind
    obtain ⟨algorithm, publicKey, hmacKey, ed25519Key⟩ := signing
    unfold key at hkey
    cases algorithm with
    | ed25519 =>
      cases hed25519 : ed25519Key with
      | none => simp [hed25519] at hkey
      | some stored =>
        simp only [hed25519] at hkey
        split_ifs at hkey
        obtain rfl := Option.some.inj (Except.ok.inj hkey)
        have hpublic := hpinned rfl stored hed25519
        simp only at hpublic
        simpa [verify, verifier, body, isText, List.lookup_cons, trusted_name, hashable, hpublic,
          Principal.verifier] using hverify
    | hmacSha256 =>
      cases hhmac : hmacKey with
      | none => simp [hhmac] at hkey
      | some stored =>
        simp only [hhmac] at hkey
        split_ifs at hkey with hlength
        obtain rfl := Option.some.inj (Except.ok.inj hkey)
        simpa [verify, verifier, body, isText, List.lookup_cons, trusted_name, hashable, key,
          hlength, Principal.verifier] using hverify

theorem verify_bindWith (hed : runtime.Ed25519Correct) (hpinned : signing.Pinned runtime) {writer : Writer}
    (h : bindWith runtime signing writer record = .ok row) :
    verify runtime signing row = .ok true :=
  verify_bindWith_of_ed25519 hed (fun _ ↦ hpinned) h

end UniMem.MemoryAuthority
