import UniMem.Library.Json

/-!
# What the modelled modules take from the Python runtime

Hashing, signatures and the JSON parser are not part of the repository. They are functions of a
`Runtime`, and what a result needs of them is a named hypothesis of that result.
-/

namespace UniMem

open Library

/-- The functions of `hashlib`, `hmac`, `cryptography` and `json` that the modules call. -/
structure Runtime where
  /-- `hashlib.sha256(message).hexdigest()`. -/
  sha256 : Bytes → String
  /-- `hmac.new(key, message, hashlib.sha256).hexdigest()`. -/
  hmacSha256 : Bytes → Bytes → String
  /-- The raw public key of a raw private key. -/
  ed25519PublicBytes : Bytes → Bytes
  /-- The signature under a raw private key, in base64. -/
  ed25519Sign : Bytes → Bytes → String
  /-- Whether a base64 text decodes to a signature of a message under a raw public key. -/
  ed25519Verify : Bytes → String → Bytes → Bool
  /-- `json.loads` that rejects duplicate keys and constants that are not finite. -/
  jsonLoads : Bytes → Option Json
  /-- `frontmatter._retained_size`, a sum of `sys.getsizeof`. -/
  retainedSize : Json → ℕ

/-- `Ed25519PublicKey.verify` accepts what `Ed25519PrivateKey.sign` returned. -/
def Runtime.Ed25519Correct (runtime : Runtime) : Prop :=
  ∀ key message, runtime.ed25519Verify (runtime.ed25519PublicBytes key)
    (runtime.ed25519Sign key message) message = true

/-- Different messages have different digests. -/
def Runtime.CollisionFree (runtime : Runtime) : Prop :=
  ∀ first second, runtime.sha256 first = runtime.sha256 second → first = second

/-- Compact `json.dumps` with sorted keys, in UTF-8. -/
def canonicalBytes (value : Json) : Bytes := value.sortKeys.encode .compact

/-- `json.dumps(value, ensure_ascii=False)` in UTF-8. -/
def dumps (value : Json) : Bytes := value.encode .spaced

theorem canonicalBytes_congr {first second : Json} (h : first.Same second) :
    canonicalBytes first = canonicalBytes second := congrArg (Json.encode .compact) h

namespace Runtime

/-- The digests of some messages, and a text of its bytes for every other message. -/
def knownDigest (known : List (Bytes × String)) (message : Bytes) : String :=
  match known.lookup message with
  | some digest => digest
  | none => String.ofList ('x' :: message.map fun byte ↦ Char.ofNat byte.toNat)

/-- A runtime that knows some digests. -/
def hashing (known : List (Bytes × String)) : Runtime where
  sha256 := knownDigest known
  hmacSha256 := fun _ _ ↦ ""
  ed25519PublicBytes := fun key ↦ key
  ed25519Sign := fun _ _ ↦ ""
  ed25519Verify := fun _ _ _ ↦ true
  jsonLoads := fun _ ↦ none
  retainedSize := fun _ ↦ 0

theorem charOfByte_injective : Function.Injective fun byte : UInt8 ↦ Char.ofNat byte.toNat := by
  intro byte other heq
  have hnat := congrArg Char.toNat heq
  have hbyte := byte.toNat_lt
  have hother := other.toNat_lt
  rw [Char.toNat_ofNat, Char.toNat_ofNat, if_pos (Or.inl (by omega)), if_pos (Or.inl (by omega))] at hnat
  exact UInt8.toNat_inj.mp hnat

theorem collisionFree_hashing {known : List (Bytes × String)}
    (hdistinct : ∀ first ∈ known, ∀ second ∈ known, first.2 = second.2 → first.1 = second.1)
    (hhead : ∀ entry ∈ known, entry.2.toList.head? ≠ some 'x') : (hashing known).CollisionFree := by
  have htext : ∀ entry ∈ known, ∀ characters, entry.2 ≠ String.ofList ('x' :: characters) := by
    rintro entry hentry characters heq
    exact hhead entry hentry (by rw [heq, String.toList_ofList]; rfl)
  intro first second h
  change knownDigest known first = knownDigest known second at h
  unfold knownDigest at h
  cases hfirst : known.lookup first with
  | some digest =>
    cases hsecond : known.lookup second with
    | some other =>
      rw [hfirst, hsecond] at h
      exact hdistinct _ (Library.mem_of_lookup hfirst) _ (Library.mem_of_lookup hsecond) h
    | none =>
      rw [hfirst, hsecond] at h
      exact absurd h (htext _ (Library.mem_of_lookup hfirst) _)
  | none =>
    cases hsecond : known.lookup second with
    | some other =>
      rw [hfirst, hsecond] at h
      exact absurd h.symm (htext _ (Library.mem_of_lookup hsecond) _)
    | none =>
      rw [hfirst, hsecond] at h
      exact List.map_injective_iff.mpr charOfByte_injective (List.cons.inj (String.ofList_injective h)).2

end Runtime

end UniMem
