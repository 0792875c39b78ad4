import UniMem.Capabilities.Token
import UniMem.Library.ReplayFence

/-!
# Nonces of possession proofs

`consume_nonce` reads the clock, checks that a proof of possession has not expired, and records its nonce after it
has deleted the nonces that had expired. So does the hub.
-/

namespace UniMem.CapabilityIo

open Library FrontierProtocol Capabilities ReplayFence

/-- The arguments of `consume_nonce`, and whether the file is linked or too large. -/
structure NonceRequest where
  identity : String
  expiresAt : String
  oversized : Bool

/-- `consume_nonce` up to its transaction, which starts with the two readings of time. -/
def checkNonce (calendar : Calendar) (now : ℤ) (request : NonceRequest) : Py (Entry String) := do
  Py.require (!request.oversized)
    (.valueError "UniMem nonce store is linked or exceeds its maintenance bound")
  let expiry ← instant calendar (.str request.expiresAt)
  Py.require (now < expiry && expiry ≤ now + 30_000_000)
    (.permissionError "UniMem request proof expired before nonce consumption")
  return ⟨request.identity, expiry⟩

/-- The transaction of `consume_nonce`. -/
def insertNonce (now : ℤ) (entry : Entry String) (nonces : List (Entry String)) : Py (List (Entry String)) := do
  let live := nonces.filter fun nonce ↦ now < nonce.expires
  Py.require (live.length < 10000) (.runtimeError "UniMem live nonce bound exceeded")
  let identity ← text entry.key "identifier" 512
  Py.require (identity ∉ live.map Entry.key)
    (.permissionError "UniMem capability request nonce was already consumed")
  return live ++ [⟨identity, entry.expires⟩]

/-- `consume_nonce` by any number of processes on one store. -/
def consumeNonce (calendar : Calendar) : Fence PyError String NonceRequest := ⟨checkNonce calendar, insertNonce⟩

/-- The primary key of `CapabilityNonce`. -/
structure CapabilityNonce where
  orgId : String
  nonceId : String
  deriving DecidableEq

/-- What `authorize` takes from a request that is authenticated. -/
structure Authorization where
  orgId : String
  nonceId : String
  requestExpiresAt : String

/-- The check of `authorize` before it deletes nonces. -/
def checkProof (calendar : Calendar) (now : ℤ) (authorization : Authorization) : Py (Entry CapabilityNonce) := do
  let expiry ← instant calendar (.str authorization.requestExpiresAt)
  Py.require (now < expiry) (.permissionError "UniMem possession proof expired before nonce consumption")
  return ⟨⟨authorization.orgId, authorization.nonceId⟩, expiry⟩

/-- The statements of `authorize`, which delete the expired nonces of one organization. -/
def insertCapabilityNonce (now : ℤ) (entry : Entry CapabilityNonce) (nonces : List (Entry CapabilityNonce)) :
    Py (List (Entry CapabilityNonce)) := do
  let live := nonces.filter fun nonce ↦ !(nonce.key.orgId = entry.key.orgId && nonce.expires ≤ now)
  Py.require (entry.key ∉ live.map Entry.key)
    (.permissionError "UniMem capability request nonce was already consumed")
  return live ++ [entry]

/-- The nonce step of `authorize` by any number of processes. -/
def authorizeNonce (calendar : Calendar) : Fence PyError CapabilityNonce Authorization :=
  ⟨checkProof calendar, insertCapabilityNonce⟩

variable {calendar : Calendar} {now : ℤ}

theorem insertNonce_eq_ok {entry : Entry String} {nonces next : List (Entry String)}
    (h : insertNonce now entry nonces = .ok next) :
    entry.key ∉ (nonces.filter fun nonce ↦ now < nonce.expires).map Entry.key ∧
      next = (nonces.filter fun nonce ↦ now < nonce.expires) ++ [entry] := by
  obtain ⟨_, h⟩ := Py.of_rest h
  obtain ⟨identity, hidentity, h⟩ := Py.of_bind h
  obtain ⟨_, hnew, h⟩ := Py.of_bind h
  obtain rfl := (text_eq_ok_iff.mp hidentity).2
  exact ⟨of_decide_eq_true (Py.require_eq_ok_iff.mp hnew), (Except.ok.inj h).symm⟩

theorem lawful_consumeNonce (calendar : Calendar) : (consumeNonce calendar).Lawful where
  fresh := by
    intro now request entry h
    obtain ⟨_, h⟩ := Py.of_rest h
    obtain ⟨expiry, -, h⟩ := Py.of_bind h
    obtain ⟨_, htime, h⟩ := Py.of_bind h
    obtain rfl := Except.ok.inj h
    rw [Py.require_eq_ok_iff, Bool.and_eq_true, decide_eq_true_eq] at htime
    exact htime.1
  keeps := by
    intro now entry nonces next h other hother hlive
    rw [(insertNonce_eq_ok h).2]
    exact List.mem_append_left _ (List.mem_filter.mpr ⟨hother, decide_eq_true hlive⟩)
  inserts := by
    intro now entry nonces next h
    rw [(insertNonce_eq_ok h).2]
    exact List.mem_append_right _ List.mem_cons_self
  rejects := by
    intro now entry nonces next h other hother hkey
    by_contra hlive
    exact (insertNonce_eq_ok h).1 (List.mem_map.mpr
      ⟨other, List.mem_filter.mpr ⟨hother, decide_eq_true (not_le.mp hlive)⟩, hkey⟩)

theorem insertCapabilityNonce_eq_ok {entry : Entry CapabilityNonce} {nonces next : List (Entry CapabilityNonce)}
    (h : insertCapabilityNonce now entry nonces = .ok next) :
    entry.key ∉ (nonces.filter fun nonce ↦ !(nonce.key.orgId = entry.key.orgId && nonce.expires ≤ now)).map
      Entry.key ∧
      next = (nonces.filter fun nonce ↦ !(nonce.key.orgId = entry.key.orgId && nonce.expires ≤ now)) ++ [entry] := by
  obtain ⟨_, hnew, h⟩ := Py.of_bind h
  exact ⟨of_decide_eq_true (Py.require_eq_ok_iff.mp hnew), (Except.ok.inj h).symm⟩

theorem lawful_authorizeNonce (calendar : Calendar) : (authorizeNonce calendar).Lawful where
  fresh := by
    intro now authorization entry h
    obtain ⟨expiry, -, h⟩ := Py.of_bind h
    obtain ⟨_, htime, h⟩ := Py.of_bind h
    obtain rfl := Except.ok.inj h
    exact of_decide_eq_true (Py.require_eq_ok_iff.mp htime)
  keeps := by
    intro now entry nonces next h other hother hlive
    rw [(insertCapabilityNonce_eq_ok h).2]
    exact List.mem_append_left _ (List.mem_filter.mpr ⟨hother, by simp [not_le.mpr hlive]⟩)
  inserts := by
    intro now entry nonces next h
    rw [(insertCapabilityNonce_eq_ok h).2]
    exact List.mem_append_right _ List.mem_cons_self
  rejects := by
    intro now entry nonces next h other hother hkey
    by_contra hlive
    exact (insertCapabilityNonce_eq_ok h).1 (List.mem_map.mpr
      ⟨other, List.mem_filter.mpr ⟨hother, by simp [hlive]⟩, hkey⟩)

/-- No proof whose transaction precedes the deletions after its expiry is accepted twice. -/
theorem proofs_are_accepted_once (calendar : Calendar) (clock : ℤ) (nonces : List (Entry String))
    (capabilityNonces : List (Entry CapabilityNonce)) :
    (∀ actions, Along (step (consumeNonce calendar)) Timely (initial clock nonces) actions →
      (run (step (consumeNonce calendar)) (initial clock nonces) actions).accepted.Nodup) ∧
    ∀ actions, Along (step (authorizeNonce calendar)) Timely (initial clock capabilityNonces) actions →
      (run (step (authorizeNonce calendar)) (initial clock capabilityNonces) actions).accepted.Nodup :=
  ⟨nodup_accepted (lawful_consumeNonce calendar) clock nonces,
    nodup_accepted (lawful_authorizeNonce calendar) clock capabilityNonces⟩

namespace Expiry

/-- Two times, twenty seconds apart. -/
def clockTimes : Calendar where
  fromIsoformat value :=
    if value = "2026-10-17T00:00:00+00:00" then some (.aware 63_927_792_000_000_000)
    else if value = "2026-10-17T00:00:20+00:00" then some (.aware 63_927_792_020_000_000)
    else none
  isoformat instant :=
    if instant = 63_927_792_000_000_000 then "2026-10-17T00:00:00+00:00"
    else "2026-10-17T00:00:20+00:00"

/-- Ten seconds before the first of them. -/
def start : ℤ := 63_927_791_990_000_000

def first : NonceRequest := ⟨"first", "2026-10-17T00:00:00+00:00", false⟩

def second : NonceRequest := ⟨"second", "2026-10-17T00:00:20+00:00", false⟩

/-- The first proof is checked twice and used, then the second one, then the first one again. -/
def actions {γ : Type} (first second : γ) : List (ReplayFence.Action γ) :=
  [.check first, .check first, .consume 0, .tick 11_000_000, .check second, .consume 1, .consume 0]

def onHub (request : NonceRequest) : Authorization := ⟨"org", request.identity, request.expiresAt⟩

end Expiry

/-- A proof checked before it expired is accepted again after its nonce was deleted. -/
theorem first_proof_is_replayed :
    ¬(run (step (consumeNonce Expiry.clockTimes)) (initial Expiry.start [])
        (Expiry.actions Expiry.first Expiry.second)).accepted.Nodup ∧
      ¬(run (step (authorizeNonce Expiry.clockTimes)) (initial Expiry.start [])
        (Expiry.actions (Expiry.onHub Expiry.first) (Expiry.onHub Expiry.second))).accepted.Nodup := by
  constructor <;> decide +kernel

/-- The same run without the last step. -/
theorem proofs_are_accepted_once_before_the_expiry :
    (run (step (consumeNonce Expiry.clockTimes)) (initial Expiry.start [])
        ((Expiry.actions Expiry.first Expiry.second).take 6)).accepted.Nodup ∧
      (run (step (authorizeNonce Expiry.clockTimes)) (initial Expiry.start [])
        ((Expiry.actions (Expiry.onHub Expiry.first) (Expiry.onHub Expiry.second)).take 6)).accepted.Nodup := by
  have honce := proofs_are_accepted_once Expiry.clockTimes Expiry.start [] []
  constructor
  · exact honce.1 _ (by decide +kernel)
  · exact honce.2 _ (by decide +kernel)

end UniMem.CapabilityIo
