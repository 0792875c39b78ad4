import UniMem.FrontierProtocol.Wire
import UniMem.Library.Grouping
import UniMem.Library.Json
import UniMem.Library.Transitions
import UniMem.Python.Collections

/-!
# Household consent

`observe` lets a scene be kept when every person in it has consented, and `assert_spatial_persistable` looks again.
Between the steps of a call others record consent and configure rooms.
-/

namespace UniMem.Household

open Library FrontierProtocol

variable {σ : Type}

/-! ## Journals -/

/-- A person of a gated scene. -/
structure ScopeEntry where
  personId : String
  scope : String
  deriving DecidableEq

/-- What the store signs. The fields that `append` adds are not read here. -/
inductive Record where
  /-- A statement of the transparency log. -/
  | statement
  | room (roomId : String) (noMemory : Bool) (actor : String)
  | consent (personId scope : String) (granted : Bool) (grantor : String) (proxyFor proxyAuthority : Option String)
  | gate (roomId sceneDigest : String) (scopes : List ScopeEntry)
  deriving DecidableEq

/-- `record.get("room_id")`. -/
def Record.roomId : Record → Option String
  | .room roomId _ _ => some roomId
  | .gate roomId _ _ => some roomId
  | _ => none

/-- `record.get("scene_digest")`. -/
def Record.sceneDigest : Record → Option String
  | .gate _ sceneDigest _ => some sceneDigest
  | _ => none

/-- `record.get("scopes", [])`. -/
def Record.scopes : Record → List ScopeEntry
  | .gate _ _ scopes => scopes
  | _ => []

/-- A row with its signature. -/
structure Signed (σ : Type) where
  record : Record
  signature : σ
  deriving DecidableEq

/-- The signing identity of the store, its digests, and the bounds of `append`. -/
structure Env (σ : Type) where
  runtime : Runtime
  sign : Record → σ
  verify : Signed σ → Bool
  verify_sign : ∀ record, verify ⟨record, sign record⟩ = true
  fits : List (Signed σ) → Record → Option PyError

/-- The journals `ROOMS`, `JOURNAL` and `GATES`. -/
structure Store (σ : Type) where
  rooms : List (Signed σ)
  consents : List (Signed σ)
  gates : List (Signed σ)

/-- The row that `append` writes. -/
def append (env : Env σ) (rows : List (Signed σ)) (record : Record) : Py (Signed σ) :=
  match env.fits rows record with
  | some error => throw error
  | none => return ⟨record, env.sign record⟩

/-- `_valid_signed`. -/
def validSigned (env : Env σ) (rows : List (Signed σ)) : List Record := (rows.filter env.verify).map Signed.record

/-- `_actor`. -/
def actor (value : String) : Py String := text value "household person id" 128

/-! ## Rooms -/

/-- The policy of a room that a row sets. -/
def Record.policy (roomId : String) : Record → Option Bool
  | .room other noMemory _ => if other = roomId then some noMemory else none
  | _ => none

/-- The last policy of a room. -/
def Store.policy (env : Env σ) (store : Store σ) (roomId : String) : Option Bool :=
  ((validSigned env store.rooms).filterMap (Record.policy roomId)).getLast?

/-- `no_memory`. -/
def Store.noMemory (env : Env σ) (store : Store σ) (roomId : String) : Bool := (store.policy env roomId).getD false

/-- `configure_room`. -/
def Store.configureRoom (env : Env σ) (store : Store σ) (roomId : String) (noMemory : Bool) (actorId : String) :
    Py (Store σ) := do
  let roomId ← text roomId "room id" 128
  let actorId ← actor actorId
  Py.require (!(store.noMemory env roomId && !noMemory))
    (.permissionError "no-memory room policy cannot be relaxed through this interface")
  let signed ← append env store.rooms (.room roomId noMemory actorId)
  return { store with rooms := store.rooms ++ [signed] }

/-! ## Consent -/

/-- `SCOPES - {"bystander"}`. -/
def grantableScopes : List String := ["resident", "household", "guest", "caregiver"]

/-- The checks of `consent` on who may record it. -/
def checkGrantor (personId grantor : String) (proxyFor proxyAuthority : Option String) : Py Unit :=
  match proxyFor with
  | some proxyFor => do
    let proxyFor ← actor proxyFor
    Py.require (proxyFor = personId ∧ grantor ≠ personId ∧ proxyAuthority.any (· ≠ ""))
      (.permissionError "proxy consent requires a distinct trusted proxy and authority reference")
    let _ ← text (proxyAuthority.getD "") "proxy authority" 256
  | none =>
    Py.require (grantor = personId)
      (.permissionError "only the person or an explicitly authorized proxy may record consent")

/-- The arguments of `consent`. -/
structure Decision where
  personId : String
  scope : String
  granted : Bool
  grantor : String
  proxyFor : Option String
  proxyAuthority : Option String

/-- `consent`. -/
def Store.consent (env : Env σ) (store : Store σ) (decision : Decision) : Py (Store σ) := do
  let personId ← actor decision.personId
  let grantor ← actor decision.grantor
  Py.require (decision.scope ∈ grantableScopes)
    (.valueError "household consent requires a grantable scope and boolean decision")
  checkGrantor personId grantor decision.proxyFor decision.proxyAuthority
  let signed ← append env store.consents
    (.consent personId decision.scope decision.granted grantor decision.proxyFor decision.proxyAuthority)
  return { store with consents := store.consents ++ [signed] }

/-- The decision of a person that a row records. -/
def Record.decision (personId : String) : Record → Option (Bool × String)
  | .consent other scope granted _ _ _ => if other = personId then some (granted, scope) else none
  | _ => none

/-- The last decision of a person. -/
def Store.decision (env : Env σ) (store : Store σ) (personId : String) : Option (Bool × String) :=
  ((validSigned env store.consents).filterMap (Record.decision personId)).getLast?

/-- The scope of a decision, when it is a grant. -/
def grantedScope : Option (Bool × String) → Py (Option String)
  | some (true, scope) => do
    let scope ← text scope "household scope" 32
    Py.require (scope ∈ grantableScopes) (.valueError "household consent journal contains an invalid scope")
    return some scope
  | _ => return none

/-- `scope_for`. -/
def Store.scopeFor (env : Env σ) (store : Store σ) (personId : String) : Py (Option String) := do
  let personId ← actor personId
  grantedScope (store.decision env personId)

/-! ## Scenes -/

/-- What the identity resolver says about a person. -/
inductive PersonItem where
  /-- Not a dictionary of `person_id` and `status`. -/
  | malformed
  | item (personId status : Option String)

/-- A running call of `observe`: the persons left and the scopes of the others. -/
structure Observation where
  roomId : String
  scene : Json
  people : List PersonItem
  scopes : List ScopeEntry

/-- `observe` up to the loop. There is no observation in a room without memory. -/
def Store.beginObserve (env : Env σ) (store : Store σ) (scene : Json) (roomId : String)
    (resolver : Json → Py (List PersonItem)) : Py (Option Observation) := do
  let roomId ← text roomId "room id" 128
  if store.noMemory env roomId then return none
  else
    let people ← resolver scene
    Py.require (people.length ≤ 64) (.valueError "robot identity resolver must return a bounded person list")
    return some ⟨roomId, scene, people, []⟩

/-- One turn of `observe`; none is left when the scene is ephemeral. -/
def Store.observePerson (env : Env σ) (store : Store σ) (observation : Observation) (item : PersonItem)
    (people : List PersonItem) : Py (Option Observation) :=
  match item with
  | .malformed =>
    throw (.valueError "identity resolver may return only person_id and status; biometric data is forbidden")
  | .item personId status =>
    if status ≠ some "recognized" ∨ (personId.getD "").isEmpty then return none
    else do
      let person ← actor (personId.getD "")
      let scope ← store.scopeFor env person
      return scope.map fun scope ↦ { observation with people, scopes := observation.scopes ++ [⟨person, scope⟩] }

/-- `observe` after the loop: the row that is passed to the persistence callback. -/
def Store.gate (env : Env σ) (store : Store σ) (observation : Observation) : Py (Signed σ) := do
  let sceneDigest ← digest env.runtime observation.scene
  append env store.gates (.gate observation.roomId sceneDigest observation.scopes)

/-! ## Deltas -/

/-- A room: absent when missing or false, and some other when it is no text. -/
inductive RoomField where
  | absent
  | named (roomId : String) (h : roomId ≠ "")
  | other

/-- Python's `or`. -/
def RoomField.orElse : RoomField → RoomField → RoomField
  | .absent, second => second
  | first, _ => first

/-- A spatial delta: the three fields that are read, and the rest. -/
structure Delta (σ : Type) where
  roomId : RoomField
  containsPerson : Bool
  householdGate : Option (Signed σ)
  scene : Json

/-- The test of the gate of a scene. -/
def gateAdmits (env : Env σ) (delta : Delta σ) : Py (Option Record) :=
  match delta.householdGate with
  | none => return none
  | some gate =>
    if env.verify gate then do
      let sceneDigest ← digest env.runtime delta.scene
      return if gate.record.sceneDigest = some sceneDigest then some gate.record else none
    else return none

/-- Whether a record is about a room, when one is given. -/
def Record.concerns (record : Record) : RoomField → Bool
  | .absent => true
  | .named roomId _ => record.roomId = some roomId
  | .other => false

/-- The checks of `assert_spatial_persistable` on the record of the gate. -/
def Store.checkGate (env : Env σ) (store : Store σ) (room : RoomField) (record : Record) : Py Unit := do
  Py.require (record.concerns room) (.permissionError "household write gate belongs to a different room")
  record.scopes.forM fun entry ↦ do
    let scope ← store.scopeFor env entry.personId
    Py.require (scope = some entry.scope)
      (.permissionError "household consent changed after the scene was authorized")

/-- Whether a room field names a room without memory. -/
def Store.forbids (env : Env σ) (store : Store σ) : RoomField → Bool
  | .named roomId _ => store.noMemory env roomId
  | _ => false

/-- `assert_spatial_persistable`, with the room of the context. -/
def Store.assertSpatialPersistable (env : Env σ) (store : Store σ) (delta : Delta σ) (context : RoomField) :
    Py Unit := do
  let room := delta.roomId.orElse context
  Py.require (!store.forbids env room) (.permissionError "no-memory room perception cannot be persisted")
  if delta.containsPerson then
    let admitted ← gateAdmits env delta
    match admitted with
    | none => throw (.permissionError "person observation must pass the household identity and consent gate")
    | some record => store.checkGate env room record
  else return ()

/-! ## Histories -/

/-- The journals, the running observations, and the gates with their scenes. -/
structure System (σ : Type) where
  store : Store σ
  steps : ℕ
  running : List (ℕ × Observation)
  issued : List (Json × Signed σ)

def System.init : System σ := ⟨⟨[], [], []⟩, 0, [], []⟩

inductive Action where
  | configureRoom (roomId : String) (noMemory : Bool) (actorId : String)
  | consent (decision : Decision)
  /-- A call of `observe` begins; it is named by the step. -/
  | observe (scene : Json) (roomId : String) (resolver : Json → Py (List PersonItem))
  /-- A call of `observe` goes on with the next person, or leaves the gate. -/
  | proceed (call : ℕ)

/-- The system in which an observation goes on or has ended. -/
def System.resume (system : System σ) (call : ℕ) (observation : Option Observation) : System σ :=
  { system with
    running := observation.elim (discard call system.running) fun observation ↦
      assign call observation system.running }

/-- The next section of a call of `observe`. -/
def System.proceed (env : Env σ) (system : System σ) (call : ℕ) (observation : Observation) : Py (System σ) :=
  match observation.people with
  | item :: people => system.resume call <$> system.store.observePerson env observation item people
  | [] => do
    let gate ← system.store.gate env observation
    return { system.resume call none with
      store := { system.store with gates := system.store.gates ++ [gate] }
      issued := (observation.scene, gate) :: system.issued }

/-- A call of `observe` that raises has ended. -/
def System.advance (env : Env σ) (system : System σ) (call : ℕ) (observation : Observation) : System σ :=
  match system.proceed env call observation with
  | .ok next => next
  | .error _ => system.resume call none

/-- One step. A call that raises leaves the journals as they were. -/
def System.step (env : Env σ) (system : System σ) : Action → Py (System σ)
  | .configureRoom roomId noMemory actorId => do
    let store ← system.store.configureRoom env roomId noMemory actorId
    return { system with store, steps := system.steps + 1 }
  | .consent decision => do
    let store ← system.store.consent env decision
    return { system with store, steps := system.steps + 1 }
  | .observe scene roomId resolver => do
    let observation ← system.store.beginObserve env scene roomId resolver
    return { system.resume system.steps observation with steps := system.steps + 1 }
  | .proceed call => return (system.running.lookup call).elim system (system.advance env call)

/-- The systems after the histories. -/
def System.after (env : Env σ) (actions : List Action) : System σ := run (System.step env) .init actions

/-! ## What rows say -/

variable {env : Env σ} {system next : System σ} {store : Store σ}

/-- The rows that the store signed. -/
def Store.rows (store : Store σ) : List (Signed σ) := store.rooms ++ store.consents ++ store.gates

/-- The last policy of a room in the journal. -/
def Store.lastPolicy (store : Store σ) (roomId : String) : Option Bool :=
  ((store.rooms.map Signed.record).filterMap (Record.policy roomId)).getLast?

/-- The last decision of a person in the journal. -/
def Store.lastDecision (store : Store σ) (personId : String) : Option (Bool × String) :=
  ((store.consents.map Signed.record).filterMap (Record.decision personId)).getLast?

/-- Every row is signed, and only gates have the digest of an observed scene. -/
structure Sound (env : Env σ) (system : System σ) : Prop where
  rooms : ∀ row ∈ system.store.rooms, env.verify row = true ∧ row.record.sceneDigest = none
  consents : ∀ row ∈ system.store.consents, env.verify row = true ∧ row.record.sceneDigest = none
  gates : ∀ row ∈ system.store.gates, ∃ roomId sceneDigest scopes, row.record = .gate roomId sceneDigest scopes ∧
    ∃ scene, (scene, row) ∈ system.issued ∧ digest env.runtime scene = .ok sceneDigest

theorem append_spec {rows : List (Signed σ)} {record : Record} {signed : Signed σ}
    (h : append env rows record = .ok signed) : signed.record = record ∧ env.verify signed = true := by
  unfold append at h
  cases hfits : env.fits rows record with
  | some error =>
    rw [hfits] at h
    cases h
  | none =>
    rw [hfits] at h
    obtain rfl := Except.ok.inj h
    exact ⟨rfl, env.verify_sign record⟩

theorem validSigned_eq {rows : List (Signed σ)} (h : ∀ row ∈ rows, env.verify row = true) :
    validSigned env rows = rows.map Signed.record := by
  rw [validSigned, List.filter_eq_self.mpr h]

theorem Sound.noMemory_eq (h : Sound env system) (roomId : String) :
    system.store.noMemory env roomId = (system.store.lastPolicy roomId).getD false := by
  rw [Store.noMemory, Store.policy, validSigned_eq fun row hrow ↦ (h.rooms row hrow).1]
  rfl

theorem Sound.decision_eq (h : Sound env system) (personId : String) :
    system.store.decision env personId = system.store.lastDecision personId := by
  rw [Store.decision, validSigned_eq fun row hrow ↦ (h.consents row hrow).1]
  rfl

/-! ## What calls do -/

variable {roomId scope : String} {gate : Signed σ} {action : Action}

theorem configureRoom_spec {next : Store σ} {actorId : String} {noMemory : Bool}
    (h : store.configureRoom env roomId noMemory actorId = .ok next) :
    (store.noMemory env roomId = true → noMemory = true) ∧
      ∃ signed, signed.record = .room roomId noMemory actorId ∧ env.verify signed = true ∧
        next = { store with rooms := store.rooms ++ [signed] } := by
  obtain ⟨checkedRoom, hroom, h⟩ := Py.of_bind h
  obtain ⟨checkedActor, hactor, h⟩ := Py.of_bind h
  obtain ⟨_, hrequire, h⟩ := Py.of_bind h
  obtain ⟨signed, happend, h⟩ := Py.of_bind h
  rw [← (text_eq_ok_iff.mp hroom).2] at hrequire happend
  rw [← (text_eq_ok_iff.mp hactor).2] at happend
  rw [Py.require_eq_ok_iff] at hrequire
  refine ⟨fun hforbidden ↦ ?_, signed, (append_spec happend).1, (append_spec happend).2, (Except.ok.inj h).symm⟩
  rw [hforbidden, Bool.true_and, Bool.not_not] at hrequire
  exact hrequire

theorem consent_spec {next : Store σ} {decision : Decision} (h : store.consent env decision = .ok next) :
    ∃ signed, signed.record.sceneDigest = none ∧ env.verify signed = true ∧
      next = { store with consents := store.consents ++ [signed] } := by
  obtain ⟨_, h⟩ := Py.of_rest h
  obtain ⟨_, h⟩ := Py.of_rest h
  obtain ⟨_, h⟩ := Py.of_rest h
  obtain ⟨_, h⟩ := Py.of_rest h
  obtain ⟨signed, happend, h⟩ := Py.of_bind h
  obtain ⟨hrecord, hverify⟩ := append_spec happend
  refine ⟨signed, ?_, hverify, (Except.ok.inj h).symm⟩
  rw [hrecord]
  rfl

theorem gate_spec {observation : Observation} (h : store.gate env observation = .ok gate) :
    ∃ sceneDigest, digest env.runtime observation.scene = .ok sceneDigest ∧
      gate.record = .gate observation.roomId sceneDigest observation.scopes := by
  obtain ⟨sceneDigest, hdigest, h⟩ := Py.of_bind h
  exact ⟨sceneDigest, hdigest, (append_spec h).1⟩

theorem advance_cases (env : Env σ) (system : System σ) (call : ℕ) (observation : Observation) :
    (∃ left, system.advance env call observation = system.resume call left) ∨
      ∃ gate, system.store.gate env observation = .ok gate ∧ system.advance env call observation =
        { system.resume call none with
          store := { system.store with gates := system.store.gates ++ [gate] }
          issued := (observation.scene, gate) :: system.issued } := by
  unfold System.advance
  cases hproceed : system.proceed env call observation with
  | error error => exact .inl ⟨none, rfl⟩
  | ok next =>
    unfold System.proceed at hproceed
    cases hpeople : observation.people with
    | cons item people =>
      rw [hpeople] at hproceed
      obtain ⟨left, -, rfl⟩ := Py.map_eq_ok_iff.mp hproceed
      exact .inl ⟨left, rfl⟩
    | nil =>
      rw [hpeople] at hproceed
      obtain ⟨gate, hgate, hnext⟩ := Py.of_bind hproceed
      exact .inr ⟨gate, hgate, (Except.ok.inj hnext).symm⟩

theorem step_cases (h : system.step env action = .ok next) :
    (next.store = system.store ∧ next.issued = system.issued) ∨
      (∃ roomId noMemory actorId signed, (system.store.noMemory env roomId = true → noMemory = true) ∧
        signed.record = .room roomId noMemory actorId ∧ env.verify signed = true ∧
        next.store = { system.store with rooms := system.store.rooms ++ [signed] } ∧ next.issued = system.issued) ∨
      (∃ signed, signed.record.sceneDigest = none ∧ env.verify signed = true ∧
        next.store = { system.store with consents := system.store.consents ++ [signed] } ∧
        next.issued = system.issued) ∨
      ∃ observation gate, system.store.gate env observation = .ok gate ∧
        next.store = { system.store with gates := system.store.gates ++ [gate] } ∧
        next.issued = (observation.scene, gate) :: system.issued := by
  cases action with
  | configureRoom roomId noMemory actorId =>
    obtain ⟨store, hstore, h⟩ := Py.of_bind h
    obtain rfl := Except.ok.inj h
    obtain ⟨hkept, signed, hrecord, hverify, rfl⟩ := configureRoom_spec hstore
    exact .inr (.inl ⟨roomId, noMemory, actorId, signed, hkept, hrecord, hverify, rfl, rfl⟩)
  | consent decision =>
    obtain ⟨store, hstore, h⟩ := Py.of_bind h
    obtain rfl := Except.ok.inj h
    obtain ⟨signed, hrecord, hverify, rfl⟩ := consent_spec hstore
    exact .inr (.inr (.inl ⟨signed, hrecord, hverify, rfl, rfl⟩))
  | observe scene roomId resolver =>
    obtain ⟨observation, -, h⟩ := Py.of_bind h
    obtain rfl := Except.ok.inj h
    exact .inl ⟨rfl, rfl⟩
  | proceed call =>
    obtain rfl := Except.ok.inj h
    cases system.running.lookup call with
    | none => exact .inl ⟨rfl, rfl⟩
    | some observation =>
      rw [Option.elim_some]
      obtain ⟨left, hnext⟩ | ⟨gate, hgate, hnext⟩ := advance_cases env system call observation
      · rw [hnext]
        exact .inl ⟨rfl, rfl⟩
      · rw [hnext]
        exact .inr (.inr (.inr ⟨observation, gate, hgate, rfl, rfl⟩))

/-! ## What histories keep -/

theorem sound_init : Sound env .init where
  rooms := fun _ h ↦ absurd h List.not_mem_nil
  consents := fun _ h ↦ absurd h List.not_mem_nil
  gates := fun _ h ↦ absurd h List.not_mem_nil

theorem Sound.step (h : Sound env system) (hstep : system.step env action = .ok next) :
    Sound env next := by
  obtain ⟨hstore, hissued⟩ | ⟨roomId, noMemory, actorId, signed, -, hrecord, hverify, hstore, hissued⟩ |
    ⟨signed, hrecord, hverify, hstore, hissued⟩ | ⟨observation, gate, hgate, hstore, hissued⟩ := step_cases hstep
  · exact ⟨hstore ▸ h.rooms, hstore ▸ h.consents, hstore ▸ hissued ▸ h.gates⟩
  · refine ⟨?_, hstore ▸ h.consents, ?_⟩
    · rw [hstore]
      refine List.forall_mem_append.mpr ⟨h.rooms, List.forall_mem_singleton.mpr ⟨hverify, ?_⟩⟩
      rw [hrecord]
      rfl
    · rw [hstore, hissued]
      exact h.gates
  · refine ⟨hstore ▸ h.rooms, ?_, ?_⟩
    · rw [hstore]
      exact List.forall_mem_append.mpr ⟨h.consents, List.forall_mem_singleton.mpr ⟨hverify, hrecord⟩⟩
    · rw [hstore, hissued]
      exact h.gates
  · refine ⟨hstore ▸ h.rooms, hstore ▸ h.consents, ?_⟩
    obtain ⟨sceneDigest, hdigest, hrecord⟩ := gate_spec hgate
    rw [hstore, hissued]
    refine List.forall_mem_append.mpr ⟨fun row hrow ↦ ?_, List.forall_mem_singleton.mpr
      ⟨_, sceneDigest, _, hrecord, observation.scene, List.mem_cons_self, hdigest⟩⟩
    obtain ⟨roomId, oldDigest, scopes, hold, scene, hscene, hsame⟩ := h.gates row hrow
    exact ⟨roomId, oldDigest, scopes, hold, scene, List.mem_cons_of_mem _ hscene, hsame⟩

theorem sound_after (env : Env σ) (actions : List Action) : Sound env (.after env actions) :=
  run_invariant (fun _ _ _ h hstep ↦ h.step hstep) sound_init actions

theorem noMemory_step (h : Sound env system) (hstep : system.step env action = .ok next)
    (hroom : system.store.noMemory env roomId = true) :
    next.store.noMemory env roomId = true := by
  have hnext := h.step hstep
  rw [hnext.noMemory_eq]
  rw [h.noMemory_eq] at hroom
  obtain ⟨hstore, -⟩ | ⟨other, noMemory, actorId, signed, hkept, hrecord, -, hstore, -⟩ |
    ⟨signed, -, -, hstore, -⟩ | ⟨observation, gate, -, hstore, -⟩ := step_cases hstep
  · rw [hstore]
    exact hroom
  · rw [hstore, Store.lastPolicy, List.map_append, List.filterMap_append, List.getLast?_append, List.map_singleton,
      hrecord]
    by_cases hother : other = roomId
    · rw [hother, h.noMemory_eq] at hkept
      simp [Record.policy, hother, hkept hroom]
    · simpa [Record.policy, hother, Store.lastPolicy] using hroom
  · rw [hstore]
    exact hroom
  · rw [hstore]
    exact hroom

theorem noMemory_run (h : Sound env system) (hroom : system.store.noMemory env roomId = true)
    (actions : List Action) : (run (System.step env) system actions).store.noMemory env roomId = true := by
  have hstep : ∀ (state : System σ) action next, (Sound env state ∧ state.store.noMemory env roomId = true) →
      state.step env action = .ok next → Sound env next ∧ next.store.noMemory env roomId = true :=
    fun _ _ _ hboth hnext ↦ ⟨hboth.1.step hnext, noMemory_step hboth.1 hnext hboth.2⟩
  exact (run_invariant hstep ⟨h, hroom⟩ actions).2

/-! ## What is accepted -/

variable {delta : Delta σ} {context : RoomField}

theorem grantedScope_eq {decision : Option (Bool × String)} (h : grantedScope decision = .ok (some scope)) :
    decision = some (true, scope) := by
  cases decision with
  | none => cases Except.ok.inj h
  | some decision =>
    obtain ⟨granted, given⟩ := decision
    cases granted with
    | false => cases Except.ok.inj h
    | true =>
      obtain ⟨checked, htext, h⟩ := Py.of_bind h
      obtain ⟨_, h⟩ := Py.of_rest h
      rw [(text_eq_ok_iff.mp htext).2, Option.some.inj (Except.ok.inj h)]

theorem scopeFor_eq {personId : String} (h : store.scopeFor env personId = .ok (some scope)) :
    store.decision env personId = some (true, scope) := by
  obtain ⟨checked, hactor, h⟩ := Py.of_bind h
  rw [(text_eq_ok_iff.mp hactor).2]
  exact grantedScope_eq h

theorem assert_spec (hperson : delta.containsPerson = true)
    (h : store.assertSpatialPersistable env delta context = .ok ()) :
    store.forbids env (delta.roomId.orElse context) = false ∧ ∃ gate, delta.householdGate = some gate ∧
      env.verify gate = true ∧ gate.record.concerns (delta.roomId.orElse context) = true ∧
      (∃ sceneDigest, digest env.runtime delta.scene = .ok sceneDigest ∧ gate.record.sceneDigest = some sceneDigest) ∧
      ∀ entry ∈ gate.record.scopes, store.decision env entry.personId = some (true, entry.scope) := by
  obtain ⟨_, hforbids, h⟩ := Py.of_bind h
  rw [Py.require_eq_ok_iff, Bool.not_eq_true'] at hforbids
  rw [if_pos hperson] at h
  obtain ⟨admitted, hadmitted, h⟩ := Py.of_bind h
  cases admitted with
  | none => cases h
  | some record =>
    obtain ⟨_, hconcerns, h⟩ := Py.of_bind h
    rw [Py.require_eq_ok_iff] at hconcerns
    unfold gateAdmits at hadmitted
    cases hgate : delta.householdGate with
    | none =>
      rw [hgate] at hadmitted
      cases hadmitted
    | some gate =>
      rw [hgate] at hadmitted
      dsimp only at hadmitted
      by_cases hverify : env.verify gate = true
      · rw [if_pos hverify] at hadmitted
        obtain ⟨sceneDigest, hdigest, hadmitted⟩ := Py.of_bind hadmitted
        have hsame := Except.ok.inj hadmitted
        split_ifs at hsame with hscene
        obtain rfl := Option.some.inj hsame
        refine ⟨hforbids, gate, rfl, hverify, hconcerns, ⟨sceneDigest, hdigest, hscene⟩, fun entry hentry ↦ ?_⟩
        obtain ⟨scope, hscope, hequal⟩ := Py.of_bind (Py.forM_eq_ok_iff.mp h entry hentry)
        rw [Py.require_eq_ok_iff, decide_eq_true_eq] at hequal
        rw [hequal] at hscope
        exact scopeFor_eq hscope
      · rw [if_neg hverify] at hadmitted
        cases hadmitted

/-- The persons of the gate of a delta. -/
def Delta.gatedPersons (delta : Delta σ) : List ScopeEntry :=
  delta.householdGate.elim [] fun gate ↦ gate.record.scopes

/-- The room of the gate of a delta. -/
def Delta.gatedRoom (delta : Delta σ) : Option String := delta.householdGate.bind fun gate ↦ gate.record.roomId

/-- A delta carries a gate to which all its persons agree, in a room with memory. -/
def Accounted (system : System σ) (delta : Delta σ) : Prop :=
  ∃ gate roomId sceneDigest scopes, delta.householdGate = some gate ∧
    gate.record = .gate roomId sceneDigest scopes ∧
    (∃ scene, (scene, gate) ∈ system.issued ∧ canonicalBytes scene = canonicalBytes delta.scene) ∧ scopes ≠ [] ∧
    (∀ entry ∈ scopes, system.store.lastDecision entry.personId = some (true, entry.scope)) ∧
    system.store.lastPolicy roomId ≠ some true

/-- A delta has a gated person, and its room is given or the gated one has memory. -/
def Checked (store : Store σ) (delta : Delta σ) (context : RoomField) : Prop :=
  delta.gatedPersons ≠ [] ∧ (delta.roomId.orElse context ≠ .absent ∨
    ∀ roomId ∈ delta.gatedRoom, store.lastPolicy roomId ≠ some true)

/-- What verifies was signed by the store. -/
def Unforged (env : Env σ) (store : Store σ) (delta : Delta σ) : Prop :=
  ∀ gate ∈ delta.householdGate, env.verify gate = true → gate.record = .statement ∨ gate ∈ store.rows

theorem Sound.policy_iff (h : Sound env system) (roomId : String) :
    system.store.noMemory env roomId = true ↔ system.store.lastPolicy roomId = some true := by
  rw [h.noMemory_eq]
  cases system.store.lastPolicy roomId with
  | none => simp
  | some noMemory => simp

theorem Sound.exists_gate (h : Sound env system) {sceneDigest : String}
    (hsigned : gate.record = .statement ∨ gate ∈ system.store.rows)
    (hdigest : gate.record.sceneDigest = some sceneDigest) : ∃ roomId scopes,
      gate.record = .gate roomId sceneDigest scopes ∧
        ∃ scene, (scene, gate) ∈ system.issued ∧ digest env.runtime scene = .ok sceneDigest := by
  obtain hstatement | hrow := hsigned
  · rw [hstatement] at hdigest
    cases hdigest
  obtain hrow | hrow := List.mem_append.mp hrow
  · have hnone : gate.record.sceneDigest = none :=
      (List.mem_append.mp hrow).elim (fun hroom ↦ (h.rooms gate hroom).2) fun hconsent ↦ (h.consents gate hconsent).2
    rw [hnone] at hdigest
    cases hdigest
  · obtain ⟨roomId, issuedDigest, scopes, hrecord, hscene⟩ := h.gates gate hrow
    rw [hrecord] at hdigest
    obtain rfl := Option.some.inj hdigest
    exact ⟨roomId, scopes, hrecord, hscene⟩

/-- A delta with a person is accounted for exactly when its gate has one and its room was checked. -/
theorem accounted_iff_checked (env : Env σ) (actions : List Action) :
    (∀ later roomId, (System.after env actions).store.lastPolicy roomId = some true →
      (System.after env (actions ++ later)).store.lastPolicy roomId = some true) ∧
    ∀ (delta : Delta σ) (context : RoomField), delta.containsPerson = true →
      Unforged env (System.after env actions).store delta → (∀ observed ∈ (System.after env actions).issued,
        env.runtime.sha256 (canonicalBytes observed.1) = env.runtime.sha256 (canonicalBytes delta.scene) →
        canonicalBytes observed.1 = canonicalBytes delta.scene) →
      (System.after env actions).store.assertSpatialPersistable env delta context = .ok () →
      (Accounted (System.after env actions) delta ↔ Checked (System.after env actions).store delta context) := by
  have hsound := sound_after env actions
  refine ⟨fun later roomId hroom ↦ ?_, fun delta context hperson hunforged hcollision haccepted ↦ ?_⟩
  · have hlater := sound_after env (actions ++ later)
    rw [← hlater.policy_iff, System.after, run_append]
    exact noMemory_run hsound ((hsound.policy_iff roomId).mpr hroom) later
  · obtain ⟨hforbids, gate, hgate, hverify, hconcerns, ⟨sceneDigest, hdigest, hsame⟩, hscopes⟩ :=
      assert_spec hperson haccepted
    obtain ⟨roomId, scopes, hrecord, scene, hissued, hscene⟩ :=
      hsound.exists_gate (hunforged gate hgate hverify) hsame
    have hpersons : delta.gatedPersons = scopes := by
      rw [Delta.gatedPersons, hgate, Option.elim_some, hrecord]
      rfl
    have hroom : delta.gatedRoom = some roomId := by
      rw [Delta.gatedRoom, hgate, Option.bind_some, hrecord]
      rfl
    unfold Checked
    rw [hpersons, hroom]
    constructor
    · rintro ⟨other, otherRoom, otherDigest, otherScopes, hother, hotherRecord, -, hne, -, hpolicy⟩
      obtain rfl := Option.some.inj (hgate.symm.trans hother)
      rw [hrecord] at hotherRecord
      cases hotherRecord
      exact ⟨hne, .inr fun room hmem ↦ Option.some.inj hmem ▸ hpolicy⟩
    · rintro ⟨hne, hgiven⟩
      refine ⟨gate, roomId, sceneDigest, scopes, hgate, hrecord, ⟨scene, hissued, ?_⟩, hne, fun entry hentry ↦ ?_, ?_⟩
      · refine hcollision (scene, gate) hissued ?_
        rw [(digest_eq_ok_iff.mp hscene).2, (digest_eq_ok_iff.mp hdigest).2]
      · rw [← hsound.decision_eq]
        rw [hrecord] at hscopes
        exact hscopes entry hentry
      · obtain hgiven | hmemory := hgiven
        · cases hfield : delta.roomId.orElse context with
          | absent => exact absurd hfield hgiven
          | other =>
            rw [hfield] at hconcerns
            cases hconcerns
          | named given hname =>
            rw [hfield, hrecord] at hconcerns
            rw [hfield] at hforbids
            obtain rfl := Option.some.inj (of_decide_eq_true hconcerns)
            intro hpolicy
            exact Bool.false_ne_true (hforbids.symm.trans ((hsound.policy_iff _).mpr hpolicy))
        · exact hmemory roomId rfl

namespace Sample

/-! A scene without persons, and a resident in a bedroom that loses its memory afterwards. -/

def household : Env Record where
  runtime := .hashing []
  sign := id
  verify := fun signed ↦ signed.signature = signed.record
  verify_sign := fun _ ↦ decide_eq_true rfl
  fits := fun _ _ ↦ none

def scene : Json := .obj []

def sceneDigest : String := household.runtime.sha256 (canonicalBytes scene)

def signed (record : Record) : Signed Record := ⟨record, record⟩

def empty : Record := .gate "kitchen" sceneDigest []

def emptyHistory : List Action := [.observe scene "kitchen" fun _ ↦ .ok [], .proceed 0]

def emptyDelta : Delta Record := ⟨.named "kitchen" (by decide), true, some (signed empty), scene⟩

def resident : Record := .gate "bedroom" sceneDigest [⟨"resident-1", "resident"⟩]

def residentHistory : List Action :=
  [.consent ⟨"resident-1", "resident", true, "resident-1", none, none⟩,
    .observe scene "bedroom" fun _ ↦ .ok [.item (some "resident-1") (some "recognized")], .proceed 1, .proceed 1]

def residentDelta (room : RoomField) : Delta Record := ⟨room, true, some (signed resident), scene⟩

def forgottenHistory : List Action := residentHistory ++ [.configureRoom "bedroom" true "operator"]

theorem ok_of_isOk {result : Py Unit} (h : result.isOk = true) : result = .ok () := by
  cases result with
  | error error => cases h
  | ok value => rfl

/-- A delta whose gate was checked, and that the store accepts. -/
structure Admitted (history : List Action) (delta : Delta Record) : Prop where
  unforged : Unforged household (System.after household history).store delta
  accepted : (System.after household history).store.assertSpatialPersistable household delta .absent = .ok ()

/-- The gate of a delta is on record after a history, and the store accepts the delta. -/
def Passes (history : List Action) (gate : Signed Record) (delta : Delta Record) : Prop :=
  gate ∈ (System.after household history).store.rows ∧
    ((System.after household history).store.assertSpatialPersistable household delta .absent).isOk = true

instance (history : List Action) (gate : Signed Record) (delta : Delta Record) :
    Decidable (Passes history gate delta) :=
  inferInstanceAs (Decidable (_ ∧ _))

theorem checked_samples :
    (Passes emptyHistory (signed empty) emptyDelta ∧
      Passes residentHistory (signed resident) (residentDelta (.named "bedroom" (by decide))) ∧
      Passes forgottenHistory (signed resident) (residentDelta .absent)) ∧
    (System.after household forgottenHistory).store.lastPolicy "bedroom" = some true ∧
    (System.after household residentHistory).issued.map (fun observed ↦ canonicalBytes observed.1) =
      [canonicalBytes scene] := by
  decide +kernel

theorem Passes.admitted {history : List Action} {delta : Delta Record} {gate : Signed Record}
    (h : Passes history gate delta) (hgate : delta.householdGate = some gate) : Admitted history delta where
  unforged := by
    intro other hother _
    obtain rfl := Option.some.inj (hgate.symm.trans hother)
    exact .inr h.1
  accepted := ok_of_isOk h.2

theorem admitted_empty : Admitted emptyHistory emptyDelta :=
  checked_samples.1.1.admitted rfl

theorem admitted_resident : Admitted residentHistory (residentDelta (.named "bedroom" (by decide))) :=
  checked_samples.1.2.1.admitted rfl

theorem admitted_forgotten : Admitted forgottenHistory (residentDelta .absent) :=
  checked_samples.1.2.2.admitted rfl

theorem policy_forgotten : (System.after household forgottenHistory).store.lastPolicy "bedroom" = some true :=
  checked_samples.2.1

theorem scenes_resident : ∀ observed ∈ (System.after household residentHistory).issued,
    canonicalBytes observed.1 = canonicalBytes scene := by
  intro observed hobserved
  refine List.mem_singleton.mp (checked_samples.2.2 ▸ ?_)
  exact List.mem_map.mpr ⟨observed, hobserved, rfl⟩

end Sample

theorem accounted_iff_checked_resident : Accounted (System.after Sample.household Sample.residentHistory)
    (Sample.residentDelta (.named "bedroom" (by decide))) :=
  ((accounted_iff_checked Sample.household Sample.residentHistory).2 _ .absent rfl Sample.admitted_resident.unforged
    (fun observed hobserved _ ↦ Sample.scenes_resident observed hobserved) Sample.admitted_resident.accepted).mpr
    ⟨List.cons_ne_nil _ _, .inl RoomField.noConfusion⟩

/-- Gates without persons, or of a room that lost its memory, are accepted. -/
theorem accepted_not_accounted :
    (Unforged Sample.household (System.after Sample.household Sample.emptyHistory).store Sample.emptyDelta ∧
      (System.after Sample.household Sample.emptyHistory).store.assertSpatialPersistable Sample.household
        Sample.emptyDelta .absent = .ok () ∧
      ¬ Accounted (System.after Sample.household Sample.emptyHistory) Sample.emptyDelta) ∧
    Unforged Sample.household (System.after Sample.household Sample.forgottenHistory).store
        (Sample.residentDelta .absent) ∧
      (System.after Sample.household Sample.forgottenHistory).store.assertSpatialPersistable Sample.household
        (Sample.residentDelta .absent) .absent = .ok () ∧
      ¬ Accounted (System.after Sample.household Sample.forgottenHistory) (Sample.residentDelta .absent) := by
  refine ⟨⟨Sample.admitted_empty.unforged, Sample.admitted_empty.accepted, ?_⟩, Sample.admitted_forgotten.unforged,
    Sample.admitted_forgotten.accepted, ?_⟩
  · rintro ⟨gate, roomId, sceneDigest, scopes, hgate, hrecord, -, hne, -⟩
    obtain rfl := Option.some.inj hgate
    cases hrecord
    exact hne rfl
  · rintro ⟨gate, roomId, sceneDigest, scopes, hgate, hrecord, -, -, -, hpolicy⟩
    obtain rfl := Option.some.inj hgate
    cases hrecord
    exact hpolicy Sample.policy_forgotten

end UniMem.Household
