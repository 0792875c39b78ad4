import UniMem.FrontierProtocol.Arguments

/-!
# Fenced leases of work items

`lease` grants a work item to one principal for some seconds, with a token that grows, and `_fence` accepts the
holder of the last grant until it expires. Times are instants.
-/

namespace UniMem.TeamIsolation

open Library FrontierProtocol

/-- The isolation levels. -/
inductive Level where
  | none
  | snapshot
  | serializable
  | sequenced
  deriving DecidableEq

/-- What the policy says about a space. -/
structure Space where
  level : Level
  scopes : List String

/-- The policy of a team, when there is one: the settings of its spaces. -/
abbrev Config := List (String × Space)

/-- `_space`: the settings of a space for a caller with some scopes. -/
def spaceSettings (config : Config) (space : String) (context : List String) : Py Space := do
  Py.require (config.isEmpty || (config.lookup space).isSome)
    (.permissionError "UniMem unknown team space")
  let settings := (config.lookup space).getD ⟨.none, []⟩
  Py.require (settings.scopes.all (· ∈ context))
    (.permissionError "UniMem team space is outside the caller's scope")
  return settings

/-- A row of the table of leases. -/
structure Lease where
  space : String
  item : String
  principal : String
  leaseId : String
  fence : ℤ
  expires : ℤ
  deriving DecidableEq

/-- `SELECT … FROM leases WHERE space=? AND item=?`. -/
def findLease (leases : List Lease) (space item : String) : Option Lease :=
  leases.find? fun row ↦ row.space = space ∧ row.item = item

/-- `INSERT … ON CONFLICT(space,item) DO UPDATE`. -/
def putLease (leases : List Lease) (lease : Lease) : List Lease :=
  if (findLease leases lease.space lease.item).isSome then
    leases.map fun row ↦ if row.space = lease.space ∧ row.item = lease.item then lease else row
  else leases ++ [lease]

/-- What a call of `lease` is given. -/
structure LeaseRequest where
  principal : String
  space : String
  context : List String
  item : String
  seconds : ℤ
  /-- `secrets.token_urlsafe(24)`. -/
  identity : String

/-- The grant of a work item, at an instant in microseconds. -/
def grantLease (config : Config) (leases : List Lease) (now : ℤ) (request : LeaseRequest) : Py Lease := do
  let _ ← text request.item "work item" 128
  let _ ← count request.seconds 1 3600 "lease seconds"
  let _ ← spaceSettings config request.space request.context
  let row := findLease leases request.space request.item
  Py.require (row.all fun row ↦ ¬now < row.expires) (.staleGeneration "work_item_leased")
  Py.require (row.isSome || leases.length < 10000)
    (.valueError "UniMem lease work-item bound reached")
  let fence ← count (row.elim 1 fun row ↦ row.fence + 1) 1 (2 ^ 53 - 1) "fencing token"
  let expires ← representable (now + request.seconds * 1_000_000)
  return ⟨request.space, request.item, request.principal, request.identity, fence, expires⟩

/-- What a release of a work item is given. -/
structure ReleaseRequest where
  principal : String
  space : String
  context : List String
  item : String
  seconds : ℤ
  leaseId : String
  fencingToken : Option ℤ

/-- The release of a work item. -/
def releaseLease (config : Config) (leases : List Lease) (now : ℤ) (request : ReleaseRequest) :
    Py Lease := do
  let _ ← text request.item "work item" 128
  let _ ← count request.seconds 1 3600 "lease seconds"
  let _ ← spaceSettings config request.space request.context
  match findLease leases request.space request.item with
  | none => throw (.staleGeneration "stale_fencing_token")
  | some row =>
    Py.require (row.principal = request.principal ∧ some row.fence = request.fencingToken ∧
      row.leaseId = request.leaseId) (.staleGeneration "stale_fencing_token")
    return { row with expires := now }

/-- What a write declares about its lease. -/
structure Claimed where
  space : String
  item : String
  fencingToken : Option ℤ
  leaseId : String

/-- The test of `_fence` on a row of the table. -/
def accepts (leases : List Lease) (now : ℤ) (principal : String) (claimed : Claimed) : Bool :=
  match findLease leases claimed.space claimed.item with
  | none => false
  | some row => row.principal = principal ∧ some row.fence = claimed.fencingToken ∧
      row.leaseId = claimed.leaseId ∧ now < row.expires

/-- `_fence`. -/
def fence (leases : List Lease) (now : ℤ) (settings : Space) (principal : String) (claimed : Claimed) :
    Py Unit :=
  if settings.level ≠ .sequenced then .ok ()
  else if claimed.item.isEmpty then .error (.staleGeneration "lease_required")
  else Py.require (accepts leases now principal claimed) (.staleGeneration "stale_fencing_token")

variable {leases : List Lease} {config : Config} {now : ℤ} {lease : Lease}

theorem findLease_eq_some {space item : String} {row : Lease} (h : findLease leases space item = some row) :
    row ∈ leases ∧ row.space = space ∧ row.item = item := by
  refine ⟨List.mem_of_find?_eq_some h, ?_⟩
  have hkey := List.find?_some h
  rw [decide_eq_true_eq] at hkey
  exact hkey

theorem findLease_map (leases : List Lease) (lease : Lease) (space item : String) :
    findLease (leases.map fun row ↦
        if row.space = lease.space ∧ row.item = lease.item then lease else row) space item =
      if lease.space = space ∧ lease.item = item then (findLease leases space item).map fun _ ↦ lease
      else findLease leases space item := by
  induction leases with
  | nil => simp [findLease]
  | cons row leases ih =>
    unfold findLease at ih ⊢
    rw [List.map_cons, List.find?_cons, List.find?_cons, ih]
    by_cases hrow : row.space = lease.space ∧ row.item = lease.item
    · by_cases hkey : lease.space = space ∧ lease.item = item
      · simp [hrow, hkey]
      · simp [hrow, hkey]
    · by_cases hfound : row.space = space ∧ row.item = item
      · have hkey : ¬(lease.space = space ∧ lease.item = item) := by
          rintro ⟨hspace, hitem⟩
          exact hrow ⟨hfound.1.trans hspace.symm, hfound.2.trans hitem.symm⟩
        rw [if_neg hrow]
        simp [hkey, hfound]
      · simp [hrow, hfound]

theorem findLease_putLease (leases : List Lease) (lease : Lease) (space item : String) :
    findLease (putLease leases lease) space item =
      if lease.space = space ∧ lease.item = item then some lease else findLease leases space item := by
  unfold putLease
  by_cases hkey : lease.space = space ∧ lease.item = item
  · obtain ⟨rfl, rfl⟩ := hkey
    have hself : lease.space = lease.space ∧ lease.item = lease.item := ⟨rfl, rfl⟩
    rw [if_pos hself]
    split_ifs with hsome
    · obtain ⟨row, hrow⟩ := Option.isSome_iff_exists.mp hsome
      rw [findLease_map, if_pos hself, hrow, Option.map_some]
    · rw [Bool.not_eq_true, Option.isSome_eq_false_iff, Option.isNone_iff_eq_none] at hsome
      unfold findLease at hsome ⊢
      rw [List.find?_append, hsome]
      simp
  · rw [if_neg hkey]
    split_ifs
    · rw [findLease_map, if_neg hkey]
    · unfold findLease
      rw [List.find?_append]
      simp [hkey]

theorem grantLease_spec {request : LeaseRequest} (h : grantLease config leases now request = .ok lease) :
    lease.space = request.space ∧ lease.item = request.item ∧ lease.principal = request.principal ∧
      lease.leaseId = request.identity ∧ now < lease.expires ∧
      (findLease leases request.space request.item).all (fun row ↦ row.expires ≤ now) = true ∧
      lease.fence = (findLease leases request.space request.item).elim 1 fun row ↦ row.fence + 1 := by
  simp only [grantLease, Py.bind_eq_ok_iff, Py.require_eq_ok_iff, Py.pure_eq_ok, Except.ok.injEq,
    count_eq_ok_iff, representable_eq_ok_iff] at h
  obtain ⟨_, -, _, ⟨hseconds, -⟩, _, -, _, hexpired, _, -, fence, ⟨-, rfl⟩, expires, ⟨-, rfl⟩, rfl⟩ := h
  refine ⟨rfl, rfl, rfl, rfl, ?_, ?_, rfl⟩
  · change now < now + request.seconds * 1_000_000
    omega
  · simpa only [not_lt] using hexpired

theorem releaseLease_spec {request : ReleaseRequest} (h : releaseLease config leases now request = .ok lease) :
    ∃ row, findLease leases request.space request.item = some row ∧ lease = { row with expires := now } := by
  simp only [releaseLease, Py.bind_eq_ok_iff] at h
  obtain ⟨_, -, _, -, _, -, h⟩ := h
  cases hrow : findLease leases request.space request.item with
  | none => simp [hrow] at h
  | some row =>
    simp only [hrow, Py.bind_eq_ok_iff, Py.pure_eq_ok, Except.ok.injEq] at h
    obtain ⟨_, -, rfl⟩ := h
    exact ⟨row, rfl, rfl⟩

theorem accepts_iff {principal : String} {claimed : Claimed} :
    accepts leases now principal claimed = true ↔
      ∃ row, findLease leases claimed.space claimed.item = some row ∧ row.principal = principal ∧
        some row.fence = claimed.fencingToken ∧ row.leaseId = claimed.leaseId ∧ now < row.expires := by
  unfold accepts
  cases findLease leases claimed.space claimed.item with
  | none => simp
  | some row => simp

end UniMem.TeamIsolation
