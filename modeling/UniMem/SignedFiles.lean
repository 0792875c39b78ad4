import UniMem.ChangeStream.Outbox
import UniMem.FrontierProtocol.History
import UniMem.FrontierProtocol.SignedRows
import UniMem.Library.Grouping

/-!
# Signed configuration files

Consent states, pinned agents and team policies are signed, written and read back. The writers bound the canonical
text, and the readers the bytes of the file, which are more.
-/

namespace UniMem.SignedFiles

open Library FrontierProtocol MemoryAuthority ChangeStream

/-- What the readers and writers of signed files run with. -/
structure Keeper where
  runtime : Runtime
  signing : Signing
  writer : Writer
  operator : Bool
  /-- `_root_key`. -/
  rootKey : Py Bytes
  /-- `json.loads`. -/
  loads : Bytes → Option Json

/-- `fp.sign` where the key is there. -/
def sign (keeper : Keeper) (record : Row) : Py Row := do
  let _ ← wire (.obj record)
  bindWith keeper.runtime keeper.signing keeper.writer record

/-- `value[name]`. -/
def item (value : Json) (name : String) : Py Json :=
  match value with
  | .obj fields => field fields name
  | _ => .error (.typeError "indices must be integers or slices")

/-- `dict(value)`. -/
def dict : Json → Py Row
  | .obj fields => .ok fields
  | _ => .error (.typeError "cannot convert dictionary update sequence")

/-- `len(value)`. -/
def len : Json → Py ℤ
  | .obj fields => .ok fields.length
  | .arr items => .ok items.length
  | .str text => .ok text.length
  | _ => .error (.typeError "object has no len()")

/-- What the readers of signed records differ in. -/
structure Reader where
  bound : ℕ
  exceeds : PyError
  /-- What the record has to be. -/
  accepts : Row → Bool
  rejected : PyError

/-- The record of a file that is within its bound, verifies and is what it has to be. -/
def readSigned (keeper : Keeper) (reader : Reader) (raw : Bytes) : Py Row :=
  if reader.bound < raw.length then .error reader.exceeds
  else
    match keeper.loads raw with
    | some (.obj signed) => do
      let verified ← verify keeper.runtime keeper.signing signed
      Py.require verified reader.rejected
      let record ← dict (← field signed "record")
      Py.require (reader.accepts record) reader.rejected
      return record
    | some _ => .error (.attributeError "object has no attribute 'get'")
    | none => .error (.valueError "Expecting value")

def consentType : String := "unimem.consent-state.v1"

def consentReader : Reader where
  bound := maxBytes
  exceeds := .permissionError "UniMem consent state exceeds its bound"
  accepts := fun record ↦ Origin.isText (record.lookup "type") consentType
  rejected := .permissionError "UniMem consent state signature is invalid"

/-- `len(record[name])`. -/
def lenOf (record : Row) (name : String) : Py ℤ := do
  len (← field record name)

/-- The counts that `_load_state` checks. -/
def checkCounts (record : Row) : Py Unit := do
  let _ ← count (← lenOf record "resources") 0 4096 "count"
  let _ ← count (← lenOf record "receipts") 0 1024 "count"
  return ()

/-- `purpose._load_state`. -/
def loadState (keeper : Keeper) : Option Bytes → Py Row
  | none => .ok [("type", .str consentType), ("receipts", .obj []), ("resources", .obj [])]
  | some raw => do
    let record ← readSigned keeper consentReader raw
    checkCounts record
    return record

/-- `purpose._save`: the file that it writes. -/
def saveState (keeper : Keeper) (state : Row) : Py Bytes := do
  let signed ← sign keeper state
  let _ ← wire (.obj signed)
  return writeJson (.obj signed)

def configPrefix : Bytes := Json.utf8 "unimem.capability.config.v1" ++ [0]

/-- The signature of a configuration. -/
def configSignature (keeper : Keeper) (key encoded : Bytes) : String :=
  keeper.runtime.hmacSha256 key (configPrefix ++ encoded)

/-- What `capability_io._save` writes of a configuration. -/
def signedConfig (keeper : Keeper) (key : Bytes) (value : Row) : Row :=
  [("record", .obj value), ("signature", .str (configSignature keeper key (canonicalBytes (.obj value))))]

/-- `capability_io._save`: the file that it writes. -/
def saveConfig (keeper : Keeper) (value : Row) : Py Bytes := do
  let _ ← wire (.obj value)
  let key ← keeper.rootKey
  return writeJson (.obj (signedConfig keeper key value))

/-- `hmac.compare_digest` of a text and a field. -/
def compareDigest (expected : String) : Json → Py Bool
  | .str text => .ok (expected = text)
  | _ => .error (.typeError "unsupported operand types")

/-- `capability_io._config`. -/
def readConfig (keeper : Keeper) : Option Bytes → Py Row
  | none => .ok [("agents", .obj []), ("issuers", .obj [])]
  | some raw =>
    if 1_048_576 < raw.length then .error (.valueError "UniMem delegation configuration exceeds its bound")
    else do
      let signed ← loads keeper.runtime raw
      let body ← item signed "record"
      let key ← keeper.rootKey
      let encoded ← wire body
      let same ← compareDigest (configSignature keeper key encoded) (← item signed "signature")
      Py.require same (.permissionError "UniMem delegation configuration signature rejected")
      dict body

def policyReader : Reader where
  bound := 128 * 1024
  exceeds := .valueError "UniMem team policy exceeds its bound"
  accepts := fun record ↦ Origin.isText (record.lookup "type") "unimem.team-policy" &&
    equalsInt (record.lookup "version") 1
  rejected := .permissionError "UniMem team policy signature is invalid"

/-- `team_io.config`. -/
def readPolicy (keeper : Keeper) : Option Bytes → Py Row
  | none => .ok []
  | some raw => do
    let record ← readSigned keeper policyReader raw
    dict (← field record "spaces")

/-- `LEVELS`. -/
def levels : List String := ["none", "snapshot", "serializable", "sequenced"]

/-- The spaces after `team_io.isolation`. -/
def policyAfter (keeper : Keeper) (file : Option Bytes) (space level : String) (scopes : List String) : Py Row := do
  let _ ← text space "space" 128
  Py.require keeper.operator (.permissionError "UniMem operation requires an undelegated operator context")
  Py.require (level ∈ levels) (.valueError "UniMem isolation must be none, snapshot, serializable or sequenced")
  let _ ← count scopes.length 0 64 "count"
  let labels ← Py.collect (Py.always fun label ↦ text label "scope" 256) scopes
  let spaces ← readPolicy keeper file
  Py.require (space ∈ spaces.map Prod.fst ∨ spaces.length < 64)
    (.valueError "UniMem at most 64 team spaces are supported")
  return assign space (.obj [("level", .str level), ("scopes", .arr ((sortBy id labels.dedup).map .str))]) spaces

/-- The record of a team policy. -/
def policyRecord (spaces : Row) : Row :=
  [("type", .str "unimem.team-policy"), ("version", .int 1), ("spaces", .obj spaces)]

/-- `team_io.isolation` with a level: the file that it writes. -/
def isolation (keeper : Keeper) (file : Option Bytes) (space level : String) (scopes : List String) : Py Bytes := do
  let spaces ← policyAfter keeper file space level scopes
  let signed ← sign keeper (policyRecord spaces)
  return writeJson (.obj signed)

/-- A call returns a record, with its keys sorted. -/
def Returns (call : Py Row) (record : Row) : Prop := ∃ found, call = .ok found ∧ Json.obj found =
    (Json.obj record).sortKeys

/-- `json.loads` reads the file of a value back. -/
def Keeper.Reads (keeper : Keeper) (value : Json) : Prop :=
  keeper.loads (writeJson value) = some value.sortKeys ∧
    keeper.runtime.jsonLoads (writeJson value) = some value.sortKeys

variable {keeper : Keeper} {record signed found : Row} {reader : Reader}

theorem sign_eq_ok (h : sign keeper record = .ok signed) :
    Wirable (.obj record) ∧ bindWith keeper.runtime keeper.signing keeper.writer record = .ok signed := by
  obtain ⟨encoded, hencoded, h⟩ := Py.of_bind h
  exact ⟨(wire_eq_ok_iff.mp hencoded).1, h⟩

theorem readSigned_eq_ok_iff (hed : keeper.runtime.Ed25519Correct) (hpinned : keeper.signing.Pinned keeper.runtime)
    (h : sign keeper record = .ok signed) (hreads : keeper.Reads (.obj signed)) :
    readSigned keeper reader (writeJson (.obj signed)) = .ok found ↔
      (writeJson (.obj signed)).length ≤ reader.bound ∧ reader.accepts found = true ∧
        Json.obj found = (Json.obj record).sortKeys := by
  obtain ⟨-, hbind⟩ := sign_eq_ok h
  obtain ⟨digest, signature, rfl⟩ := exists_signedRow_of_bindWith hbind
  have hverify := verify_bindWith hed hpinned hbind
  have hloads := hreads.1
  rw [sortKeys_signedRow] at hloads
  rw [← verify_loadedRow] at hverify
  have hrecord : ∀ sorted, (Json.obj record).sortKeys = .obj sorted →
    (loadedRow keeper.signing.algorithm (.obj record)
      keeper.writer.principal keeper.writer.authority.name digest signature).lookup "record" =
        some (.obj sorted) := by
    intro sorted hsorted
    cases keeper.signing.algorithm <;> simp [loadedRow, List.lookup_cons, hsorted]
  obtain ⟨sorted, hsorted⟩ : ∃ sorted, (Json.obj record).sortKeys = .obj sorted := ⟨_, rfl⟩
  unfold readSigned
  by_cases hlong : reader.bound < (writeJson (.obj (signedRow keeper.signing.algorithm (.obj record)
      keeper.writer.principal keeper.writer.authority.name digest signature))).length
  · rw [if_pos hlong]
    exact iff_of_false (by simp) fun hall ↦ absurd hall.1 (not_le.mpr hlong)
  · rw [if_neg hlong, hloads, and_iff_right (not_lt.mp hlong), hsorted, Json.obj.injEq]
    dsimp only
    rw [hverify, Py.bind_ok, Py.require_true, Py.bind_ok, field, hrecord sorted hsorted, Py.bind_ok, dict, Py.bind_ok]
    simp only [Py.bind_eq_ok_iff, Py.require_eq_ok_iff, Py.pure_eq_ok, Except.ok.injEq]
    constructor
    · rintro ⟨_, haccepts, rfl⟩
      exact ⟨haccepts, rfl⟩
    · rintro ⟨haccepts, rfl⟩
      exact ⟨(), haccepts, rfl⟩

theorem len_map_sortKeys (value : Json) : len value.sortKeys = len value := by
  cases value with
  | obj fields =>
    rw [Json.sortKeys, len, len, List.length_insertionSort, Json.sortKeysFields_eq, List.length_map]
  | arr items => rw [Json.sortKeys, len, len, Json.sortKeysItems_eq, List.length_map]
  | _ => rfl

theorem lenOf_sorted (h : Json.obj found = (Json.obj record).sortKeys) (name : String) :
    lenOf found name = lenOf record name := by
  rw [lenOf, lenOf, field, field, lookup_of_sortKeys h]
  cases record.lookup name with
  | none => rfl
  | some value => exact len_map_sortKeys value

theorem checkCounts_sorted (h : Json.obj found = (Json.obj record).sortKeys) :
    checkCounts found = checkCounts record := by
  simp only [checkCounts, lenOf_sorted h]

theorem loadState_saved_iff (hed : keeper.runtime.Ed25519Correct) (hpinned : keeper.signing.Pinned keeper.runtime)
    {bytes : Bytes} (h : sign keeper record = .ok signed) (hsave : saveState keeper record = .ok bytes)
    (hreads : keeper.Reads (.obj signed)) :
    Returns (loadState keeper (some bytes)) record ↔
      (writeJson (.obj signed)).length ≤ maxBytes ∧ Origin.isText (record.lookup "type") consentType = true ∧
        checkCounts record = .ok () := by
  obtain ⟨other, hother, hsave⟩ := Py.of_bind hsave
  obtain rfl := Except.ok.inj (h.symm.trans hother)
  obtain ⟨_, hsave⟩ := Py.of_rest hsave
  obtain rfl := Except.ok.inj hsave
  have htype : ∀ found : Row, Json.obj found = (Json.obj record).sortKeys →
      Origin.isText (found.lookup "type") consentType = Origin.isText (record.lookup "type") consentType := by
    intro found hfound
    rw [lookup_of_sortKeys hfound, isText_map_sortKeys]
  constructor
  · rintro ⟨found, hfound, hsorted⟩
    obtain ⟨_, hread, hfound⟩ := Py.of_bind hfound
    obtain ⟨_, hcounts, hfound⟩ := Py.of_bind hfound
    obtain rfl := Except.ok.inj hfound
    obtain ⟨hlength, haccepts, -⟩ := (readSigned_eq_ok_iff hed hpinned h hreads).mp hread
    rw [checkCounts_sorted hsorted] at hcounts
    exact ⟨hlength, htype _ hsorted ▸ haccepts, hcounts⟩
  · rintro ⟨hlength, haccepts, hcounts⟩
    obtain ⟨sorted, hsorted⟩ : ∃ sorted, (Json.obj record).sortKeys = .obj sorted := ⟨_, rfl⟩
    refine ⟨sorted, Py.bind_eq_ok_iff.mpr ⟨sorted, (readSigned_eq_ok_iff hed hpinned h hreads).mpr
      ⟨hlength, (htype sorted hsorted.symm).trans haccepts, hsorted.symm⟩, ?_⟩, hsorted.symm⟩
    rw [checkCounts_sorted hsorted.symm, hcounts]
    rfl

theorem sortKeys_signedConfig (key : Bytes) (value : Row) :
    (Json.obj (signedConfig keeper key value)).sortKeys = .obj [("record", (Json.obj value).sortKeys),
      ("signature", .str (configSignature keeper key (canonicalBytes (.obj value))))] := by
  simp [signedConfig, Json.sortKeys, Json.sortKeysFields, List.insertionSort]

theorem saveConfig_eq_ok {key : Bytes} (h : Wirable (.obj record)) (hkey : keeper.rootKey = .ok key) :
    saveConfig keeper record = .ok (writeJson (.obj (signedConfig keeper key record))) := by
  rw [saveConfig, h.wire_eq, Py.bind_ok, hkey, Py.bind_ok, Py.pure_eq_ok]

theorem readConfig_saved_iff {key bytes : Bytes} (hkey : keeper.rootKey = .ok key)
    (hsave : saveConfig keeper record = .ok bytes) (hreads : keeper.Reads (.obj (signedConfig keeper key record))) :
    Returns (readConfig keeper (some bytes)) record ↔
      (writeJson (.obj (signedConfig keeper key record))).length ≤ 1_048_576 ∧
        Bounded (.obj (signedConfig keeper key record)) := by
  obtain ⟨_, hwire, hsave⟩ := Py.of_bind hsave
  obtain ⟨other, hother, hsave⟩ := Py.of_bind hsave
  obtain rfl := Except.ok.inj (hkey.symm.trans hother)
  obtain rfl := Except.ok.inj hsave
  obtain ⟨sorted, hsorted⟩ : ∃ sorted, (Json.obj record).sortKeys = .obj sorted := ⟨_, rfl⟩
  obtain ⟨hwirable, -⟩ := wire_eq_ok_iff.mp hwire
  have hloaded : ∀ value, loads keeper.runtime (writeJson (.obj (signedConfig keeper key record))) = .ok value ↔
      (writeJson (.obj (signedConfig keeper key record))).length ≤ maxBytes ∧
        Bounded (.obj (signedConfig keeper key record)) ∧
        value = (Json.obj (signedConfig keeper key record)).sortKeys := by
    intro value
    rw [loads_eq_ok_iff, hreads.2, Option.some.injEq]
    constructor
    · rintro ⟨hlength, rfl, hbounded⟩
      exact ⟨hlength, bounded_sortKeys_iff.mp hbounded, rfl⟩
    · rintro ⟨hlength, hbounded, rfl⟩
      exact ⟨hlength, rfl, bounded_sortKeys_iff.mpr hbounded⟩
  unfold Returns readConfig
  by_cases hlong : 1_048_576 < (writeJson (.obj (signedConfig keeper key record))).length
  · simp only [if_pos hlong]
    exact iff_of_false (by simp) fun hall ↦ absurd hall.1 (not_le.mpr hlong)
  · simp only [if_neg hlong]
    rw [and_iff_right (not_lt.mp hlong)]
    constructor
    · rintro ⟨found, hfound, -⟩
      obtain ⟨value, hvalue, -⟩ := Py.of_bind hfound
      exact ((hloaded value).mp hvalue).2.1
    · intro hbounded
      have hvalue := (hloaded _).mpr ⟨not_lt.mp hlong, hbounded, rfl⟩
      have hbody : wire (Json.obj record).sortKeys = .ok (canonicalBytes (.obj record)) := by
        rw [(hwirable.of_noLarger (noLarger_sortKeys _)).wire_eq, canonicalBytes_sortKeys]
      refine ⟨sorted, ?_, hsorted.symm⟩
      rw [hvalue, Py.bind_ok, sortKeys_signedConfig, item]
      simp only [field, List.lookup_cons, beq_self_eq_true, Py.bind_ok, hkey, hbody]
      simp [item, field, List.lookup_cons, compareDigest, hsorted, dict]

theorem sortKeys_policyRecord (spaces : Row) : (Json.obj (policyRecord spaces)).sortKeys =
    .obj [("spaces", (Json.obj spaces).sortKeys), ("type", .str "unimem.team-policy"), ("version", .int 1)] := by
  simp [policyRecord, Json.sortKeys, Json.sortKeysFields, List.insertionSort]

theorem readPolicy_saved_iff (hed : keeper.runtime.Ed25519Correct) (hpinned : keeper.signing.Pinned keeper.runtime)
    {file : Option Bytes} {space level : String} {scopes : List String} {spaces : Row} {bytes : Bytes}
    (hspaces : policyAfter keeper file space level scopes = .ok spaces)
    (h : sign keeper (policyRecord spaces) = .ok signed)
    (hsave : isolation keeper file space level scopes = .ok bytes) (hreads : keeper.Reads (.obj signed)) :
    Returns (readPolicy keeper (some bytes)) spaces ↔ (writeJson (.obj signed)).length ≤ 128 * 1024 := by
  obtain ⟨_, hafter, hsave⟩ := Py.of_bind hsave
  obtain rfl := Except.ok.inj (hspaces.symm.trans hafter)
  obtain ⟨_, hother, hsave⟩ := Py.of_bind hsave
  obtain rfl := Except.ok.inj (h.symm.trans hother)
  obtain rfl := Except.ok.inj hsave
  obtain ⟨sorted, hsorted⟩ : ∃ sorted, (Json.obj spaces).sortKeys = .obj sorted := ⟨_, rfl⟩
  have hread := fun found ↦ @readSigned_eq_ok_iff keeper (policyRecord spaces) signed found policyReader hed hpinned h
    hreads
  constructor
  · rintro ⟨found, hfound, -⟩
    obtain ⟨record, hrecord, -⟩ := Py.of_bind hfound
    exact ((hread record).mp hrecord).1
  · intro hlength
    have hrecord := (hread _).mpr ⟨hlength, rfl, (sortKeys_policyRecord spaces).symm⟩
    refine ⟨sorted, Py.bind_eq_ok_iff.mpr ⟨_, hrecord, ?_⟩, hsorted.symm⟩
    simp [field, hsorted, dict]

theorem length_lineBreak (level : ℕ) : (lineBreak level).length = 1 + 2 * level := by
  rw [lineBreak, List.length_cons, List.length_replicate, Nat.add_comm]

theorem length_indentedItems (level : ℕ) (items : List Json) : (indentedItems level items).length =
    (items.map fun item ↦ 2 + 2 * level + (indented level item).length).sum := by
  induction items with
  | nil => rfl
  | cons item items ih =>
    rw [indentedItems, List.map_cons, List.sum_cons, ← ih]
    simp only [List.length_cons, List.length_append, length_lineBreak]
    omega

theorem length_indentedFields (level : ℕ) (fields : Row) : (indentedFields level fields).length =
    (fields.map fun field ↦ 4 + 2 * level + (Json.quote field.1).length + (indented level field.2).length).sum := by
  induction fields with
  | nil => rfl
  | cons field fields ih =>
    rw [indentedFields, List.map_cons, List.sum_cons, ← ih]
    simp only [List.length_cons, List.length_append, length_lineBreak, List.length_nil]
    omega

theorem length_indented_arr (level : ℕ) {items : List Json} (h : items ≠ []) : (indented level (.arr items)).length =
    2 + 2 * level + (items.map fun item ↦ 2 + 2 * (level + 1) + (indented (level + 1) item).length).sum := by
  obtain ⟨item, items, rfl⟩ := List.exists_cons_of_ne_nil h
  rw [indented, List.map_cons, List.sum_cons, ← length_indentedItems]
  simp only [List.length_cons, List.length_append, length_lineBreak, List.length_nil]
  omega

theorem length_indented_obj (level : ℕ) {fields : Row} (h : fields ≠ []) : (indented level (.obj fields)).length =
    2 + 2 * level + (fields.map fun field ↦ 4 + 2 * (level + 1) + (Json.quote field.1).length +
      (indented (level + 1) field.2).length).sum := by
  obtain ⟨field, fields, rfl⟩ := List.exists_cons_of_ne_nil h
  rw [indented, List.map_cons, List.sum_cons, ← length_indentedFields]
  simp only [List.length_cons, List.length_append, length_lineBreak, List.length_nil]
  omega

theorem length_indented_sortKeys (level : ℕ) (value : Json) :
    (indented level value.sortKeys).length = (indented level value).length := by
  induction value using Json.children_induction generalizing level with
  | step value ih =>
    cases value with
    | arr items =>
      rcases eq_or_ne items [] with rfl | hne
      · rfl
      · have hne' : items.map Json.sortKeys ≠ [] := by simpa using hne
        rw [Json.sortKeys, Json.sortKeysItems_eq, length_indented_arr level hne', length_indented_arr level hne,
          List.map_map]
        refine congrArg _ (congrArg _ (List.map_congr_left fun item hitem ↦ ?_))
        exact congrArg _ (ih item hitem _)
    | obj fields =>
      rcases eq_or_ne fields [] with rfl | hne
      · rfl
      · have hperm := List.perm_insertionSort (fun a b : String × Json ↦ a.1 ≤ b.1) (Json.sortKeysFields fields)
        have hne' : (Json.sortKeysFields fields).insertionSort (fun a b ↦ a.1 ≤ b.1) ≠ [] := by
          intro hnil
          rw [hnil, Json.sortKeysFields_eq] at hperm
          exact hne (by simpa using hperm.nil_eq.symm)
        rw [Json.sortKeys, length_indented_obj level hne', length_indented_obj level hne, (hperm.map _).sum_eq,
          Json.sortKeysFields_eq, List.map_map]
        refine congrArg _ (congrArg _ (List.map_congr_left fun field hfield ↦ ?_))
        exact congrArg _ (ih field.2 (List.mem_map.mpr ⟨field, hfield, rfl⟩) _)
    | _ => rfl

theorem size_obj_add_le {level : ℕ} {fields : Row} {extra : String × Json → ℕ}
    (h : ∀ field ∈ fields, size field.2 + extra field ≤ (indented (level + 1) field.2).length) :
    size (.obj fields) + (fields.map extra).sum ≤ (indented level (.obj fields)).length := by
  rcases eq_or_ne fields [] with rfl | hne
  · exact le_rfl
  · have hsize := size_obj_add_one hne
    have hsum : (fields.map fun field ↦ 1 + (Json.quote field.1).length + 1 + size field.2).sum +
        (fields.map extra).sum ≤ (fields.map fun field ↦ 4 + 2 * (level + 1) + (Json.quote field.1).length +
          (indented (level + 1) field.2).length).sum := by
      rw [← List.sum_map_add]
      refine List.sum_le_sum fun field hfield ↦ ?_
      have hfield := h field hfield
      omega
    rw [length_indented_obj level hne]
    omega

theorem size_arr_add_le {level : ℕ} {items : List Json}
    (h : ∀ item ∈ items, size item ≤ (indented (level + 1) item).length) :
    size (.arr items) + items.length * (3 + 2 * level) ≤ (indented level (.arr items)).length := by
  rcases eq_or_ne items [] with rfl | hne
  · rw [List.length_nil, Nat.zero_mul]
    exact Nat.le_of_eq rfl
  · have hsize := size_arr_add_one hne
    have hsum : (items.map fun item ↦ 1 + size item).sum + (items.map fun _ ↦ 3 + 2 * level).sum ≤
        (items.map fun item ↦ 2 + 2 * (level + 1) + (indented (level + 1) item).length).sum := by
      rw [← List.sum_map_add]
      refine List.sum_le_sum fun item hitem ↦ ?_
      have hitem := h item hitem
      omega
    rw [List.map_const', List.sum_replicate, smul_eq_mul] at hsum
    rw [length_indented_arr level hne]
    omega

theorem size_le_indented (level : ℕ) (value : Json) : size value ≤ (indented level value).length := by
  induction value using Json.children_induction generalizing level with
  | step value ih =>
    cases value with
    | arr items => exact (Nat.le_add_right _ _).trans (size_arr_add_le fun item hitem ↦ ih item hitem _)
    | obj fields =>
      exact (Nat.le_add_right _ _).trans (@size_obj_add_le level fields (fun _ ↦ 0) fun field hfield ↦
        ih field.2 (List.mem_map.mpr ⟨field, hfield, rfl⟩) _)
    | _ => exact Nat.le_of_eq rfl

namespace Sample

/-! Thirty-one agents with 128 labels of 256 bytes each. -/

def code (index : ℕ) : List Char := [Char.ofNat (97 + index / 16), Char.ofNat (97 + index % 16)]

def name (index : ℕ) : String := String.ofList (code index)

def label (index : ℕ) : String := String.ofList (code index ++ List.replicate 254 'x')

def hex (char : Char) : String := String.ofList (List.replicate 64 char)

def clearance : Json := .arr ((List.range 128).map fun index ↦ .str (label index))

def registration (index : ℕ) : Row :=
  [("id", .str (name index)), ("principal", .str (name index)), ("algorithm", .str "ed25519"),
    ("secret_file", .str ""), ("public_key", .str (hex '0')), ("key_commitment", .str (hex '1')),
    ("clearance", clearance), ("authority", .str "agent"), ("require_capability", .bool true)]

def agents : Row := (List.range 31).map fun index ↦ (name index, .obj (registration index))

def crowded : Row := [("agents", .obj agents), ("issuers", .obj [])]

theorem length_escape_letter : ∀ index < 16, (Json.escape (Char.ofNat (97 + index))).length = 1 := by decide

theorem escape_code (index : ℕ) (h : index < 128) : ∀ char ∈ code index, (Json.escape char).length = 1 := by
  rw [code, List.forall_mem_cons, List.forall_mem_singleton]
  exact ⟨length_escape_letter _ (by omega), length_escape_letter _ (by omega)⟩

theorem length_label {index : ℕ} (h : index < 128) : (Json.quote (label index)).length = 258 := by
  rw [Json.length_quote_of_plain]
  · rw [label, String.length_ofList, List.length_append, List.length_replicate]
    rfl
  · intro char hchar
    rw [label, String.toList_ofList] at hchar
    obtain hcode | hfill := List.mem_append.mp hchar
    · exact escape_code index h char hcode
    · rw [List.eq_of_mem_replicate hfill]
      decide

theorem length_name {index : ℕ} (h : index < 128) : (Json.quote (name index)).length = 4 := by
  rw [Json.length_quote_of_plain]
  · rw [name, String.length_ofList]
    rfl
  · intro char hchar
    rw [name, String.toList_ofList] at hchar
    exact escape_code index h char hchar

theorem size_clearance : size clearance = 33_153 := by
  have hsize := @size_arr_add_one ((List.range 128).map fun index ↦ .str (label index)) (by simp)
  have hsum : (((List.range 128).map fun index ↦ Json.str (label index)).map fun item ↦ 1 + size item).sum =
      128 * 259 := by
    rw [List.map_map, List.sum_eq_card_nsmul _ 259, List.length_map, List.length_range, smul_eq_mul]
    rw [List.forall_mem_map]
    intro index hindex
    rw [Function.comp_apply, size_str, length_label (List.mem_range.mp hindex)]
  rw [clearance]
  omega

theorem size_registration {index : ℕ} (h : index < 128) : size (.obj (registration index)) = 33_443 := by
  have hsize := @size_obj_eq (registration index) (List.cons_ne_nil _ _)
  have hkeys : (((registration index).map Prod.fst).map fun key ↦ 2 + (Json.quote key).length).sum = 127 := by
    change ((["id", "principal", "algorithm", "secret_file", "public_key", "key_commitment", "clearance", "authority",
      "require_capability"] : List String).map fun key ↦ 2 + (Json.quote key).length).sum = 127
    decide +kernel
  have hvalues : ((registration index).map Prod.snd).map size = [size (.str (name index)), size (.str (name index)),
      size (.str "ed25519"), size (.str ""), size (.str (hex '0')), size (.str (hex '1')), size clearance,
      size (.str "agent"), size (.bool true)] := rfl
  have hfixed : size (.str "ed25519") = 9 ∧ size (.str "") = 2 ∧ size (.str (hex '0')) = 66 ∧
      size (.str (hex '1')) = 66 ∧ size (.str "agent") = 7 ∧ size (.bool true) = 4 := by decide +kernel
  rw [hkeys, hvalues] at hsize
  simp only [List.sum_cons, List.sum_nil, hfixed, size_str (name index), length_name h, size_clearance] at hsize
  omega

theorem agents_ne_nil : agents ≠ [] := List.ne_nil_of_length_pos (by rw [agents, List.length_map]; decide)

theorem size_agents : size (.obj agents) = 1_036_920 := by
  have hagents := size_obj_add_one agents_ne_nil
  have hsum : (agents.map fun field ↦ 1 + (Json.quote field.1).length + 1 + size field.2).sum = 31 * 33_449 := by
    rw [agents, List.map_map, List.sum_eq_card_nsmul _ 33_449, List.length_map, List.length_range, smul_eq_mul]
    rw [List.forall_mem_map]
    intro index hindex
    have hsmall : index < 128 := (List.mem_range.mp hindex).trans (by decide)
    rw [Function.comp_apply, length_name hsmall, size_registration hsmall]
  omega

theorem size_crowded : size (.obj crowded) = 1_036_944 := by
  have hsize := @size_obj_eq crowded (List.cons_ne_nil _ _)
  have hkeys : ((crowded.map Prod.fst).map fun key ↦ 2 + (Json.quote key).length).sum = 21 := by
    change ((["agents", "issuers"] : List String).map fun key ↦ 2 + (Json.quote key).length).sum = 21
    decide +kernel
  have hvalues : (crowded.map Prod.snd).map size = [size (.obj agents), size (.obj [])] := rfl
  have hempty : size (.obj []) = 2 := rfl
  rw [hkeys, hvalues, size_agents, hempty] at hsize
  simp only [List.sum_cons, List.sum_nil] at hsize
  omega

theorem sum_map_range {α : Type} (measure : α → ℕ) (items : ℕ → α) (total : ℕ) {bound : ℕ}
    (h : ∀ index, measure (items index) = bound) :
    (((List.range total).map items).map measure).sum = total * bound := by
  have hmap : (List.range total).map (measure ∘ items) = (List.range total).map fun _ ↦ bound :=
    List.map_congr_left fun index _ ↦ h index
  rw [List.map_map, hmap, List.map_const', List.sum_replicate, List.length_range, smul_eq_mul]

theorem nodes_clearance : nodes clearance = 129 := by
  have hchildren : clearance.children = (List.range 128).map fun index ↦ .str (label index) := rfl
  rw [nodes_eq, hchildren, sum_map_range nodes _ 128 fun index ↦ (rfl : nodes (.str (label index)) = 1)]

theorem nodes_registration (index : ℕ) : nodes (.obj (registration index)) = 138 := by
  have hvalues : (Json.obj (registration index)).children = [.str (name index), .str (name index), .str "ed25519",
      .str "", .str (hex '0'), .str (hex '1'), clearance, .str "agent", .bool true] := rfl
  have htext : ∀ text, nodes (.str text) = 1 := fun _ ↦ rfl
  have hflag : nodes (.bool true) = 1 := rfl
  rw [nodes_eq, hvalues]
  simp only [List.map_cons, List.map_nil, List.sum_cons, List.sum_nil, htext, hflag, nodes_clearance, Nat.reduceAdd]

theorem children_agents : (Json.obj agents).children = (List.range 31).map fun index ↦ .obj (registration index) := by
  rw [Json.children, agents, List.map_map]
  rfl

theorem nodes_agents : nodes (.obj agents) = 4279 := by
  rw [nodes_eq, children_agents, sum_map_range nodes _ 31 nodes_registration]

theorem nodes_crowded : nodes (.obj crowded) = 4281 := by
  have hvalues : (Json.obj crowded).children = [.obj agents, .obj []] := rfl
  have hempty : nodes (.obj []) = 1 := rfl
  rw [nodes_eq, hvalues]
  simp only [List.map_cons, List.map_nil, List.sum_cons, List.sum_nil, hempty, nodes_agents, Nat.reduceAdd]

theorem plain_str (depth : ℕ) (text : String) (h : depth ≤ 64) : Json.Everywhere Plain depth (.str text) :=
  (Json.everywhere_iff _ _ _).mpr ⟨h, fun _ hnone ↦ absurd hnone List.not_mem_nil⟩

theorem plain_clearance (depth : ℕ) (h : depth ≤ 63) : Json.Everywhere Plain depth clearance := by
  rw [clearance, Json.everywhere_iff]
  refine ⟨h.trans (by decide), fun child hchild ↦ ?_⟩
  obtain ⟨index, -, rfl⟩ := List.mem_map.mp hchild
  exact plain_str _ _ (Nat.succ_le_succ h)

theorem plain_registration (index depth : ℕ) (h : depth ≤ 60) :
    Json.Everywhere Plain depth (.obj (registration index)) := by
  have hvalues : (Json.obj (registration index)).children = [.str (name index), .str (name index), .str "ed25519",
      .str "", .str (hex '0'), .str (hex '1'), clearance, .str "agent", .bool true] := rfl
  have htext : ∀ text, Json.Everywhere Plain (depth + 1) (.str text) := fun text ↦ plain_str _ _ (by omega)
  have hflag : Json.Everywhere Plain (depth + 1) (.bool true) :=
    (Json.everywhere_iff _ _ _).mpr ⟨(by omega : depth + 1 ≤ 64), fun _ hnone ↦ absurd hnone List.not_mem_nil⟩
  rw [Json.everywhere_iff, hvalues]
  refine ⟨(by omega : depth ≤ 64), ?_⟩
  simp only [List.forall_mem_cons]
  exact ⟨htext _, htext _, htext _, htext _, htext _, htext _, plain_clearance _ (by omega), htext _, hflag,
    fun _ hnone ↦ absurd hnone List.not_mem_nil⟩

theorem plain_crowded : Json.Everywhere Plain 0 (.obj crowded) := by
  have hvalues : (Json.obj crowded).children = [.obj agents, .obj []] := rfl
  rw [Json.everywhere_iff, hvalues, List.forall_mem_cons, List.forall_mem_singleton]
  refine ⟨(by decide : (0 : ℕ) ≤ 64), ?_, (Json.everywhere_iff _ _ _).mpr
    ⟨(by decide : (1 : ℕ) ≤ 64), fun _ hnone ↦ absurd hnone List.not_mem_nil⟩⟩
  rw [Json.everywhere_iff, children_agents]
  refine ⟨(by decide : (1 : ℕ) ≤ 64), fun child hchild ↦ ?_⟩
  obtain ⟨index, -, rfl⟩ := List.mem_map.mp hchild
  exact plain_registration index 2 (by decide)

theorem wirable_crowded : Wirable (.obj crowded) :=
  wirable_of_nodes plain_crowded (nodes_crowded.trans_le (by decide)) (size_crowded.trans_le (by decide))

theorem clearance_add_le (level : ℕ) : size clearance + 128 * (3 + 2 * level) ≤
    (indented level clearance).length := by
  have hitems := @size_arr_add_le level ((List.range 128).map fun index ↦ .str (label index)) fun item _ ↦
    size_le_indented _ item
  rw [List.length_map, List.length_range] at hitems
  exact hitems

theorem registration_add_le (index level : ℕ) : size (.obj (registration index)) + 128 * (5 + 2 * level) ≤
    (indented level (.obj (registration index))).length := by
  have hfields := @size_obj_add_le level (registration index)
    (fun field ↦ if field.1 = "clearance" then 128 * (3 + 2 * (level + 1)) else 0) (by
      intro field hfield
      by_cases hname : field.1 = "clearance"
      · rw [if_pos hname]
        have hvalue : field.2 = clearance := by
          simp only [registration, List.mem_cons, List.not_mem_nil, or_false] at hfield
          obtain rfl | rfl | rfl | rfl | rfl | rfl | rfl | rfl | rfl := hfield <;>
            first | rfl | exact absurd hname (by simp)
        rw [hvalue]
        exact clearance_add_le _
      · rw [if_neg hname]
        exact size_le_indented _ _)
  have hsum : ((registration index).map fun field ↦
      if field.1 = "clearance" then 128 * (3 + 2 * (level + 1)) else 0).sum = 128 * (3 + 2 * (level + 1)) := by
    simp [registration]
  omega

theorem length_agents_le (keeper : Keeper) (key : Bytes) (fields : Row) : (indented 2 (.obj fields)).length ≤
    (writeJson (.obj (signedConfig keeper key [("agents", .obj fields), ("issuers", .obj [])]))).length := by
  have hcrowded := length_indented_obj 1 (List.cons_ne_nil ("agents", Json.obj fields) [("issuers", .obj [])])
  have hsigned := length_indented_obj 0 (List.cons_ne_nil
    ("record", Json.obj [("agents", .obj fields), ("issuers", .obj [])]) [("signature",
      .str (configSignature keeper key (canonicalBytes (.obj [("agents", .obj fields), ("issuers", .obj [])]))))])
  rw [List.map_cons, List.sum_cons] at hcrowded hsigned
  simp only [Nat.reduceAdd] at hcrowded hsigned
  rw [writeJson, List.length_append, length_indented_sortKeys, signedConfig]
  omega

theorem crowded_too_long (keeper : Keeper) (key : Bytes) :
    1_048_576 < (writeJson (.obj (signedConfig keeper key crowded))).length := by
  have hagents := @size_obj_add_le 2 agents (fun _ ↦ 128 * 11) (by
    rw [agents, List.forall_mem_map]
    exact fun index _ ↦ registration_add_le index 3)
  have hextra : (agents.map fun _ ↦ 128 * 11).sum = 43_648 := by
    rw [List.map_const', List.sum_replicate, agents, List.length_map, List.length_range, smul_eq_mul]
  rw [size_agents, hextra] at hagents
  exact lt_of_lt_of_le (by decide) (hagents.trans (length_agents_le keeper key agents))

def holder (value : Json) : Keeper where
  runtime := { Runtime.hashing [] with
    jsonLoads := fun bytes ↦ if bytes = writeJson value then some value.sortKeys else none }
  signing := ⟨.hmacSha256, none, some (List.replicate 32 0), none⟩
  writer := ⟨"operator", .operator, List.replicate 32 0, length_zeros⟩
  operator := true
  rootKey := .ok (List.replicate 32 0)
  loads := fun bytes ↦ if bytes = writeJson value then some value.sortKeys else none

theorem reads_holder (value : Json) : (holder value).Reads value := ⟨if_pos rfl, if_pos rfl⟩

def unused : Row := [("agents", .obj []), ("issuers", .obj [])]

def unusedKeeper : Keeper := holder (.obj (signedConfig (holder .null) (List.replicate 32 0) unused))

end Sample

end UniMem.SignedFiles
