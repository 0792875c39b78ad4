import UniMem.ChangeStream.Obligations
import UniMem.FrontierProtocol.Journal
import UniMem.FrontierProtocol.SignedRows
import UniMem.Library.Base64

/-!
# Cursors of a change stream

A cursor is the signed record of a position, bound to its subscription and filters. Within seven days every cursor
that was issued is read.
-/

namespace UniMem.ChangeStream

open Library FrontierProtocol MemoryAuthority

/-- What signs cursors and reads them: keys, the writer, a clock and `json.loads`. -/
structure Signer where
  runtime : Runtime
  signing : Signing
  writer : Writer
  now : ℤ
  isoformat : ℤ → String
  fromisoformat : String → Option ℤ
  loads : Bytes → Option Json

def sevenDays : ℤ := 7 * 86400 * microseconds

/-- `sub["filters"]`. -/
def Subscription.filters (subscription : Subscription) : Json :=
  .obj [("namespace", .str subscription.nameSpace), ("entity", .str subscription.entity),
    ("predicate", .str subscription.predicate)]

/-- The record of a cursor. -/
def cursorRecord (signer : Signer) (identity filters : String) (position : ℕ) : Row :=
  [("type", .str "unimem.stream-cursor"), ("version", .int 1), ("subscription", .str identity),
    ("position", .int position), ("filters", .str filters),
    ("expires_at", .str (signer.isoformat (signer.now + sevenDays)))]

/-- `_cursor`. -/
def cursorOf (signer : Signer) (identity : String) (subscription : Subscription) (position : ℕ) : Py String := do
  let filters ← digest signer.runtime subscription.filters
  let _ ← wire (.obj (cursorRecord signer identity filters position))
  let signed ← bindWith signer.runtime signer.signing signer.writer (cursorRecord signer identity filters position)
  let encoded ← wire (.obj signed)
  return String.ofList (Base64.encode encoded)

/-- `signed["record"]` of what a cursor decodes to. -/
def decodeCursor (signer : Signer) (cursor : String) : Py (Row × Json) :=
  match (Base64.decodePadded cursor.toList).bind signer.loads with
  | some (.obj signed) =>
    match signed.lookup "record" with
    | some record => .ok (signed, record)
    | none => .error (.keyError "record")
  | some _ => .error (.typeError "indices must be integers or slices")
  | none => .error (.valueError "invalid cursor text")

/-- The text of a field that `datetime.fromisoformat` reads. -/
def moment (signer : Signer) (record : Row) (name : String) : Py ℤ := do
  match ← field record name with
  | .str text =>
    match signer.fromisoformat text with
    | some moment => .ok moment
    | none => .error (.valueError "Invalid isoformat string")
  | _ => .error (.typeError "fromisoformat: argument must be str")

def unbound : PyError := .valueError "binding"

/-- The checks on the record of a cursor, and its position. -/
def boundPosition (signer : Signer) (identity : String) (subscription : Subscription) : Json → Py ℤ
  | .obj record => do
    Py.require (Origin.isText (record.lookup "type") "unimem.stream-cursor") unbound
    Py.require (equalsInt (record.lookup "version") 1) unbound
    let expires ← moment signer record "expires_at"
    Py.require (signer.now < expires) unbound
    Py.require (Origin.isText (record.lookup "subscription") identity) unbound
    let filters ← digest signer.runtime subscription.filters
    Py.require (Origin.isText (record.lookup "filters") filters) unbound
    countArgument (← field record "position") 0 maxRows "count"
  | _ => .error (.attributeError "object has no attribute 'get'")

/-- What a cursor says once its signature is verified. -/
def readCursor (signer : Signer) (identity : String) (subscription : Subscription) (cursor : String) : Py ℤ := do
  let (signed, record) ← decodeCursor signer cursor
  let verified ← verify signer.runtime signer.signing signed
  Py.require verified unbound
  boundPosition signer identity subscription record

/-- The exceptions that `_position` turns into one. -/
def covered : PyError → Bool
  | .valueError _ | .typeError _ | .keyError _ => true
  | _ => false

/-- `_position`. -/
def positionOf (signer : Signer) (identity : String) (subscription : Subscription) (cursor : String) : Py ℤ :=
  if cursor = "" then .ok 0
  else do
    let _ ← text cursor "cursor" 8192
    match readCursor signer identity subscription cursor with
    | .ok position => .ok position
    | .error error => if covered error then .error (.valueError "UniMem invalid stream cursor") else .error error

/-- A text that is no smaller than any position. -/
def placeholder : Json := .str "000000000000000000000000"

theorem noLarger_placeholder {position : ℕ} (h : position ≤ maxRows) : NoLarger (.int position) placeholder := by
  have hbound : position ≤ 100000 := h
  have hbits : bitLength position ≤ 17 := by
    unfold bitLength
    split_ifs with hzero
    · exact Nat.zero_le _
    · have hlog : Nat.log2 position < 17 := (Nat.log2_lt hzero).mpr (hbound.trans_lt (by decide))
      omega
  have hdigits : position.repr.length ≤ 6 := (Nat.length_repr_le_iff (by decide)).mpr (hbound.trans_lt (by decide))
  have hsize : size (.int position) = (Json.utf8 position.repr).length := rfl
  have hbytes : ∀ chars : List Char, (chars.flatMap String.utf8EncodeChar).length ≤ 4 * chars.length := by
    intro chars
    induction chars with
    | nil => exact le_rfl
    | cons char chars ih =>
      have hchar := Char.utf8Size_le_four char
      rw [List.flatMap_cons, List.length_append, List.length_cons, String.length_utf8EncodeChar]
      omega
  refine ⟨le_rfl, ?_, ?_, ?_, ?_⟩
  · have hlarge : minimumBytes placeholder = 25 := by decide +kernel
    have hsmall : minimumBytes (.int position) = 1 + (bitLength position - 1) * 3 / 10 + 0 := rfl
    omega
  · have hpower : 10 ^ 6 ≤ 10 ^ maxStrDigits := Nat.pow_le_pow_right (by decide) (by decide)
    have hsmall : ¬10 ^ maxStrDigits ≤ position := by omega
    have hzero : unconvertible (.int position) = if 10 ^ maxStrDigits ≤ position then 1 else 0 := rfl
    rw [hzero, if_neg hsmall]
    exact Nat.zero_le _
  · have hlarge : size placeholder = 26 := by decide +kernel
    have htext := hbytes position.repr.toList
    rw [String.length_toList] at htext
    have hsame : (Json.utf8 position.repr).length = (position.repr.toList.flatMap String.utf8EncodeChar).length := rfl
    omega
  · exact fun _ hdepth ↦ hdepth

/-- The record of a cursor with the placeholder for its position. -/
def largestRecord (identity filters expires : String) : Json :=
  .obj [("type", .str "unimem.stream-cursor"), ("version", .int 1), ("subscription", .str identity),
    ("position", placeholder), ("filters", .str filters), ("expires_at", .str expires)]

theorem size_largestRecord (identity filters expires : String) :
    size (largestRecord identity filters expires) =
      (Json.quote identity).length + (Json.quote filters).length + (Json.quote expires).length + 122 := by
  have hsize := @size_obj_eq [("type", .str "unimem.stream-cursor"), ("version", .int 1),
    ("subscription", .str identity), ("position", placeholder), ("filters", .str filters),
    ("expires_at", .str expires)] (by simp)
  simp only [List.map_cons, List.map_nil, List.sum_cons, List.sum_nil, size_str, placeholder] at hsize
  have hkeys : (Json.quote "type").length = 6 ∧ (Json.quote "version").length = 9 ∧
      (Json.quote "subscription").length = 14 ∧ (Json.quote "position").length = 10 ∧
      (Json.quote "filters").length = 9 ∧ (Json.quote "expires_at").length = 12 := by decide +kernel
  have hvalues : (Json.quote "unimem.stream-cursor").length = 22 ∧ size (.int 1) = 1 ∧
      (Json.quote "000000000000000000000000").length = 26 := by decide +kernel
  rw [largestRecord, placeholder]
  omega

theorem noLarger_record {signer : Signer} {identity filters : String} {position : ℕ} (h : position ≤ maxRows) :
    NoLarger (.obj (cursorRecord signer identity filters position))
      (largestRecord identity filters (signer.isoformat (signer.now + sevenDays))) := by
  refine .obj (.cons ⟨rfl, .refl _⟩ (.cons ⟨rfl, .refl _⟩ (.cons ⟨rfl, .refl _⟩ (.cons ⟨rfl, ?_⟩ ?_))))
  · exact noLarger_placeholder h
  · exact List.forall₂_same.mpr fun field _ ↦ ⟨rfl, .refl field.2⟩

theorem plain_largestRecord (identity filters expires : String) :
    Json.Everywhere Plain 0 (largestRecord identity filters expires) := by
  simp [largestRecord, placeholder, Json.Everywhere, Json.EverywhereFields, Plain]

theorem plain_signedRow (algorithm : Origin.Algorithm) (identity filters expires principal authority digest
    signature : String) : Json.Everywhere Plain 0
      (.obj (signedRow algorithm (largestRecord identity filters expires) principal authority digest signature)) := by
  cases algorithm <;>
    simp [signedRow, largestRecord, placeholder, Json.Everywhere, Json.EverywhereFields, Plain]

/-- What cursors rest on: the signing key, bounded names, and texts of their usual lengths. -/
structure Signer.Ready (signer : Signer) (identity : String) (subscription : Subscription) (last : ℕ) : Prop where
  ed25519 : signer.runtime.Ed25519Correct
  pinned : signer.signing.Pinned signer.runtime
  keyed : ∃ bytes, key signer.signing signer.signing.algorithm = .ok (some bytes)
  identity_le : identity.length ≤ 512
  principal_le : signer.writer.principal.length ≤ 256
  filters : ∃ filters, digest signer.runtime subscription.filters = .ok filters
  digests : ∀ message, (Json.quote (signer.runtime.sha256 message)).length ≤ 66
  signatures : ∀ principal message, (Json.quote (Origin.signature signer.runtime principal message)).length ≤ 90
  expires : (Json.quote (signer.isoformat (signer.now + sevenDays))).length ≤ 34
  fromisoformat : signer.fromisoformat (signer.isoformat (signer.now + sevenDays)) = some (signer.now + sevenDays)
  loads : ∀ position ≤ last, ∀ filters signed, digest signer.runtime subscription.filters = .ok filters →
    bindWith signer.runtime signer.signing signer.writer (cursorRecord signer identity filters position) =
      .ok signed →
    signer.loads (canonicalBytes (.obj signed)) = some (Json.obj signed).sortKeys
  last_le : last ≤ maxRows

variable {signer : Signer} {identity filters : String} {subscription : Subscription} {last position : ℕ}

/-- The row of a record with its digest and its signature. -/
def Signer.row (signer : Signer) (record : Json) (digest signature : String) : Row :=
  signedRow signer.signing.algorithm record signer.writer.principal signer.writer.authority.name digest signature

theorem exists_signedRow (h : signer.Ready identity subscription last) (record : Row) :
    ∃ digest signature, bindWith signer.runtime signer.signing signer.writer record =
        .ok (signer.row (.obj record) digest signature) ∧
      (Json.quote digest).length ≤ 66 ∧ (Json.quote signature).length ≤ 90 := by
  obtain ⟨bytes, hkey⟩ := h.keyed
  have hlength : bytes.length = 32 := by
    unfold key at hkey
    split at hkey
    · cases hkey
    · split_ifs at hkey with hlength
      rw [← Option.some.inj (Except.ok.inj hkey)]
      exact not_not.mp hlength
  let principal : Origin.Principal :=
    ⟨signer.writer.principal, "local-store", signer.writer.authority.name, bytes, signer.signing.algorithm⟩
  let message := canonicalBytes (.obj (Origin.body signer.runtime (.obj record) principal))
  refine ⟨signer.runtime.sha256 (canonicalBytes (.obj record)), Origin.signature signer.runtime principal message,
    Py.bind_eq_ok_iff.mpr ⟨some bytes, hkey, Origin.bind_eq_ok_iff.mpr ⟨hlength.ge, ?_⟩⟩, h.digests _,
    h.signatures _ _⟩
  exact @signedRow_eq signer.runtime (.obj record) principal rfl _

theorem wirable_cursor (h : signer.Ready identity subscription last) (hposition : position ≤ last)
    (hfilters : digest signer.runtime subscription.filters = .ok filters) {first second : String}
    (hfirst : (Json.quote first).length ≤ 66) (hsecond : (Json.quote second).length ≤ 90) :
    Wirable (.obj (cursorRecord signer identity filters position)) ∧
      Wirable (.obj (signer.row (.obj (cursorRecord signer identity filters position)) first second)) ∧
      (canonicalBytes (.obj (signer.row (.obj (cursorRecord signer identity filters position)) first
        second))).length ≤ 6142 := by
  have hrecord := size_largestRecord identity filters (signer.isoformat (signer.now + sevenDays))
  have hrow := size_signedRow signer.signing.algorithm
    (largestRecord identity filters (signer.isoformat (signer.now + sevenDays))) signer.writer.principal
    signer.writer.authority first second
  have hidentity := quote_le_length identity
  have hprincipal := quote_le_length signer.writer.principal
  have hdigest : (Json.quote filters).length ≤ 66 := by
    rw [← (digest_eq_ok_iff.mp hfilters).2]
    exact h.digests _
  have hidentity' := h.identity_le
  have hprincipal' := h.principal_le
  have hexpires := h.expires
  have hsmall := @noLarger_record signer identity filters position (hposition.trans h.last_le)
  have hsigned := noLarger_signedRow hsmall signer.signing.algorithm signer.writer.principal
    signer.writer.authority.name first second
  have hlarge := wirable_of_size (plain_signedRow signer.signing.algorithm identity filters
    (signer.isoformat (signer.now + sevenDays)) signer.writer.principal signer.writer.authority.name first second)
    (by unfold maxNodes; omega)
  have hlarge' := wirable_of_size (plain_largestRecord identity filters (signer.isoformat (signer.now + sevenDays)))
    (by unfold maxNodes; omega)
  refine ⟨hlarge'.of_noLarger hsmall, hlarge.of_noLarger hsigned, ?_⟩
  have hle := hsigned.size_le
  rw [length_canonicalBytes, Signer.row]
  omega

theorem text_encode {bytes : Bytes} (hne : bytes ≠ []) (hlength : bytes.length ≤ 6142) :
    text (String.ofList (Base64.encode bytes)) "cursor" 8192 = .ok (String.ofList (Base64.encode bytes)) ∧
      String.ofList (Base64.encode bytes) ≠ "" := by
  have hsize : ∀ chars : List Char, (∀ char ∈ chars, char.utf8Size = 1) →
      (String.ofList chars).utf8ByteSize = chars.length := by
    intro chars hchars
    induction chars with
    | nil => rfl
    | cons char chars ih =>
      rw [List.forall_mem_cons] at hchars
      have hsingle : (String.ofList [char]).utf8ByteSize = char.utf8Size := String.utf8ByteSize_singleton
      rw [← List.singleton_append, String.ofList_append, String.utf8ByteSize_append, List.length_append,
        List.length_singleton, ih hchars.2, hsingle, hchars.1]
  have hbytes := hsize (Base64.encode bytes) (Base64.forall_mem_encode fun number hnumber ↦
    (Base64.digit_plain number hnumber).1)
  have hlong := Base64.length_encode bytes
  have hchars : Base64.encode bytes ≠ [] := by
    intro hnil
    have hread := Base64.decode_encode bytes
    rw [hnil] at hread
    exact hne (Option.some.inj hread).symm
  have hnonempty : String.ofList (Base64.encode bytes) ≠ "" := by
    intro hempty
    rw [← String.toList_inj, String.toList_ofList] at hempty
    exact hchars hempty
  refine ⟨text_eq_ok_iff.mpr ⟨?_, rfl⟩, hnonempty⟩
  rw [not_or, not_or, not_or]
  refine ⟨?_, ?_, ?_, ?_⟩
  · rw [String.isEmpty_iff]
    exact hnonempty
  · rw [String.length_ofList]
    omega
  · omega
  · rw [String.toList_ofList]
    have hplain : ∀ char ∈ Base64.encode bytes, char ≠ '\x00' :=
      Base64.forall_mem_encode fun number hnumber ↦ (Base64.digit_plain number hnumber).2.2
    exact fun hmem ↦ hplain _ hmem rfl

theorem canonicalBytes_obj_ne_nil (fields : Row) : canonicalBytes (.obj fields) ≠ [] := by
  rw [canonicalBytes, Json.sortKeys]
  cases (Json.sortKeysFields fields).insertionSort fun a b ↦ a.1 ≤ b.1 <;> exact List.cons_ne_nil _ _

theorem sortKeys_cursorRecord : (Json.obj (cursorRecord signer identity filters position)).sortKeys =
    .obj [("expires_at", .str (signer.isoformat (signer.now + sevenDays))), ("filters", .str filters),
      ("position", .int position), ("subscription", .str identity), ("type", .str "unimem.stream-cursor"),
      ("version", .int 1)] := by
  simp [cursorRecord, Json.sortKeys, Json.sortKeysFields, List.insertionSort]

theorem decodeCursor_eq {record : Json} {bytes : Bytes} {first second : String}
    (h : signer.loads bytes = some (.obj (loadedRow signer.signing.algorithm record signer.writer.principal
      signer.writer.authority.name first second))) :
    decodeCursor signer (String.ofList (Base64.encode bytes)) = .ok (loadedRow signer.signing.algorithm record
      signer.writer.principal signer.writer.authority.name first second, record.sortKeys) := by
  unfold decodeCursor
  rw [String.toList_ofList, Base64.decodePadded_encode, Option.bind_some, h]
  cases signer.signing.algorithm <;> simp [loadedRow, List.lookup_cons]

theorem boundPosition_eq (h : signer.Ready identity subscription last) (hposition : position ≤ last)
    (hfilters : digest signer.runtime subscription.filters = .ok filters) {later : ℤ}
    (hlater : later < signer.now + sevenDays) :
    boundPosition { signer with now := later } identity subscription
      (Json.obj (cursorRecord signer identity filters position)).sortKeys = .ok (position : ℤ) := by
  have hmoment : moment { signer with now := later } [("expires_at",
      .str (signer.isoformat (signer.now + sevenDays))), ("filters", .str filters), ("position", .int position),
      ("subscription", .str identity), ("type", .str "unimem.stream-cursor"), ("version", .int 1)] "expires_at" =
      .ok (signer.now + sevenDays) := by
    refine Py.bind_eq_ok_iff.mpr ⟨.str (signer.isoformat (signer.now + sevenDays)), rfl, ?_⟩
    dsimp only
    rw [h.fromisoformat]
  have hlast : (position : ℤ) ≤ maxRows := by exact_mod_cast hposition.trans h.last_le
  rw [sortKeys_cursorRecord, boundPosition]
  refine Py.bind_eq_ok_iff.mpr ⟨(), rfl, Py.bind_eq_ok_iff.mpr ⟨(), rfl, Py.bind_eq_ok_iff.mpr ⟨_, hmoment,
    Py.bind_eq_ok_iff.mpr ⟨(), Py.require_eq_ok_iff.mpr (decide_eq_true hlater), Py.bind_eq_ok_iff.mpr ⟨(),
      Py.require_eq_ok_iff.mpr (Origin.isText_iff.mpr rfl), Py.bind_eq_ok_iff.mpr ⟨filters, hfilters,
        Py.bind_eq_ok_iff.mpr ⟨(), Py.require_eq_ok_iff.mpr (Origin.isText_iff.mpr rfl),
          Py.bind_eq_ok_iff.mpr ⟨.int position, rfl, ?_⟩⟩⟩⟩⟩⟩⟩⟩
  exact countArgument_eq_ok_iff.mpr ⟨rfl, Int.natCast_nonneg _, hlast⟩

theorem exists_cursor (h : signer.Ready identity subscription last) (hposition : position ≤ last) :
    ∃ cursor, cursorOf signer identity subscription position = .ok cursor ∧ ∀ later < signer.now + sevenDays,
        positionOf { signer with now := later } identity subscription cursor = .ok (position : ℤ) := by
  obtain ⟨filters, hfilters⟩ := h.filters
  obtain ⟨first, second, hbind, hfirst, hsecond⟩ := exists_signedRow h (cursorRecord signer identity filters position)
  obtain ⟨hrecord, hsigned, hlength⟩ := wirable_cursor h hposition hfilters hfirst hsecond
  have hloads := h.loads position hposition filters _ hfilters hbind
  have hverify := verify_bindWith h.ed25519 h.pinned hbind
  obtain ⟨htext, hnonempty⟩ := text_encode (canonicalBytes_obj_ne_nil _) hlength
  refine ⟨_, Py.bind_eq_ok_iff.mpr ⟨filters, hfilters, Py.bind_eq_ok_iff.mpr ⟨_, wire_eq_ok_iff.mpr ⟨hrecord, rfl⟩,
    Py.bind_eq_ok_iff.mpr ⟨_, hbind, Py.bind_eq_ok_iff.mpr ⟨_, wire_eq_ok_iff.mpr ⟨hsigned, rfl⟩, rfl⟩⟩⟩⟩,
    fun later hlater ↦ ?_⟩
  rw [Signer.row, sortKeys_signedRow] at hloads
  rw [Signer.row, ← verify_loadedRow] at hverify
  have hread : readCursor { signer with now := later } identity subscription (String.ofList (Base64.encode
      (canonicalBytes (.obj (signer.row (.obj (cursorRecord signer identity filters position)) first second))))) =
      .ok (position : ℤ) := by
    refine Py.bind_eq_ok_iff.mpr ⟨_, @decodeCursor_eq { signer with now := later } _ _ _ _ hloads, ?_⟩
    exact Py.bind_eq_ok_iff.mpr ⟨true, hverify, Py.bind_eq_ok_iff.mpr ⟨(), rfl,
      boundPosition_eq h hposition hfilters hlater⟩⟩
  rw [positionOf, if_neg hnonempty]
  refine Py.bind_eq_ok_iff.mpr ⟨_, htext, ?_⟩
  rw [hread]

end UniMem.ChangeStream
