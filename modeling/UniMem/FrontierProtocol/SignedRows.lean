import UniMem.FrontierProtocol.Journal
import UniMem.FrontierProtocol.Sizes

/-!
# Signed rows that are read back

`json.loads` reads the text of a signed row back with sorted keys. It verifies as the row that was written does.
-/

namespace UniMem.FrontierProtocol

open Library MemoryAuthority

/-- A row as `origin.bind` signs it. -/
def signedRow (algorithm : Origin.Algorithm) (record : Json) (principal authority digest signature : String) : Row :=
  [("record", record), ("principal", .str principal), ("organization", .str "local-store"),
    ("authority", .str authority), ("digest", .str digest)] ++
  (match algorithm with
    | .ed25519 => [("algorithm", .str "ed25519")]
    | .hmacSha256 => []) ++ [("signature", .str signature)]

theorem signedRow_eq (runtime : Runtime) (record : Json) {principal : Origin.Principal}
    (h : principal.organization = "local-store") (signature : String) :
    signedRow principal.algorithm record principal.id principal.authority
        (runtime.sha256 (canonicalBytes record)) signature =
      Origin.body runtime record principal ++ [("signature", .str signature)] := by
  obtain ⟨id, organization, authority, bytes, algorithm⟩ := principal
  subst h
  cases algorithm <;> rfl

theorem size_str (text : String) : size (.str text) = (Json.quote text).length := rfl

theorem size_signedRow (algorithm : Origin.Algorithm) (record : Json) (principal : String) (authority : Authority)
    (digest signature : String) :
    size (.obj (signedRow algorithm record principal authority.name digest signature)) ≤
      size record + (Json.quote principal).length + (Json.quote digest).length + (Json.quote signature).length +
        121 := by
  have hkeys : (Json.quote "record").length = 8 ∧ (Json.quote "principal").length = 11 ∧
      (Json.quote "organization").length = 14 ∧ (Json.quote "authority").length = 11 ∧
      (Json.quote "digest").length = 8 ∧ (Json.quote "algorithm").length = 11 ∧
      (Json.quote "signature").length = 11 := by decide +kernel
  have hvalues : (Json.quote "local-store").length = 13 ∧ (Json.quote "ed25519").length = 9 := by decide +kernel
  have hauthority : (Json.quote authority.name).length ≤ 10 := by cases authority <;> decide +kernel
  cases algorithm with
  | ed25519 =>
    have hsize := @size_obj_eq (signedRow .ed25519 record principal authority.name digest signature)
      (List.cons_ne_nil _ _)
    simp only [signedRow, List.cons_append, List.nil_append, List.map_cons, List.map_nil, List.sum_cons, List.sum_nil,
      size_str] at hsize ⊢
    omega
  | hmacSha256 =>
    have hsize := @size_obj_eq (signedRow .hmacSha256 record principal authority.name digest signature)
      (List.cons_ne_nil _ _)
    simp only [signedRow, List.cons_append, List.nil_append, List.append_nil, List.map_cons, List.map_nil,
      List.sum_cons, List.sum_nil, size_str] at hsize ⊢
    omega

theorem noLarger_signedRow {small large : Json} (h : NoLarger small large) (algorithm : Origin.Algorithm)
    (principal authority digest signature : String) :
    NoLarger (.obj (signedRow algorithm small principal authority digest signature))
      (.obj (signedRow algorithm large principal authority digest signature)) := by
  refine .obj (.cons ⟨rfl, h⟩ ?_)
  exact List.forall₂_same.mpr fun field _ ↦ ⟨rfl, .refl field.2⟩

/-- A row as `json.loads` reads it back from its canonical text. -/
def loadedRow (algorithm : Origin.Algorithm) (record : Json) (principal authority digest signature : String) : Row :=
  (match algorithm with
    | .ed25519 => [("algorithm", .str "ed25519")]
    | .hmacSha256 => []) ++
  [("authority", .str authority), ("digest", .str digest), ("organization", .str "local-store"),
    ("principal", .str principal), ("record", record.sortKeys), ("signature", .str signature)]

section ReadBack

variable {algorithm : Origin.Algorithm} {record : Json} {principal authority digest signature : String}

theorem sortKeys_signedRow : (Json.obj (signedRow algorithm record principal authority digest signature)).sortKeys =
    .obj (loadedRow algorithm record principal authority digest signature) := by
  cases algorithm <;>
    simp [signedRow, loadedRow, Json.sortKeys, Json.sortKeysFields, List.insertionSort]

theorem canonicalBytes_unsigned_loadedRow :
    canonicalBytes (.obj (Origin.unsigned (loadedRow algorithm record principal authority digest signature))) =
      canonicalBytes (.obj (Origin.unsigned (signedRow algorithm record principal authority digest signature))) := by
  unfold canonicalBytes
  cases algorithm <;>
    simp [signedRow, loadedRow, Origin.unsigned, Json.sortKeys, Json.sortKeysFields, List.insertionSort,
      Json.sortKeys_sortKeys]

theorem canonicalBytes_sortKeys (value : Json) : canonicalBytes value.sortKeys = canonicalBytes value := by
  rw [canonicalBytes, Json.sortKeys_sortKeys, canonicalBytes]

/-- The fields that `verify` reads besides the record. -/
def readFields : List String := ["authority", "principal", "algorithm", "signature", "organization", "digest"]

section

variable {runtime : Runtime} {first second : Row}
    (hsigned : canonicalBytes (.obj (Origin.unsigned first)) = canonicalBytes (.obj (Origin.unsigned second)))
    (hfields : ∀ name ∈ readFields, first.lookup name = second.lookup name)
    (hrecord : (first.lookup "record").map canonicalBytes = (second.lookup "record").map canonicalBytes)
include hsigned hfields hrecord

theorem origin_verify_congr {verifier : Origin.Verifier} :
    Origin.verify runtime first verifier = Origin.verify runtime second verifier := by
  unfold Origin.verify
  rw [hsigned, hfields "principal" (by decide), hfields "algorithm" (by decide), hfields "signature" (by decide),
    hfields "organization" (by decide), hfields "authority" (by decide), hfields "digest" (by decide)]
  refine congrArg₂ and rfl ?_
  cases hfirst : first.lookup "record" <;> cases hsecond : second.lookup "record" <;> rw [hfirst, hsecond] at hrecord
  · cases hrecord
  · cases hrecord
  · exact congrArg (fun bytes ↦ Origin.isText (second.lookup "digest") (runtime.sha256 bytes))
      (Option.some.inj hrecord)

theorem verify_congr {signing : Signing} :
    verify runtime signing first = verify runtime signing second := by
  have hverify : Origin.verify runtime first = Origin.verify runtime second :=
    funext fun verifier ↦ origin_verify_congr hsigned hfields hrecord
  unfold verify verifier
  rw [hfields "authority" (by decide), hfields "principal" (by decide), hfields "algorithm" (by decide), hverify]

end

theorem verify_loadedRow (runtime : Runtime) (signing : Signing) :
    verify runtime signing (loadedRow algorithm record principal authority digest signature) =
      verify runtime signing (signedRow algorithm record principal authority digest signature) := by
  refine verify_congr canonicalBytes_unsigned_loadedRow ?_ ?_
  · cases algorithm <;> simp [readFields, signedRow, loadedRow, List.lookup_cons]
  · cases algorithm <;> simp [signedRow, loadedRow, List.lookup_cons, canonicalBytes_sortKeys]

end ReadBack

theorem exists_signedRow_of_bindWith {runtime : Runtime} {signing : Signing} {writer : Writer} {record signed : Row}
    (h : bindWith runtime signing writer record = .ok signed) : ∃ digest signature,
      signed = signedRow signing.algorithm (.obj record) writer.principal writer.authority.name digest signature := by
  obtain ⟨found, -, hbind⟩ := Py.of_bind h
  cases found with
  | none => cases hbind
  | some bytes =>
    obtain ⟨-, rfl⟩ := Origin.bind_eq_ok_iff.mp hbind
    exact ⟨_, _, (@signedRow_eq runtime (.obj record)
      ⟨writer.principal, "local-store", writer.authority.name, bytes, signing.algorithm⟩ rfl _).symm⟩

theorem lookup_of_sortKeys {record found : Row} (h : Json.obj found = (Json.obj record).sortKeys) (name : String) :
    found.lookup name = (record.lookup name).map Json.sortKeys := by
  have hget := Json.get?_sortKeys (.obj record) name
  rw [← h] at hget
  exact hget

theorem noLarger_of_sortKeys (value : Json) : NoLarger value value.sortKeys := by
  induction value using Json.children_induction with
  | step value ih =>
    cases value with
    | arr items =>
      rw [Json.sortKeys, Json.sortKeysItems_eq]
      refine NoLarger.arr_items (List.forall₂_map_right_iff.mpr (List.forall₂_same.mpr ?_))
      exact ih
    | obj fields =>
      rw [Json.sortKeys, Json.sortKeysFields_eq]
      refine NoLarger.trans (NoLarger.obj ?_) (NoLarger.obj_fields (List.perm_insertionSort _ _).symm.subperm)
      refine List.forall₂_map_right_iff.mpr (List.forall₂_same.mpr fun field hfield ↦ ⟨rfl, ?_⟩)
      exact ih field.2 (List.mem_map.mpr ⟨field, hfield, rfl⟩)
    | _ => exact NoLarger.refl _

theorem Bounded.of_noLarger {small large : Json} (h : Bounded large) (hsmall : NoLarger small large) :
    Bounded small :=
  ⟨hsmall.nodes_le.trans h.nodes_le, hsmall.minimumBytes_le.trans h.minimumBytes_le, hsmall.admissible 0 h.admissible⟩

theorem bounded_sortKeys_iff {value : Json} : Bounded value.sortKeys ↔ Bounded value :=
  ⟨fun h ↦ h.of_noLarger (noLarger_of_sortKeys value), fun h ↦ h.of_noLarger (noLarger_sortKeys value)⟩

end UniMem.FrontierProtocol
