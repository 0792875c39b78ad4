import UniMem.MeshCrdt.Convergence

/-!
# What a replica holds after `apply`

After any batches a replica holds the operations it was sent, each once, in the order of their first arrival; so
replicas that were sent the same operations hold permutations.
-/

namespace UniMem.MeshCrdt

open Library FrontierProtocol Procedure

section Runs

variable {runtime : Runtime} {clock : Clock}

/-- The operation of a signed body. -/
def carried (signed : Row) : Operation :=
  match signed.lookup "body" with
  | some (.obj body) => .ofRow body
  | _ => .ofRow []

variable {final : Mesh}

theorem taint_ne_ok {robot reason : String} {body : Row} {error : PyError} {mesh : Mesh} {value : Row} :
    (taint clock robot body reason >>= fun _ ↦ lift (.error error) : Call Row) mesh ≠
      (.ok value, final) := by
  intro h
  obtain ⟨-, middle, -, hraise⟩ := bind_eq_ok_iff.mp h
  exact lift_error_ne_ok hraise

/-- What `_verify` checks of a signed operation. -/
structure Verified (runtime : Runtime) (mesh : Mesh) (signed body : Row) (publicKey id : String) :
    Prop where
  body_eq : signed.lookup "body" = some (.obj body)
  fields : (signed.all (fun field ↦ field.1 ∈ signedFields) &&
    signedFields.all fun name ↦ name ∈ signed.map Prod.fst) = true
  registered : mesh.robotKey ((body.lookup "robot_id").getD .null) = .ok (some publicKey)
  keyDigest : ∃ text, digest runtime (.str publicKey) = .ok text ∧
    signed.lookup "public_key_digest" = some (.str text)
  active : ∀ name ∈ mesh.revocations, (body.lookup "robot_id").getD .null ≠ .str name
  signature : signatureValid runtime publicKey signed body = true
  id_eq : body.lookup "id" = some (.str id)
  digest_eq : digest runtime (.obj (body.filter fun field ↦ field.1 ≠ "id")) = .ok id

theorem verifyBody_eq_ok {signed body found : Row} {mesh : Mesh}
    (h : verifyBody runtime clock signed body mesh = (.ok found, final)) :
    mesh = final ∧ body = found := by
  rw [verifyBody, read_bind] at h
  obtain ⟨key, -, h⟩ := lift_bind_eq_ok_iff.mp h
  cases key with
  | none => exact absurd h taint_ne_ok
  | some publicKey =>
    obtain ⟨keyDigest, -, h⟩ := lift_bind_eq_ok_iff.mp h
    split_ifs at h
    · exact absurd h taint_ne_ok
    · exact absurd h taint_ne_ok
    · exact absurd h taint_ne_ok
    · obtain ⟨expected, -, h⟩ := lift_bind_eq_ok_iff.mp h
      obtain ⟨-, -, h⟩ := lift_bind_eq_ok_iff.mp h
      obtain ⟨hfound, hmesh⟩ := Prod.mk.inj h
      exact ⟨hmesh, Except.ok.inj hfound⟩

theorem verify_eq_ok {signed body : Row} {mesh : Mesh} (h : verify runtime clock signed mesh = (.ok body, final)) :
    mesh = final ∧ carried signed = .ofRow body := by
  unfold verify at h
  rcases hbody : signed.lookup "body" with _ | value
  · rw [hbody] at h
    exact absurd h lift_error_ne_ok
  · rw [hbody] at h
    cases value with
    | obj fields =>
      simp only at h
      split_ifs at h
      · obtain ⟨rfl, rfl⟩ := verifyBody_eq_ok h
        exact ⟨rfl, by rw [carried, hbody]⟩
      · exact absurd h lift_error_ne_ok
    | _ => exact absurd h lift_error_ne_ok

theorem Verified.verify_eq {mesh : Mesh} {signed body : Row} {publicKey name : String}
    (h : Verified runtime mesh signed body publicKey name) :
    verify runtime clock signed mesh = (.ok body, mesh) := by
  obtain ⟨keyDigest, hkeyDigest, hgiven⟩ := h.keyDigest
  have hactive : ¬(mesh.revocations.any fun name ↦
      Origin.isText (some ((body.lookup "robot_id").getD .null)) name) = true := by
    intro hany
    obtain ⟨name, hname, htext⟩ := List.any_eq_true.mp hany
    exact h.active name hname (Option.some.inj (Origin.isText_iff.mp htext))
  have hgivenText : ¬(!Origin.isText (signed.lookup "public_key_digest") keyDigest) = true := by
    rw [Origin.isText_iff.mpr hgiven]
    decide
  have hsignature : ¬(!signatureValid runtime publicKey signed body) = true := by
    rw [h.signature]
    decide
  have hid : Origin.isText (body.lookup "id") name = true := Origin.isText_iff.mpr h.id_eq
  unfold verify
  simp only [h.body_eq, h.fields, if_true]
  rw [verifyBody, read_bind]
  simp only [id]
  rw [h.registered, lift_ok_bind]
  simp only
  rw [hkeyDigest, lift_ok_bind, if_neg hgivenText, if_neg hactive, if_neg hsignature,
    h.digest_eq, lift_ok_bind, hid, Py.require_true, lift_ok_bind]
  rfl

theorem ofRow_accepted (signed body : Row) (index : ℕ) (previous now : String) :
    Operation.ofRow (sequenced (accepted signed body) index previous now) = .ofRow body := by
  have hlookup : ∀ key ∈ ["robot_id", "id", "operation", "entity", "field", "value", "counter",
      "safety", "parents", "targets"],
      (sequenced (accepted signed body) index previous now).lookup key = body.lookup key := by
    intro key hkey
    have hne : key ≠ "sequence" ∧ key ≠ "previous" ∧ key ≠ "recorded_at" ∧ key ≠ "signature" ∧
        key ≠ "public_key_digest" := by
      revert hkey key
      decide
    rw [sequenced, accepted, Json.lookup_setField_of_ne _ hne.2.2.1,
      Json.lookup_setField_of_ne _ hne.2.1, Json.lookup_setField_of_ne _ hne.1,
      Json.lookup_setField_of_ne _ hne.2.2.2.2, Json.lookup_setField_of_ne _ hne.2.2.2.1]
  unfold Operation.ofRow
  rw [hlookup "robot_id" (by simp), hlookup "id" (by simp), hlookup "operation" (by simp),
    hlookup "entity" (by simp), hlookup "field" (by simp), hlookup "value" (by simp),
    hlookup "counter" (by simp), hlookup "safety" (by simp), hlookup "parents" (by simp),
    hlookup "targets" (by simp)]

/-- The operations that a replica holds. -/
def Mesh.held (mesh : Mesh) : List Operation := mesh.operations.map Operation.ofRow

theorem Mesh.held_append (mesh : Mesh) (row : Row) :
    ({ mesh with operations := mesh.operations ++ [row] } : Mesh).held =
      mesh.held ++ [Operation.ofRow row] := by
  rw [Mesh.held, List.map_append, List.map_singleton]
  rfl

/-- What the operations of a replica have to do with those it was sent. -/
structure Received (mesh : Mesh) (sent : List Row) : Prop where
  distinct : DistinctIds mesh.held
  sound : ∀ op ∈ mesh.held, ∃ signed ∈ sent, op = carried signed
  complete : ∀ signed ∈ sent, (carried signed).id ∈ mesh.held.map Operation.id

theorem extend_eq_ok {rows result : List Row} {record : Row} (h : extend clock rows record = .ok result) :
    result = rows ++ [sequenced record rows.length (clock rows.length).1 (clock rows.length).2] := by
  unfold extend at h
  obtain ⟨-, -, h⟩ := Py.of_bind h
  obtain ⟨-, -, h⟩ := Py.of_bind h
  exact (Except.ok.inj h).symm

namespace Received

variable {mesh : Mesh} {sent : List Row}

section

variable (h : Received mesh sent)
include h

theorem known {signed : Row}
    (hid : (carried signed).id ∈ mesh.held.map Operation.id) : Received mesh (sent ++ [signed]) := by
  refine ⟨h.distinct, ?_, ?_⟩
  · intro op hop
    obtain ⟨other, hother, heq⟩ := h.sound op hop
    exact ⟨other, List.mem_append_left _ hother, heq⟩
  · intro other hother
    rcases List.mem_append.mp hother with hsent | hnew
    · exact h.complete other hsent
    · rw [List.mem_singleton.mp hnew]
      exact hid

theorem stored {signed row : Row} (hrow : Operation.ofRow row = carried signed)
    (hid : (carried signed).id ∉ mesh.held.map Operation.id) :
    Received { mesh with operations := mesh.operations ++ [row] } (sent ++ [signed]) := by
  have hheld : ({ mesh with operations := mesh.operations ++ [row] } : Mesh).held =
      mesh.held ++ [carried signed] := by
    rw [Mesh.held_append, hrow]
  refine ⟨?_, ?_, ?_⟩
  · rw [DistinctIds, hheld, List.map_append, List.map_singleton, ← List.concat_eq_append]
    exact h.distinct.concat hid
  · intro op hop
    rw [hheld] at hop
    rcases List.mem_append.mp hop with hold | hnew
    · obtain ⟨other, hother, heq⟩ := h.sound op hold
      exact ⟨other, List.mem_append_left _ hother, heq⟩
    · exact ⟨signed, List.mem_append_right _ (List.mem_singleton_self _), List.mem_singleton.mp hnew⟩
  · intro other hother
    rw [hheld, List.map_append, List.mem_append]
    rcases List.mem_append.mp hother with hsent | hnew
    · exact Or.inl (h.complete other hsent)
    · rw [List.mem_singleton.mp hnew]
      exact Or.inr (List.mem_singleton_self _)

variable {batch : List Row} {result : List String}

theorem applyLoop {prior ids : List String}
    (hprior : ∀ id, id ∈ prior ↔ some (.str id) ∈ mesh.held.map Operation.id)
    (hloop : MeshCrdt.applyLoop runtime clock batch prior ids mesh = (.ok result, final)) :
    Received final (sent ++ batch) := by
  induction batch generalizing prior ids mesh sent with
  | nil =>
    cases hloop
    rw [List.append_nil]
    exact h
  | cons signed batch ih =>
    rw [MeshCrdt.applyLoop] at hloop
    obtain ⟨body, middle, hverify, hloop⟩ := bind_eq_ok_iff.mp hloop
    obtain ⟨rfl, hbody⟩ := verify_eq_ok hverify
    obtain ⟨id, hid, hloop⟩ := lift_bind_eq_ok_iff.mp hloop
    have hname : (Operation.ofRow body).id = some (.str id) := textItem_eq_ok_iff.mp hid
    rw [← List.singleton_append, ← List.append_assoc]
    by_cases hknown : id ∈ prior
    · rw [if_pos hknown] at hloop
      refine ih (h.known ?_) hprior hloop
      rw [hbody, hname]
      exact (hprior id).mp hknown
    · rw [if_neg hknown, read_bind] at hloop
      obtain ⟨rows, hextend, hloop⟩ := lift_bind_eq_ok_iff.mp hloop
      rw [update_bind, extend_eq_ok hextend] at hloop
      have hrow := ofRow_accepted signed body mesh.operations.length
        (clock mesh.operations.length).1 (clock mesh.operations.length).2
      refine ih (h.stored (hrow.trans hbody.symm) ?_) ?_ hloop
      · rw [hbody, hname]
        exact fun hmem ↦ hknown ((hprior id).mpr hmem)
      · intro other
        rw [Mesh.held_append, hrow, List.map_append, List.mem_append, List.map_singleton,
          List.mem_singleton, hname, Option.some.injEq, Json.str.injEq, List.mem_cons, hprior other, or_comm]

theorem apply (happly : MeshCrdt.apply runtime clock batch mesh = (.ok result, final)) :
    Received final (sent ++ batch) := by
  unfold MeshCrdt.apply at happly
  obtain ⟨-, -, happly⟩ := lift_bind_eq_ok_iff.mp happly
  rw [read_bind] at happly
  obtain ⟨prior, hprior, happly⟩ := lift_bind_eq_ok_iff.mp happly
  refine h.applyLoop ?_ happly
  intro id
  rw [Py.mem_collect_iff hprior, Mesh.held, List.map_map, List.mem_map]
  apply exists_congr
  intro row
  rw [Py.always_eq_ok_iff, textItem_eq_ok_iff]
  rfl

theorem receive {batches : List (List Row)}
    (hreceive : MeshCrdt.receive runtime clock batches mesh = (.ok (), final)) :
    Received final (sent ++ batches.flatten) := by
  induction batches generalizing mesh sent with
  | nil =>
    cases hreceive
    rw [List.flatten_nil, List.append_nil]
    exact h
  | cons batch batches ih =>
    rw [MeshCrdt.receive] at hreceive
    obtain ⟨result, middle, happly, hreceive⟩ := bind_eq_ok_iff.mp hreceive
    rw [List.flatten_cons, ← List.append_assoc]
    exact ih (h.apply happly) hreceive

theorem held_perm {other : Mesh} {sent' : List Row}
    (h' : Received other sent') (hsame : ∀ signed, signed ∈ sent ↔ signed ∈ sent')
    (hdistinct : ∀ a ∈ sent, ∀ b ∈ sent, (carried a).id = (carried b).id → carried a = carried b) :
    mesh.held.Perm other.held := by
  have hmem : ∀ {first second : Mesh} {some others : List Row}, Received first some →
      Received second others → (∀ signed ∈ some, signed ∈ others) → (∀ signed ∈ others, signed ∈ sent) →
      ∀ op ∈ first.held, op ∈ second.held := by
    intro first second some others hfirst hsecond hsub hsent op hop
    obtain ⟨signed, hsigned, rfl⟩ := hfirst.sound op hop
    obtain ⟨found, hfound, hid⟩ := List.mem_map.mp (hsecond.complete signed (hsub signed hsigned))
    obtain ⟨source, hsource, rfl⟩ := hsecond.sound found hfound
    rw [hdistinct signed (hsent _ (hsub signed hsigned)) source (hsent _ hsource) hid.symm]
    exact hfound
  rw [List.perm_ext_iff_of_nodup (List.Nodup.of_map _ h.distinct) (List.Nodup.of_map _ h'.distinct)]
  intro op
  exact ⟨hmem h h' (fun s ↦ (hsame s).mp) (fun s ↦ (hsame s).mpr) op,
    hmem h' h (fun s ↦ (hsame s).mpr) (fun _ ↦ id) op⟩

end

end Received

variable {operations others : List Operation} {revoked : List String}

theorem SpelledAlike.perm (h : SpelledAlike operations revoked) (hperm : operations.Perm others) :
    SpelledAlike others revoked := by
  intro op hop other hother
  exact h op (hperm.mem_iff.mpr hop) other (hperm.mem_iff.mpr hother)

theorem carriedValues_perm (h : operations.Perm others) : carriedValues operations = carriedValues others := by
  ext value
  simp only [carriedValues, Set.mem_ofPred_eq, h.mem_iff]

theorem mergeViews_agree (h : operations.Perm others) (hids : DistinctIds operations)
    (hvalues : Distinguishes runtime (carriedValues operations)) (hspelled : SpelledAlike operations revoked) :
    Agree (mergeViews runtime operations revoked) (mergeViews runtime others revoked) := by
  cases hfirst : mergeViews runtime operations revoked with
  | ok view =>
    obtain ⟨stages, rfl⟩ := mergeViews_eq_ok_iff.mp hfirst
    obtain ⟨second, hequal⟩ := stages.perm h hids hvalues hspelled
    rw [mergeViews_eq_ok_iff.mpr ⟨second, rfl⟩]
    exact hequal
  | error error =>
    cases hsecond : mergeViews runtime others revoked with
    | error other => trivial
    | ok view =>
      -- The order of a list that merges can be changed back.
      obtain ⟨stages, -⟩ := mergeViews_eq_ok_iff.mp hsecond
      have hids' : DistinctIds others := (h.map Operation.id).nodup_iff.mp hids
      obtain ⟨first, -⟩ := stages.perm h.symm hids' (carriedValues_perm h ▸ hvalues) (hspelled.perm h)
      rw [mergeViews_eq_ok_iff.mpr ⟨first, rfl⟩] at hfirst
      cases hfirst

/-- Replicas that receive the same operations in any order merge to equal views. -/
theorem receive_converges {robots : List (String × String)} {revocations : List String}
    {taints taints' : List Row} {clock clock' : Clock} {batches batches' : List (List Row)} {first second : Mesh}
    (hfirst : receive runtime clock batches ⟨robots, revocations, [], taints⟩ = (.ok (), first))
    (hsecond : receive runtime clock' batches' ⟨robots, revocations, [], taints'⟩ = (.ok (), second))
    (hsame : ∀ signed, signed ∈ batches.flatten ↔ signed ∈ batches'.flatten)
    (hdistinct : ∀ a ∈ batches.flatten, ∀ b ∈ batches.flatten,
      (carried a).id = (carried b).id → carried a = carried b)
    (hvalues : Distinguishes runtime (carriedValues (batches.flatten.map carried)))
    (hspelled : SpelledAlike (batches.flatten.map carried) revoked) :
    Agree (mergeViews runtime first.held revoked) (mergeViews runtime second.held revoked) := by
  have hstart : ∀ taints, Received ⟨robots, revocations, [], taints⟩ [] := by
    intro taints
    exact ⟨List.nodup_nil, fun op hop ↦ absurd hop List.not_mem_nil,
      fun signed hsigned ↦ absurd hsigned List.not_mem_nil⟩
  have hreceived := (hstart taints).receive hfirst
  have hreceived' := (hstart taints').receive hsecond
  rw [List.nil_append] at hreceived hreceived'
  have hsent : ∀ op ∈ first.held, op ∈ batches.flatten.map carried := by
    intro op hop
    obtain ⟨signed, hsigned, rfl⟩ := hreceived.sound op hop
    exact List.mem_map.mpr ⟨signed, hsigned, rfl⟩
  refine mergeViews_agree (hreceived.held_perm hreceived' hsame hdistinct) hreceived.distinct ?_ ?_
  · rintro a ⟨op, hop, ha⟩ b ⟨op', hop', hb⟩
    exact hvalues a ⟨op, hsent op hop, ha⟩ b ⟨op', hsent op' hop', hb⟩
  · intro op hop other hother
    exact hspelled op (hsent op hop) other (hsent other hother)

theorem extend_of {rows : List Row} {record : Row} (hcount : rows.length < maxRows)
    (hwirable : Wirable (.obj (sequenced record rows.length (clock rows.length).1 (clock rows.length).2))) :
    extend clock rows record =
      .ok (rows ++ [sequenced record rows.length (clock rows.length).1 (clock rows.length).2]) := by
  have hcount' : count rows.length 0 (maxRows - 1) "count" = .ok rows.length :=
    count_of_mem "count" (by omega) (by omega)
  simp only [extend, hcount', Py.bind_ok, hwirable.wire_eq, Py.pure_eq_ok]

theorem apply_singleton {mesh : Mesh} {signed body : Row} {publicKey id : String}
    {prior : List String} {rows : List Row} (hverified : Verified runtime mesh signed body publicKey id)
    (hprior : Py.collect (Py.always fun row : Row ↦ textItem (row.lookup "id") "id") mesh.operations = .ok prior)
    (hnew : id ∉ prior) (hextend : extend clock mesh.operations (accepted signed body) = .ok rows) :
    apply runtime clock [signed] mesh = (.ok [id], { mesh with operations := rows }) := by
  have hid : textItem (body.lookup "id") "id" = .ok id := textItem_eq_ok_iff.mpr hverified.id_eq
  have hcount : count 1 1 100_000 "count" = .ok 1 := count_of_mem "count" (by decide) (by decide)
  rw [apply]
  change (lift (count 1 1 100_000 "count") >>= _ : Call _) mesh = _
  rw [hcount, lift_ok_bind, read_bind, hprior, lift_ok_bind,
    applyLoop, bind_apply, hverified.verify_eq]
  simp only
  rw [hid, lift_ok_bind, if_neg hnew, read_bind, hextend,
    lift_ok_bind, update_bind]
  rfl

end Runs

namespace Sample

def publicKey : String := "0000000000000000000000000000000000000000000000000000000000000000"

def runtime : Runtime where
  sha256 bytes := toString bytes.length
  hmacSha256 _ _ := "0"
  ed25519PublicBytes key := key
  ed25519Sign _ _ := "c2lnbmF0dXJl"
  ed25519Verify _ _ _ := true
  jsonLoads _ := none
  retainedSize _ := 0

def clock : Clock := fun _ ↦ ("0", "2026-01-01T00:00:00+00:00")

def fields (counter : ℤ) (entity : Json) : Row :=
  [("robot_id", .str "r"), ("counter", .int counter), ("operation", .str "put"), ("entity", entity),
    ("field", .str "f"), ("parents", .arr []), ("safety", .bool false), ("value", .int 0)]

def body (counter : ℤ) (entity : Json) (id : String) : Row :=
  fields counter entity ++ [("id", .str id)]

def signed (counter : ℤ) (entity : Json) (id : String) : Row :=
  [("body", .obj (body counter entity id)), ("signature", .str "c2lnbmF0dXJl"), ("public_key_digest", .str "66")]

def start : Mesh := ⟨[("r", publicKey)], [], [], []⟩

def record (place : ℕ) (counter : ℤ) (entity : Json) (id : String) : Row :=
  sequenced (accepted (signed counter entity id) (body counter entity id)) place (clock place).1
    (clock place).2

theorem digest_eq {value : Json} {text : String} (hfits : fits value = true)
    (hsize : toString (value.encode .compact).length = text) : digest runtime value = .ok text := by
  refine digest_eq_ok_iff.mpr ⟨wirable_of_fits hfits, ?_⟩
  rw [← hsize, ← Json.length_encode_sortKeys]
  rfl

/-- An operation whose id is the size of its fields. -/
structure Sized (counter : ℤ) (entity : Json) (id : String) : Prop where
  fields_fit : fits (.obj (fields counter entity)) = true
  body_fits : fits (.obj (body counter entity id)) = true
  size : toString ((Json.obj (fields counter entity)).encode .compact).length = id
  first_fits : fits (.obj (record 0 counter entity id)) = true
  second_fits : fits (.obj (record 1 counter entity id)) = true

variable {counter other : ℤ} {entity site : Json} {id name : String}

theorem filter_body (counter : ℤ) (entity : Json) (id : String) :
    (body counter entity id).filter (fun field ↦ field.1 ≠ "id") = fields counter entity := by
  simp [body, fields]

theorem Sized.verified (h : Sized counter entity id) (rows : List Row) :
    Verified runtime { start with operations := rows } (signed counter entity id)
      (body counter entity id) publicKey id := by
  have hkey : fromHex publicKey.toList = some (List.replicate 32 0) := by decide
  refine ⟨rfl, ?_, rfl, ⟨"66", digest_eq rfl rfl, rfl⟩, ?_, ?_, ?_, ?_⟩
  · simp [signed, signedFields]
  · intro name hname
    cases hname
  · rw [signatureValid, hkey, (wirable_of_fits h.body_fits).wire_eq]
    rfl
  · rfl
  · rw [filter_body]
    exact digest_eq h.fields_fit h.size

theorem ofRow_record (place : ℕ) (counter : ℤ) (entity : Json) (id : String) :
    Operation.ofRow (record place counter entity id) = .ofRow (body counter entity id) :=
  ofRow_accepted _ _ _ _ _

theorem id_ofRow_body (counter : ℤ) (entity : Json) (id : String) :
    (Operation.ofRow (body counter entity id)).id = some (.str id) := rfl

theorem lookup_record (place : ℕ) (counter : ℤ) (entity : Json) (id : String) :
    (record place counter entity id).lookup "id" = some (.str id) := by
  have hid := congrArg Operation.id (ofRow_record place counter entity id)
  rw [id_ofRow_body] at hid
  simpa only [Operation.ofRow] using hid

theorem carried_signed (counter : ℤ) (entity : Json) (id : String) :
    carried (signed counter entity id) = .ofRow (body counter entity id) := rfl

theorem receive_pair (h : Sized counter entity id) (h' : Sized other site name) (hne : id ≠ name) :
    receive runtime clock [[signed counter entity id], [signed other site name]] start = (.ok (), { start with
        operations := [record 0 counter entity id, record 1 other site name] }) := by
  have hfirst : apply runtime clock [signed counter entity id] start =
      (.ok [id], { start with operations := [record 0 counter entity id] }) :=
    apply_singleton (h.verified []) rfl (List.not_mem_nil)
      (extend_of (by decide) (wirable_of_fits h.first_fits))
  have hprior : Py.collect (Py.always fun row : Row ↦ textItem (row.lookup "id") "id")
      [record 0 counter entity id] = .ok [id] := by
    refine Py.collect_cons_eq_ok_iff.mpr ⟨some id, [], ?_, rfl, rfl⟩
    rw [Py.always_eq_ok_iff, textItem_eq_ok_iff, lookup_record]
  have hsecond : apply runtime clock [signed other site name]
      { start with operations := [record 0 counter entity id] } = (.ok [name], { start with
        operations := [record 0 counter entity id, record 1 other site name] }) :=
    apply_singleton (h'.verified [record 0 counter entity id]) hprior
      (fun hmem ↦ hne (List.mem_singleton.mp hmem).symm)
      (extend_of (by change 1 < maxRows; decide) (wirable_of_fits h'.second_fits))
  rw [receive, bind_apply, hfirst]
  simp only
  rw [receive, bind_apply, hsecond]
  rfl

abbrev op (counter : ℤ) (entity : Json) (id : String) : Operation :=
  .ofRow (body counter entity id)

def put (key : Key) (counter : ℤ) (entity : Json) (id : String) : Put :=
  ⟨toLex (key, .text "f"), entity, .str "f", id, op counter entity id⟩

variable {key : Key}

theorem readPut_op (h : hashKey entity = .ok key) (counter : ℤ) (id : String) :
    readPut (op counter entity id) = .ok (some (put key counter entity id)) := by
  change (do
    let entityKey ← hashKey entity
    return some (⟨toLex (entityKey, .text "f"), entity, .str "f", id, op counter entity id⟩ : Put) :
      Py (Option Put)) = _
  rw [h]
  rfl

theorem value_op (counter : ℤ) (entity : Json) (id : String) :
    (op counter entity id).value = some (.int 0) := rfl

theorem sized : (Sized 1 (.str "a") "109" ∧ Sized 10 (.str "a") "110") ∧
    (Sized 1 (.int 1) "107" ∧ Sized 1 (.bool true) "110") ∧ fits (.int 0) = true ∧ fits (.int 10) = true := by
  refine ⟨⟨?_, ?_⟩, ⟨?_, ?_⟩, by decide +kernel, by decide +kernel⟩ <;> constructor <;> decide +kernel

theorem digest_zero : digest runtime (.int 0) = .ok "1" := digest_eq sized.2.2.1 (by decide)

theorem readCandidate_put (key : Key) (counter : ℤ) (entity : Json) (id : String) :
    readCandidate runtime (put key counter entity id) = .ok ⟨id, "r", .int 0, "1"⟩ :=
  readCandidate_eq_ok_iff.mpr ⟨rfl, rfl, rfl, digest_zero⟩

theorem mergeViews_pair (hentity : hashKey entity = .ok key) (hsite : hashKey site = .ok key) (hne : id ≠ name) :
    mergeViews runtime [op counter entity id, op other site name] [] =
      .ok ⟨[], [((put key counter entity id).label, .int 0)], [], 2⟩ := by
  have hputs : Py.collect readPut [op counter entity id, op other site name] =
      .ok [put key counter entity id, put key other site name] := by
    simp [Py.collect, readPut_op hentity, readPut_op hsite]
  have hgroups : sortedGroups Put.key [put key counter entity id, put key other site name] =
      [(toLex (key, .text "f"), [put key counter entity id, put key other site name])] := by
    simp [sortedGroups, sortBy, group, insertGroup, put]
  have hnodup : ([(id, op counter entity id), (name, op other site name)].map Prod.fst).Nodup := by
    simp [hne]
  have hcandidates : Py.collect (Py.always (readCandidate runtime))
      [put key counter entity id, put key other site name] =
      .ok [⟨id, "r", .int 0, "1"⟩, ⟨name, "r", .int 0, "1"⟩] := by
    simp [Py.collect, Py.always, readCandidate_put]
  refine mergeViews_eq_ok_iff.mpr ⟨⟨[op counter entity id, op other site name], [], [], [],
    [put key counter entity id, put key other site name], [(id, op counter entity id), (name, op other site name)],
    [(.text id, []), (.text name, [])], _,
    [.value (put key counter entity id).label (.int 0)], [], rfl, rfl, rfl, rfl, hputs, rfl, ?_,
    sortedItems_eq_ok_iff.mpr ⟨?_, hgroups⟩, ?_, rfl⟩, rfl⟩
  · rw [index_of_nodup hnodup]
    rfl
  · simp [put]
  · refine Py.collect_cons_eq_ok_iff.mpr
      ⟨some (.value (put key counter entity id).label (.int 0)), [], ?_, rfl, rfl⟩
    simp only [readRegister, hcandidates, Py.bind_ok, Py.pure_eq_ok]
    rfl

theorem distinguishes_zero {operations : List Operation} (h : ∀ op ∈ operations, op.value = some (.int 0)) :
    Distinguishes runtime (carriedValues operations) := by
  rintro a ⟨op, hop, ha⟩ b ⟨op', hop', hb⟩ text - -
  rw [h op hop, Option.some.injEq] at ha
  rw [h op' hop', Option.some.injEq] at hb
  rw [← ha, ← hb]
  exact Json.Same.refl _

theorem distinct_pair (hne : id ≠ name) :
    ∀ a ∈ [signed counter entity id, signed other site name],
      ∀ b ∈ [signed counter entity id, signed other site name],
        (carried a).id = (carried b).id → carried a = carried b := by
  intro a ha b hb hid
  simp only [List.mem_cons, List.not_mem_nil, or_false] at ha hb
  rcases ha with rfl | rfl <;> rcases hb with rfl | rfl
  · rfl
  · rw [carried_signed, carried_signed, id_ofRow_body, id_ofRow_body] at hid
    simp [hne] at hid
  · rw [carried_signed, carried_signed, id_ofRow_body, id_ofRow_body] at hid
    simp [hne.symm] at hid
  · rfl

theorem value_pair : ∀ op ∈ [signed counter entity id, signed other site name].map carried,
    op.value = some (.int 0) := by
  simp only [List.map_cons, List.map_nil, List.forall_mem_cons, carried_signed, value_op]
  simp

theorem held_pair (counter other : ℤ) (entity site : Json) (id name : String) :
    Mesh.held { start with operations := [record 0 counter entity id, record 1 other site name] } =
      [op counter entity id, op other site name] := by
  simp only [Mesh.held, List.map_cons, List.map_nil, ofRow_record]

end Sample

/-- The hypotheses of `receive_converges` at two puts that arrive in both orders. -/
theorem receive_converges_pair :
    Agree (mergeViews Sample.runtime (Mesh.held { Sample.start with
        operations := [Sample.record 0 1 (.str "a") "109", Sample.record 1 10 (.str "a") "110"] }) [])
      (mergeViews Sample.runtime (Mesh.held { Sample.start with
        operations := [Sample.record 0 10 (.str "a") "110", Sample.record 1 1 (.str "a") "109"] })
        []) := by
  refine receive_converges
    (Sample.receive_pair Sample.sized.1.1 Sample.sized.1.2 (by decide))
    (Sample.receive_pair Sample.sized.1.2 Sample.sized.1.1 (by decide)) ?_
    (Sample.distinct_pair (by decide)) (Sample.distinguishes_zero Sample.value_pair) ?_
  · intro signed
    simp [or_comm]
  · intro op hop other hother _ _ put found hput hfound _
    have hlabel : ∀ op ∈ [Sample.signed 1 (.str "a") "109", Sample.signed 10 (.str "a") "110"].map carried, ∀ put,
        readPut op = .ok (some put) → put.label = "a/f" := by
      intro op hop put hput
      simp only [List.map_cons, List.map_nil, List.mem_cons, List.not_mem_nil, or_false, Sample.carried_signed] at hop
      rcases hop with rfl | rfl <;> cases (Sample.readPut_op rfl _ _).symm.trans hput <;> rfl
    rw [hlabel op hop put hput, hlabel other hother found hfound]

/-- Puts to `1` and `True` write one register, named by the put that arrived first. -/
theorem receive_diverges :
    ∃ number flag : Row, ∃ first second : Mesh,
      number = Sample.signed 1 (.int 1) "107" ∧ flag = Sample.signed 1 (.bool true) "110" ∧
      receive Sample.runtime Sample.clock [[number], [flag]] Sample.start = (.ok (), first) ∧
      receive Sample.runtime Sample.clock [[flag], [number]] Sample.start = (.ok (), second) ∧
      (∀ a ∈ [number, flag], ∀ b ∈ [number, flag], (carried a).id = (carried b).id → carried a = carried b) ∧
      Distinguishes Sample.runtime (carriedValues ([number, flag].map carried)) ∧
      mergeViews Sample.runtime first.held [] = .ok ⟨[], [("1/f", .int 0)], [], 2⟩ ∧
      mergeViews Sample.runtime second.held [] = .ok ⟨[], [("True/f", .int 0)], [], 2⟩ ∧
      ¬Agree (mergeViews Sample.runtime first.held []) (mergeViews Sample.runtime second.held []) := by
  have hflag : hashKey (.bool true) = .ok (.number ((1 : ℤ) : ℚ)) := by simp [hashKey]
  have hview : mergeViews Sample.runtime (Mesh.held { Sample.start with
      operations := [Sample.record 0 1 (.int 1) "107", Sample.record 1 1 (.bool true) "110"] }) [] =
      .ok ⟨[], [("1/f", .int 0)], [], 2⟩ := by
    rw [Sample.held_pair]
    exact Sample.mergeViews_pair rfl hflag (by decide)
  have hview' : mergeViews Sample.runtime (Mesh.held { Sample.start with
      operations := [Sample.record 0 1 (.bool true) "110", Sample.record 1 1 (.int 1) "107"] }) [] =
      .ok ⟨[], [("True/f", .int 0)], [], 2⟩ := by
    rw [Sample.held_pair]
    exact Sample.mergeViews_pair hflag rfl (by decide)
  refine ⟨_, _, _, _, rfl, rfl,
    Sample.receive_pair Sample.sized.2.1.1 Sample.sized.2.1.2 (by decide),
    Sample.receive_pair Sample.sized.2.1.2 Sample.sized.2.1.1 (by decide),
    Sample.distinct_pair (by decide), Sample.distinguishes_zero Sample.value_pair, hview, hview', ?_⟩
  rw [hview, hview']
  intro hequal
  have hlabel := map_fst_of_sameClaim hequal.registers
  exact absurd hlabel (by decide)

end UniMem.MeshCrdt
