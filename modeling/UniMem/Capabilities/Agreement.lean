import UniMem.Capabilities.Issue

/-!
# Agreement of issuing and verifying

An issued token is accepted exactly when the granted one fits the bound of `_token`. `grant` does not
check this bound, and a token with long lists of names exceeds it.
-/

namespace UniMem.Capabilities

open Library FrontierProtocol MeshCrdt

section Agreement

variable {crypto : Crypto} {calendar : Calendar} {pins : Pins}

/-- Issuing and verifying agree while a token is current, fits the bound and is not revoked. -/
theorem verify_agrees_with_issue (hcorrect : crypto.Correct) (hcalendar : calendar.RoundTrip) :
    (∀ root token, Issued crypto calendar pins root token → ∀ now stamp revoked,
      instant calendar (.str now) = .ok stamp → Current crypto calendar token stamp revoked →
      ((∃ verified, verify crypto calendar pins token now revoked = .ok verified) ↔ Fits root)) ∧
    (∀ token now revoked verified, verify crypto calendar pins token now revoked = .ok verified → ∀ count, 1 ≤ count →
        ∃ other, verify crypto calendar pins (firstLinks token count) now revoked = .ok other) ∧
    ∀ token extension now revoked count id, 1 ≤ count → count ≤ (linksOf extension).length →
      firstLinks extension count = firstLinks token count →
      digest crypto.toRuntime (firstLinks token count) = .ok id → id ∈ revoked →
      ∀ verified, verify crypto calendar pins extension now revoked ≠ .ok verified := by
  refine ⟨?_, ?_, ?_⟩
  · intro root token h now stamp revoked hstamp hcurrent
    refine ⟨?_, fun hfits ↦ verify_of_issued hcorrect hcalendar h hfits hstamp hcurrent⟩
    intro haccepted
    obtain ⟨chain, _, _, _, _, hchain, -⟩ := verify_returns_iff.mp haccepted
    have hwellFormed := readToken_eq_ok_iff.mp hchain
    obtain ⟨first, rest, hsound⟩ := h.sound hcorrect hcalendar
    exact hsound.fits_root ⟨hwellFormed.wirable, hwellFormed.length_le⟩
  · intro token now revoked verified h count hcount
    exact verify_firstLinks h hcount
  · intro token extension now revoked count id hcount hlength hsame hid hrevoked verified h
    obtain ⟨chain, _, _, _, _, hchain, -⟩ := verify_returns_iff.mp ⟨verified, h⟩
    rw [(readToken_eq_ok_iff.mp hchain).linksOf_eq] at hlength
    rw [← hsame] at hid
    exact verify_of_revoked hchain hcount hlength hid hrevoked verified h

end Agreement

namespace Sample

def calendar : Calendar where
  fromIsoformat value :=
    if value = "2026-10-17T00:00:00+00:00" then some (.aware 63_927_792_000_000_000)
    else if value = "2026-10-17T01:00:00+00:00" then some (.aware 63_927_795_600_000_000)
    else none
  isoformat instant :=
    if instant = 63_927_792_000_000_000 then "2026-10-17T00:00:00+00:00"
    else "2026-10-17T01:00:00+00:00"

def now : String := "2026-10-17T00:00:00+00:00"

theorem times :
    (instant calendar (.str now) = .ok 63_927_792_000_000_000 ∧
      instant calendar (.str "2026-10-17T01:00:00+00:00") = .ok 63_927_795_600_000_000) ∧
    (calendar.isoformat 63_927_792_000_000_000 = now ∧
      calendar.isoformat 63_927_795_600_000_000 = "2026-10-17T01:00:00+00:00") ∧
    lifetimeValid 63_927_792_000_000_000 63_927_795_600_000_000 = .ok true ∧
    ∀ time ∈ [now, "2026-10-17T01:00:00+00:00"], text time "timestamp" 64 = .ok time ∧ 'Z' ∉ time.toList := by
  decide +kernel

theorem instant_now : instant calendar (.str now) = .ok 63_927_792_000_000_000 := times.1.1

theorem instant_expires : instant calendar (.str "2026-10-17T01:00:00+00:00") =
    .ok 63_927_795_600_000_000 := times.1.2

theorem roundTrip : calendar.RoundTrip := by
  intro value instant h _ _
  have hcases : instant = 63_927_792_000_000_000 ∨ instant = 63_927_795_600_000_000 := by
    simp only [calendar] at h
    split_ifs at h
    · exact Or.inl (Datetime.aware.inj (Option.some.inj h)).symm
    · exact Or.inr (Datetime.aware.inj (Option.some.inj h)).symm
  rcases hcases with rfl | rfl
  · rw [times.2.1.1]
    exact ⟨rfl, times.2.2.2 now (by simp)⟩
  · rw [times.2.1.2]
    exact ⟨rfl, times.2.2.2 _ (by simp)⟩

def crypto : Crypto where
  sha256 bytes := toString bytes.length
  hmacSha256 _ _ := hex (List.replicate 32 0)
  ed25519PublicBytes key := key
  ed25519Sign _ _ := "c2lnbmF0dXJl"
  ed25519Verify _ _ _ := true
  jsonLoads _ := none
  retainedSize _ := 0
  ed25519RawSign _ _ := List.replicate 64 0
  ed25519RawVerify _ _ _ := true

theorem correct : crypto.Correct :=
  ⟨fun _ _ ↦ ⟨List.replicate 32 0, by simp, rfl⟩, fun _ h ↦ h, fun _ _ ↦ rfl⟩

def key : Bytes := List.replicate 32 7

def pins : Pins where
  issuer := "operator"
  tenant := "tenant-a"
  algorithm := "hmac-sha256"
  key := key
  holderKey _ := .ok key

def caveats (operations names : List String) : Json :=
  .obj [("namespaces", .arr (names.map .str)), ("operations", .arr (operations.map .str)),
    ("classes", .arr (names.map .str)), ("purposes", .arr (names.map .str)),
    ("labels", .arr (names.map .str)), ("delegates", .arr (names.map .str)), ("ceiling", .int 2),
    ("audience", .str "agent-a"), ("expires_at", .str "2026-10-17T01:00:00+00:00")]

def rules (operations names : List String) : Policy where
  sets name := if name = .operations then operations else names
  ceiling := 2
  audience := "agent-a"
  expiresAt := "2026-10-17T01:00:00+00:00"

theorem readings :
    (∀ name ∈ ["agent-a", "operator", "tenant-a", "grant", "project:a"], label (.str name) = .ok name) ∧
    (∀ operation ∈ allOperations, label (.str operation) = .ok operation) ∧
    countArgument (.int 2) 0 3 "integrity ceiling" = .ok 2 ∧
    sortBy id ["read", "write"] = ["read", "write"] ∧ sortBy id ["project:a"] = ["project:a"] := by
  decide +kernel

variable {labels operations names : List String}

theorem readSet_str {fields : List (String × Json)} {name : SetField}
    (hlookup : fields.lookup name.name = some (.arr (labels.map .str))) (hne : labels ≠ [])
    (hbound : labels.length ≤ 128) (hlabel : ∀ text ∈ labels, label (.str text) = .ok text)
    (hnodup : labels.Nodup) : readSet fields name = .ok (sortBy id labels) := by
  have hread : Py.collect (Py.always label) (labels.map .str) = .ok labels := by
    rw [Py.collect_map]
    exact (Py.collect_always_eq_ok hlabel).trans (by rw [List.map_id'])
  refine readSet_eq_ok_iff.mpr ⟨_, labels, hlookup, ?_, ?_, hread, ?_, ?_⟩
  · rw [List.length_map]
    exact hbound
  · intro hnil
    exact absurd (List.map_eq_nil_iff.mp hnil) hne
  · rw [hnodup.dedup, (sortBy_perm id labels).length_eq, List.length_map]
  · rw [hnodup.dedup]

theorem policy_caveats (hoperations : operations ≠ [])
    (hallowed : ∀ operation ∈ operations, operation ∈ allOperations) (hoperationsNodup : operations.Nodup)
    (hnames : names ≠ []) (hbound : names.length ≤ 128) (hlabel : ∀ text ∈ names, label (.str text) = .ok text)
    (hnodup : names.Nodup) :
    policy calendar (caveats operations names) = .ok (rules (sortBy id operations) (sortBy id names)) := by
  obtain ⟨hlabels, hknown, hceiling, -, -⟩ := readings
  have haudience : label (.str "agent-a") = .ok "agent-a" := hlabels "agent-a" (by simp)
  have hexpires : "2026-10-17T01:00:00+00:00" = calendar.isoformat 63_927_795_600_000_000 :=
    times.2.1.2.symm
  have hfew : operations.length ≤ 128 :=
    (hoperationsNodup.length_le_of_subset hallowed).trans (by decide)
  refine policy_obj_eq_ok_iff.mpr ⟨List.Perm.refl _, ?_, ?_, ⟨_, rfl, hceiling⟩,
    ⟨_, rfl, haudience⟩, ⟨_, _, rfl, instant_expires, hexpires⟩⟩
  · intro name
    cases name
    case operations =>
      exact readSet_str rfl hoperations hfew (fun text htext ↦ hknown text (hallowed text htext))
        hoperationsNodup
    all_goals exact readSet_str rfl hnames hbound hlabel hnodup
  · intro operation hoperation
    exact hallowed operation (mem_sortBy.mp hoperation)

def record (operations labels : List String) : List (String × Json) :=
  rootRecord "operator" "tenant-a" "grant" now (rules operations labels)

def token (operations labels : List String) : Json :=
  envelope "hmac-sha256" [nodeOf (record operations labels) (hex (List.replicate 32 0)) ""]

theorem grant_caveats {sortedOperations sortedLabels : List String}
    (hpolicy : policy calendar (caveats operations labels) = .ok (rules sortedOperations sortedLabels))
    (hwirable : Wirable (.obj (record sortedOperations sortedLabels))) :
    grant crypto calendar (caveats operations labels) "operator" "tenant-a" "grant" now "hmac-sha256"
      key = .ok (token sortedOperations sortedLabels) := by
  obtain ⟨⟨hnow, hlater⟩, ⟨hissued, -⟩, hlifetime, -⟩ := times
  have hlabel := readings.1
  have hsign : ∀ data, sign crypto "hmac-sha256" key data = .ok (hex (List.replicate 32 0)) := by
    intro data
    rfl
  have hexpires : instant calendar (.str (rules sortedOperations sortedLabels).expiresAt) =
      .ok 63_927_795_600_000_000 := hlater
  have hmessage : message "unimem.capability.root.v1" (record sortedOperations sortedLabels) =
      .ok (Json.utf8 "unimem.capability.root.v1" ++ 0 :: canonicalBytes
        (.obj (record sortedOperations sortedLabels))) := by
    rw [message, hwirable.wire_eq]
    rfl
  rw [record] at hmessage
  simp only [grant, hpolicy, Py.bind_ok, hnow, hexpires, hlifetime, Py.require_true,
    hlabel "operator" (by simp), hlabel "tenant-a" (by simp), hlabel "grant" (by simp), hissued,
    hmessage, hsign, Py.pure_eq_ok]
  rfl

def nameBytes (names : List String) : ℕ := (names.map fun name ↦ 1 + (Json.quote name).length).sum

theorem sizes :
    ((policyFields.map fun key ↦ 2 + (Json.quote key).length).sum = 111 ∧
      ((["type", "issuer", "tenant", "nonce", "issued_at", "caveats"]).map fun key ↦
        2 + (Json.quote key).length).sum = 61 ∧
      ((["version", "algorithm", "links"]).map fun key ↦ 2 + (Json.quote key).length).sum = 33 ∧
      ((["record", "signature", "authorization"]).map fun key ↦ 2 + (Json.quote key).length).sum = 40) ∧
    (size (.arr (["read", "write"].map .str)) = 16 ∧ size (.int 2) = 1 ∧
      size (.str "agent-a") = 9 ∧ size (.str "2026-10-17T01:00:00+00:00") = 27) ∧
    (size (.str "unimem.capability.root.v1") = 27 ∧ size (.str "operator") = 10 ∧
      size (.str "tenant-a") = 10 ∧ size (.str "grant") = 7 ∧ size (.str now) = 27) ∧
    size (.int 1) = 1 ∧ size (.str "hmac-sha256") = 13 ∧ size (.str "") = 2 ∧
      size (.str (hex (List.replicate 32 0))) = 66 ∧ nameBytes ["project:a"] = 12 ∧
      ((List.range 128).map fun index ↦ 132 + index).sum = 25_024 := by
  decide +kernel

theorem size_names (h : names ≠ []) :
    size (.arr (names.map .str)) = 1 + nameBytes names := by
  have htexts := size_texts_add_one h
  rw [nameBytes]
  omega

theorem size_rules (h : names ≠ []) :
    size (rules ["read", "write"] names).toJson = 170 + 5 * nameBytes names := by
  obtain ⟨⟨hkeys, -⟩, hvalues, -⟩ := sizes
  have hobj := size_obj_eq (List.cons_ne_nil ("namespaces", Json.arr (names.map .str))
    [("operations", .arr (["read", "write"].map .str)), ("classes", .arr (names.map .str)),
      ("purposes", .arr (names.map .str)), ("labels", .arr (names.map .str)),
      ("delegates", .arr (names.map .str)), ("ceiling", .int 2), ("audience", .str "agent-a"),
      ("expires_at", .str "2026-10-17T01:00:00+00:00")])
  change size (rules ["read", "write"] names).toJson + 1 =
    2 + (policyFields.map fun key ↦ 2 + (Json.quote key).length).sum + _ at hobj
  rw [hkeys] at hobj
  simp only [List.map_cons, List.map_nil, List.sum_cons, List.sum_nil, size_names h] at hobj
  simp only [List.map_cons, List.map_nil] at hvalues
  omega

theorem size_record (h : names ≠ []) :
    size (.obj (record ["read", "write"] names)) = 313 + 5 * nameBytes names := by
  obtain ⟨⟨-, hkeys, -⟩, -, hvalues, -⟩ := sizes
  have hrules := size_rules h
  have hobj := size_obj_eq (List.cons_ne_nil ("type", Json.str "unimem.capability.root.v1")
    [("issuer", .str "operator"), ("tenant", .str "tenant-a"), ("nonce", .str "grant"),
      ("issued_at", .str now), ("caveats", (rules ["read", "write"] names).toJson)])
  change size (.obj (record ["read", "write"] names)) + 1 = 2 +
    ((["type", "issuer", "tenant", "nonce", "issued_at", "caveats"]).map fun key ↦
      2 + (Json.quote key).length).sum + _ at hobj
  rw [hkeys] at hobj
  simp only [List.map_cons, List.map_nil, List.sum_cons, List.sum_nil] at hobj
  omega

theorem wirable_record (h : names ≠ []) (hbytes : nameBytes names ≤ 30_000) :
    Wirable (.obj (record ["read", "write"] names)) := by
  have hsize := size_record h
  have hnames := everywhere_texts (by decide : 2 < 64) names
  have hoperations := everywhere_texts (by decide : 2 < 64) ["read", "write"]
  refine wirable_of_size ?_ ?_
  · simp only [record, rootRecord, Policy.toJson, rules, Json.Everywhere, Json.EverywhereFields, Plain,
      reduceCtorEq, if_false, if_true] at hnames hoperations ⊢
    simp [hnames]
    exact hoperations.2
  · rw [hsize, maxNodes]
    omega

theorem size_token (h : names ≠ []) :
    size (token ["read", "write"] names) = 472 + 5 * nameBytes names := by
  obtain ⟨⟨-, -, hkeys, hnodeKeys⟩, -, -, hvalues⟩ := sizes
  have hrecord := size_record h
  have hnode := size_obj_eq (List.cons_ne_nil ("record", .obj (record ["read", "write"] names))
    [("signature", .str (hex (List.replicate 32 0))), ("authorization", .str "")])
  change size (nodeOf (record ["read", "write"] names) (hex (List.replicate 32 0)) "") + 1 = 2 +
    ((["record", "signature", "authorization"]).map fun key ↦ 2 + (Json.quote key).length).sum + _
    at hnode
  have hlinks := size_arr_add_one (List.cons_ne_nil
    (nodeOf (record ["read", "write"] names) (hex (List.replicate 32 0)) "") [])
  have hobj := size_obj_eq (List.cons_ne_nil ("version", .int 1) [("algorithm", .str "hmac-sha256"),
    ("links", .arr [nodeOf (record ["read", "write"] names) (hex (List.replicate 32 0)) ""])])
  change size (token ["read", "write"] names) + 1 = 2 +
    ((["version", "algorithm", "links"]).map fun key ↦ 2 + (Json.quote key).length).sum + _ at hobj
  rw [hkeys] at hobj
  rw [hnodeKeys] at hnode
  simp only [List.map_cons, List.map_nil, List.sum_cons, List.sum_nil] at hobj hnode hlinks
  omega

def longNames : List String :=
  (List.range 128).map fun index ↦ String.ofList (List.replicate (129 + index) 'a')

theorem length_quote_replicate (count : ℕ) :
    (Json.quote (String.ofList (List.replicate count 'a'))).length = count + 2 := by
  have hletter : (Json.escape 'a').length = 1 := by decide
  rw [Json.quote, String.toList_ofList]
  simp [List.length_flatMap, hletter]

theorem nameBytes_longNames : nameBytes longNames = 25_024 := by
  have hmap : longNames.map (fun name ↦ 1 + (Json.quote name).length) =
      (List.range 128).map fun index ↦ 132 + index := by
    rw [longNames, List.map_map]
    apply List.map_congr_left
    intro index _
    simp only [Function.comp_apply, length_quote_replicate]
    omega
  rw [nameBytes, hmap]
  exact sizes.2.2.2.2.2.2.2.2

theorem utf8ByteSize_replicate (count : ℕ) :
    (String.ofList (List.replicate count 'a')).utf8ByteSize = count := by
  induction count with
  | zero => rfl
  | succ count ih =>
    have hletter : 'a'.utf8Size = 1 := by decide
    rw [List.replicate_succ, String.ofList_cons]
    simp only [String.utf8ByteSize_append, String.utf8ByteSize_singleton, ih, hletter]
    omega

theorem label_replicate {count : ℕ} (hpos : 0 < count) (hbound : count ≤ 256) :
    label (.str (String.ofList (List.replicate count 'a'))) = .ok (String.ofList (List.replicate count 'a')) := by
  have htext : text (String.ofList (List.replicate count 'a')) "capability label" 256 =
      .ok (String.ofList (List.replicate count 'a')) := by
    refine text_eq_ok_iff.mpr ⟨?_, rfl⟩
    simp [utf8ByteSize_replicate]
    omega
  have hkeep : (List.replicate count 'a').dropWhile isWhitespace = List.replicate count 'a' := by
    rw [List.dropWhile_eq_self_iff]
    intro h
    rw [List.getElem_replicate]
    decide
  have hstrip : strip (String.ofList (List.replicate count 'a')) =
      String.ofList (List.replicate count 'a') := by
    rw [strip, String.toList_ofList, hkeep, List.reverse_replicate, hkeep, List.reverse_replicate]
  simp only [label, textArgument, htext, Py.bind_ok, hstrip]
  rw [if_neg]
  · rfl
  · rw [String.toList_ofList]
    simp

theorem label_longNames : ∀ name ∈ longNames, label (.str name) = .ok name := by
  intro name hname
  obtain ⟨index, hindex, rfl⟩ := List.mem_map.mp hname
  rw [List.mem_range] at hindex
  exact label_replicate (by omega) (by omega)

theorem nodup_longNames : longNames.Nodup := by
  refine List.nodup_range.map ?_
  intro first second h
  have hlength := congrArg String.length h
  simpa using hlength

theorem policy_names (hnames : names ≠ []) (hbound : names.length ≤ 128)
    (hlabel : ∀ text ∈ names, label (.str text) = .ok text) (hnodup : names.Nodup) :
    policy calendar (caveats ["read", "write"] names) = .ok (rules ["read", "write"] (sortBy id names)) := by
  have hsorted := readings.2.2.2.1
  have hne : ["read", "write"] ≠ [] := by simp
  have hpolicy := policy_caveats hne (by decide) (by decide) hnames hbound hlabel hnodup
  rw [hsorted] at hpolicy
  exact hpolicy

theorem issued_names (hnames : names ≠ []) (hbound : names.length ≤ 128)
    (hlabel : ∀ text ∈ names, label (.str text) = .ok text) (hnodup : names.Nodup)
    (hbytes : nameBytes names ≤ 30_000) :
    Issued crypto calendar pins (token ["read", "write"] (sortBy id names))
      (token ["read", "write"] (sortBy id names)) := by
  have hperm := sortBy_perm id names
  have hbytes' : nameBytes (sortBy id names) ≤ 30_000 := by
    rw [nameBytes, (hperm.map _).sum_eq]
    exact hbytes
  have hne : sortBy id names ≠ [] := fun hnil ↦ hnames (hnil ▸ hperm).nil_eq.symm
  exact .grant rfl (grant_caveats (policy_names hnames hbound hlabel hnodup) (wirable_record hne hbytes'))

theorem current_token {caveats : Json} (h : policy calendar caveats = .ok (rules operations names)) :
    Current crypto calendar (token operations names) 63_927_792_000_000_000 [] := by
  have hpolicy := policy_toJson roundTrip h
  have hlinks : linksOf (token operations names) =
      [linkOf (record operations names) (hex (List.replicate 32 0)) ""] := rfl
  refine ⟨?_, ?_, fun _ _ _ _ _ ↦ List.not_mem_nil⟩
  · rw [hlinks]
    rintro link ⟨⟩ value issued hvalue hissued
    have hnow : some (Json.str now) = some value := hvalue
    rw [← Option.some.inj hnow, instant_now, Except.ok.injEq] at hissued
    exact hissued.ge
  · rw [hlinks]
    intro link hlink found policy' expires hfound hpolicy' hexpires'
    rw [List.mem_singleton] at hlink
    subst hlink
    have hcaveats : some (rules operations names).toJson = some found := hfound
    rw [← Option.some.inj hcaveats, hpolicy, Except.ok.injEq] at hpolicy'
    have hexpires : instant calendar (.str (rules operations names).expiresAt) =
        .ok 63_927_795_600_000_000 := instant_expires
    rw [← hpolicy', hexpires, Except.ok.injEq] at hexpires'
    rw [← hexpires']
    decide

theorem fits_token : Fits (token ["read", "write"] ["project:a"]) := by
  have hne : ["project:a"] ≠ [] := by simp
  have hbytes := sizes.2.2.2.2.2.2.2.1
  have hsize := size_token hne
  refine ⟨wirable_of_size ?_ (by rw [hsize, maxNodes]; omega), ?_⟩
  · have hnames := everywhere_texts (by decide : 5 < 64) ["project:a"]
    have hoperations := everywhere_texts (by decide : 5 < 64) ["read", "write"]
    simp only [token, envelope, nodeOf, record, rootRecord, Policy.toJson, rules, Json.Everywhere,
      Json.EverywhereFields, Json.EverywhereItems, Plain, reduceCtorEq, if_false, if_true,
      List.map_cons, List.map_nil] at hnames hoperations ⊢
    simp
  · rw [length_canonicalBytes, hsize, maxToken]
    omega

theorem issued_token :
    Issued crypto calendar pins (token ["read", "write"] ["project:a"]) (token ["read", "write"] ["project:a"]) ∧
      Current crypto calendar (token ["read", "write"] ["project:a"]) 63_927_792_000_000_000 [] := by
  obtain ⟨hlabels, -, -, -, hsorted⟩ := readings
  have hlabel : ∀ name ∈ ["project:a"], label (.str name) = .ok name := by
    intro name hname
    exact hlabels name (by simp_all)
  have hbytes : nameBytes ["project:a"] ≤ 30_000 := by
    rw [sizes.2.2.2.2.2.2.2.1]
    omega
  have hne : ["project:a"] ≠ [] := by simp
  have hissued := issued_names hne (by decide) hlabel (by decide) hbytes
  have hpolicy := policy_names hne (by decide) hlabel (by decide)
  rw [hsorted] at hissued hpolicy
  exact ⟨hissued, current_token hpolicy⟩

end Sample

/-- The hypotheses of `verify_agrees_with_issue` at a granted token. -/
theorem verify_agrees_with_granted :
    ∃ verified, verify Sample.crypto Sample.calendar Sample.pins
      (Sample.token ["read", "write"] ["project:a"]) Sample.now [] = .ok verified := by
  obtain ⟨hissued, hcurrent⟩ := Sample.issued_token
  exact ((verify_agrees_with_issue Sample.correct Sample.roundTrip).1 _ _ hissued Sample.now _ []
    Sample.instant_now hcurrent).mpr Sample.fits_token

/-- `grant` returns a token whose names exceed the bound, and `verify` rejects it at once. -/
theorem verify_rejects_large_grant :
    ∃ token, grant Sample.crypto Sample.calendar (Sample.caveats ["read", "write"] Sample.longNames)
        "operator" "tenant-a" "grant" Sample.now "hmac-sha256" Sample.key = .ok token ∧
      Issued Sample.crypto Sample.calendar Sample.pins token token ∧
      instant Sample.calendar (.str Sample.now) = .ok 63_927_792_000_000_000 ∧
      Current Sample.crypto Sample.calendar token 63_927_792_000_000_000 [] ∧ ∀ verified,
        verify Sample.crypto Sample.calendar Sample.pins token Sample.now [] ≠ .ok verified := by
  have hne : Sample.longNames ≠ [] := by simp [Sample.longNames]
  have hlength : Sample.longNames.length ≤ 128 := by simp [Sample.longNames]
  have hperm := sortBy_perm id Sample.longNames
  have hbytes : Sample.nameBytes (sortBy id Sample.longNames) = 25_024 := by
    rw [Sample.nameBytes, (hperm.map _).sum_eq]
    exact Sample.nameBytes_longNames
  have hsorted : sortBy id Sample.longNames ≠ [] := fun hnil ↦ hne (hnil ▸ hperm).nil_eq.symm
  have hpolicy := Sample.policy_names hne hlength Sample.label_longNames Sample.nodup_longNames
  refine ⟨_, Sample.grant_caveats hpolicy (Sample.wirable_record hsorted (by omega)),
    Sample.issued_names hne hlength Sample.label_longNames Sample.nodup_longNames
      (by rw [Sample.nameBytes_longNames]; omega), Sample.instant_now, Sample.current_token hpolicy, ?_⟩
  intro verified h
  obtain ⟨chain, _, _, _, _, hchain, -⟩ := verify_returns_iff.mp ⟨verified, h⟩
  have hbound := (readToken_eq_ok_iff.mp hchain).length_le
  have hsize := Sample.size_token hsorted
  rw [length_canonicalBytes, maxToken] at hbound
  omega

end UniMem.Capabilities
