import UniMem.FrontierProtocol.Arguments

/-!
# Caveats of a capability

`policy` normalises the caveats of a capability and `subset` compares those of a child with those of its parent: a
child that passes permits no request that its parent does not.
-/

namespace UniMem.Capabilities

open Library FrontierProtocol

/-- The whitespace that `str.strip` removes. -/
def isWhitespace (char : Char) : Bool :=
  char.toNat ∈ [0x20, 0x85, 0xa0, 0x1680, 0x2028, 0x2029, 0x202f, 0x205f, 0x3000] ||
    (0x09 ≤ char.toNat && char.toNat ≤ 0x0d) || (0x1c ≤ char.toNat && char.toNat ≤ 0x1f) ||
    (0x2000 ≤ char.toNat && char.toNat ≤ 0x200a)

/-- `str.strip`. -/
def strip (value : String) : String :=
  String.ofList ((value.toList.dropWhile isWhitespace).reverse.dropWhile isWhitespace).reverse

/-- `_label`. -/
def label (value : Json) : Py String := do
  let label ← textArgument value "capability label" 256
  if label ≠ strip label ∨ label.toList.any (fun char ↦ char.toNat < 32 || char.toNat = 127) ∨
      '*' ∈ label.toList then
    .error (.valueError "UniMem capability labels must be exact printable names")
  else return label

variable {value parent child : Json} {fields : List (String × Json)} {result : Policy}

theorem label_of_label {result : String} (h : label value = .ok result) :
    value = .str result ∧ label (.str result) = .ok result := by
  obtain ⟨content, hcontent, hrest⟩ := Py.of_bind h
  obtain ⟨rfl, -⟩ := textArgument_eq_ok_iff.mp hcontent
  split_ifs at hrest with hbad
  obtain rfl : content = result := Except.ok.inj hrest
  exact ⟨rfl, h⟩

/-- `SET_FIELDS`. -/
inductive SetField where
  | namespaces
  | operations
  | classes
  | purposes
  | labels
  | delegates
  deriving DecidableEq

/-- The key of a field. -/
def SetField.name : SetField → String
  | namespaces => "namespaces"
  | operations => "operations"
  | classes => "classes"
  | purposes => "purposes"
  | labels => "labels"
  | delegates => "delegates"

/-- `FIELDS`. -/
def policyFields : List String :=
  ["namespaces", "operations", "classes", "purposes", "labels", "delegates", "ceiling", "audience", "expires_at"]

/-- `OPERATIONS`. -/
def allOperations : List String := ["read", "write", "forget", "export"]

/-- The result of `policy`. -/
structure Policy where
  sets : SetField → List String
  ceiling : ℤ
  audience : String
  expiresAt : String

/-- The dictionary that `policy` returns. -/
def Policy.toJson (policy : Policy) : Json :=
  .obj [("namespaces", .arr ((policy.sets .namespaces).map .str)),
    ("operations", .arr ((policy.sets .operations).map .str)), ("classes", .arr ((policy.sets .classes).map .str)),
    ("purposes", .arr ((policy.sets .purposes).map .str)), ("labels", .arr ((policy.sets .labels).map .str)),
    ("delegates", .arr ((policy.sets .delegates).map .str)),
    ("ceiling", .int policy.ceiling), ("audience", .str policy.audience), ("expires_at", .str policy.expiresAt)]

/-- One turn of the loop over `SET_FIELDS`. -/
def readSet (fields : List (String × Json)) (name : SetField) : Py (List String) := do
  match ← field fields name.name with
  | .arr items =>
    if 128 < items.length ∨ (items = [] ∧ name ≠ .labels ∧ name ≠ .delegates) then
      .error (.valueError "UniMem capability caveats require bounded explicit lists")
    else
      let labels ← Py.collect (Py.always label) items
      let cleaned := sortBy id labels.dedup
      if cleaned.length ≠ items.length then .error (.valueError "UniMem duplicate capability caveat")
      else return cleaned
  | _ => .error (.valueError "UniMem capability caveats require bounded explicit lists")

variable (calendar : Calendar)

/-- `policy`. -/
def policy (value : Json) : Py Policy :=
  match value with
  | .obj fields => do
    Py.require (keysAre fields policyFields)
      (.valueError "UniMem capability caveats have unknown or missing fields")
    let namespaces ← readSet fields .namespaces
    let operations ← readSet fields .operations
    let classes ← readSet fields .classes
    let purposes ← readSet fields .purposes
    let labels ← readSet fields .labels
    let delegates ← readSet fields .delegates
    Py.require (operations.all (· ∈ allOperations))
      (.valueError "UniMem unsupported delegated operation")
    let ceiling ← countArgument (← field fields "ceiling") 0 3 "integrity ceiling"
    let audience ← label (← field fields "audience")
    let expires ← instant calendar (← field fields "expires_at")
    return {
      sets := fun name ↦
        match name with
        | .namespaces => namespaces
        | .operations => operations
        | .classes => classes
        | .purposes => purposes
        | .labels => labels
        | .delegates => delegates
      ceiling := ceiling
      audience := audience
      expiresAt := calendar.isoformat expires }
  | _ => .error (.valueError "UniMem capability caveats have unknown or missing fields")

/-- `subset`. -/
def subset (parent child : Json) : Py Unit := do
  let before ← policy calendar parent
  let after ← policy calendar child
  Py.require ([.namespaces, .operations, .classes, .purposes, .labels, .delegates].all fun name ↦
      (after.sets name).all (· ∈ before.sets name))
    (.permissionError "UniMem delegated caveats cannot widen")
  Py.require (after.ceiling ≤ before.ceiling)
    (.permissionError "UniMem delegated ceiling or expiry cannot widen")
  let afterExpiry ← instant calendar (.str after.expiresAt)
  let beforeExpiry ← instant calendar (.str before.expiresAt)
  Py.require (afterExpiry ≤ beforeExpiry)
    (.permissionError "UniMem delegated ceiling or expiry cannot widen")
  Py.require (after.audience = before.audience ∨ after.audience ∈ before.sets .delegates)
    (.permissionError "UniMem audience is not an authorized delegate")

/-- A request to `permits`. -/
structure Request where
  nameSpace : String
  operation : String
  memoryClass : String
  purpose : String
  labels : List String

/-- `permits`. -/
def permits (caveats : Json) (request : Request) : Py Bool := do
  let rules ← policy calendar caveats
  return request.nameSpace ∈ rules.sets .namespaces && request.operation ∈ rules.sets .operations &&
    request.memoryClass ∈ rules.sets .classes && request.purpose ∈ rules.sets .purposes &&
    request.labels.all (· ∈ rules.sets .labels)

variable {calendar}

theorem readSet_eq_ok_iff {name : SetField} {result : List String} :
    readSet fields name = .ok result ↔ ∃ items labels, fields.lookup name.name = some (.arr items) ∧
      items.length ≤ 128 ∧ (items = [] → name = .labels ∨ name = .delegates) ∧
      Py.collect (Py.always label) items = .ok labels ∧
      (sortBy id labels.dedup).length = items.length ∧ result = sortBy id labels.dedup := by
  unfold readSet
  rw [Py.bind_eq_ok_iff]
  constructor
  · rintro ⟨value, hvalue, hrest⟩
    rw [field_eq_ok_iff] at hvalue
    cases value with
    | arr items =>
      simp only at hrest
      split_ifs at hrest with hbounds
      rw [not_or, not_lt] at hbounds
      obtain ⟨labels, hlabels, hdistinct⟩ := Py.of_bind hrest
      split_ifs at hdistinct with hlength
      refine ⟨items, labels, hvalue, hbounds.1, ?_, hlabels, not_not.mp hlength, (Except.ok.inj hdistinct).symm⟩
      intro hnil
      by_contra hother
      rw [not_or] at hother
      exact hbounds.2 ⟨hnil, hother.1, hother.2⟩
    | _ => cases hrest
  · rintro ⟨items, labels, hvalue, hbound, hempty, hlabels, hlength, rfl⟩
    refine ⟨.arr items, field_eq_ok_iff.mpr hvalue, ?_⟩
    have hok : ¬(128 < items.length ∨ (items = [] ∧ name ≠ .labels ∧ name ≠ .delegates)) := by
      rintro (hlong | ⟨hnil, hlabels, hdelegates⟩)
      · omega
      · exact (hempty hnil).elim hlabels hdelegates
    simp only
    rw [if_neg hok, hlabels, Py.bind_ok, if_neg (not_not.mpr hlength), Py.pure_eq_ok]

/-- What `policy` checks. -/
structure Normalised (calendar : Calendar) (fields : List (String × Json)) (result : Policy) :
    Prop where
  keys : (fields.map Prod.fst).Perm policyFields
  sets : ∀ name, readSet fields name = .ok (result.sets name)
  operations : ∀ operation ∈ result.sets .operations, operation ∈ allOperations
  ceiling : ∃ value, fields.lookup "ceiling" = some value ∧
    countArgument value 0 3 "integrity ceiling" = .ok result.ceiling
  audience : ∃ value, fields.lookup "audience" = some value ∧ label value = .ok result.audience
  expiry : ∃ value time, fields.lookup "expires_at" = some value ∧
    instant calendar value = .ok time ∧ result.expiresAt = calendar.isoformat time

theorem policy_obj_eq_ok_iff :
    policy calendar (.obj fields) = .ok result ↔ Normalised calendar fields result := by
  simp only [policy, Py.bind_eq_ok_iff, Py.require_eq_ok_iff, keysAre_iff, Py.pure_eq_ok,
    Except.ok.injEq, List.all_eq_true, decide_eq_true_eq, field_eq_ok_iff]
  constructor
  · rintro ⟨-, hkeys, namespaces, hnamespaces, operations, hoperations, classes, hclasses, purposes,
      hpurposes, labels, hlabels, delegates, hdelegates, -, hallowed, level, hlevel, ceiling,
      hceiling, name, hname, audience, haudience, stamp, hstamp, time, htime, rfl⟩
    refine ⟨hkeys, ?_, hallowed, ⟨level, hlevel, hceiling⟩, ⟨name, hname, haudience⟩,
      ⟨stamp, time, hstamp, htime, rfl⟩⟩
    intro name
    cases name
    · exact hnamespaces
    · exact hoperations
    · exact hclasses
    · exact hpurposes
    · exact hlabels
    · exact hdelegates
  · rintro ⟨hkeys, hsets, hallowed, ⟨level, hlevel, hceiling⟩, ⟨name, hname, haudience⟩,
      ⟨stamp, time, hstamp, htime, hexpires⟩⟩
    refine ⟨(), hkeys, _, hsets .namespaces, _, hsets .operations, _, hsets .classes, _,
      hsets .purposes, _, hsets .labels, _, hsets .delegates, (), hallowed, level, hlevel, _,
      hceiling, name, hname, _, haudience, stamp, hstamp, time, htime, ?_⟩
    obtain ⟨sets, ceiling, audience, expiresAt⟩ := result
    simp only at hexpires
    rw [Policy.mk.injEq]
    refine ⟨?_, rfl, rfl, hexpires.symm⟩
    funext name
    cases name <;> rfl

theorem policy_eq_ok_iff :
    policy calendar value = .ok result ↔ ∃ fields, value = .obj fields ∧ Normalised calendar fields result := by
  cases value with
  | obj fields => simp [policy_obj_eq_ok_iff]
  | _ => simp [policy]

theorem collect_label_str {items : List Json} {labels others : List String}
    (h : Py.collect (Py.always label) items = .ok labels) (hsubset : ∀ text ∈ others, text ∈ labels) :
    Py.collect (Py.always label) (others.map .str) = .ok others := by
  rw [Py.collect_map]
  have hread : ∀ text ∈ others, label (.str text) = .ok (id text) := by
    intro text htext
    obtain ⟨item, -, hitem⟩ := (Py.mem_collect_iff h text).mp (hsubset text htext)
    exact (label_of_label (Py.always_eq_ok_iff.mp hitem)).2
  calc
    Py.collect (fun text ↦ Py.always label (.str text)) others = .ok (others.map id) :=
      Py.collect_always_eq_ok hread
    _ = .ok others := by rw [List.map_id]

theorem sortBy_sortBy (labels : List String) :
    sortBy id (sortBy id labels.dedup).dedup = sortBy id labels.dedup := by
  have hnodup : (sortBy id labels.dedup).Nodup :=
    (sortBy_perm id labels.dedup).nodup_iff.mpr labels.nodup_dedup
  rw [hnodup.dedup]
  exact sortBy_eq_of_perm (sortBy_perm id _) fun _ _ _ _ h ↦ h

theorem readSet_normalised {name : SetField} {again : List (String × Json)} {result : List String}
    (h : readSet fields name = .ok result) (hlookup : again.lookup name.name = some (.arr (result.map .str))) :
    readSet again name = .ok result := by
  obtain ⟨items, labels, -, hbound, hempty, hlabels, hlength, rfl⟩ := readSet_eq_ok_iff.mp h
  refine readSet_eq_ok_iff.mpr ⟨_, sortBy id labels.dedup, hlookup, ?_, ?_, ?_, ?_, ?_⟩
  · rw [List.length_map, hlength]
    exact hbound
  · intro hnil
    apply hempty
    rw [← List.length_eq_zero_iff, ← hlength, List.length_eq_zero_iff]
    exact List.map_eq_nil_iff.mp hnil
  · refine collect_label_str hlabels ?_
    intro text htext
    exact List.mem_dedup.mp (mem_sortBy.mp htext)
  · rw [sortBy_sortBy, List.length_map]
  · rw [sortBy_sortBy]

theorem policy_toJson (hcalendar : calendar.RoundTrip) (h : policy calendar value = .ok result) :
    policy calendar result.toJson = .ok result := by
  obtain ⟨fields, rfl, hnormalised⟩ := policy_eq_ok_iff.mp h
  obtain ⟨source, hsource, hceiling⟩ := hnormalised.ceiling
  obtain ⟨name, hname, haudience⟩ := hnormalised.audience
  obtain ⟨stamp, time, hstamp, htime, hexpires⟩ := hnormalised.expiry
  refine policy_obj_eq_ok_iff.mpr ⟨List.Perm.refl _, ?_, hnormalised.operations,
    ⟨.int result.ceiling, rfl, ?_⟩, ⟨.str result.audience, rfl, (label_of_label haudience).2⟩,
    ⟨.str result.expiresAt, time, rfl, ?_, hexpires⟩⟩
  · intro name
    refine readSet_normalised (hnormalised.sets name) ?_
    cases name <;> rfl
  · exact countArgument_eq_ok_iff.mpr ⟨rfl, (countArgument_eq_ok_iff.mp hceiling).2⟩
  · rw [hexpires]
    exact instant_isoformat hcalendar htime

theorem exists_expiry (hcalendar : calendar.RoundTrip) (h : policy calendar value = .ok result) :
    ∃ time, instant calendar (.str result.expiresAt) = .ok time := by
  obtain ⟨fields, rfl, hnormalised⟩ := policy_eq_ok_iff.mp h
  obtain ⟨stamp, time, -, htime, hexpires⟩ := hnormalised.expiry
  rw [hexpires]
  exact ⟨time, instant_isoformat hcalendar htime⟩

/-- A policy that grants no more than another, to its audience or its delegates. -/
structure Narrower (calendar : Calendar) (child parent : Policy) : Prop where
  sets : ∀ name, child.sets name ⊆ parent.sets name
  ceiling : child.ceiling ≤ parent.ceiling
  expiry : ∃ earlier later, instant calendar (.str child.expiresAt) = .ok earlier ∧
    instant calendar (.str parent.expiresAt) = .ok later ∧ earlier ≤ later
  audience : child.audience = parent.audience ∨ child.audience ∈ parent.sets .delegates

theorem Narrower.refl {rules : Policy} {time : ℤ}
    (h : instant calendar (.str rules.expiresAt) = .ok time) : Narrower calendar rules rules :=
  ⟨fun _ ↦ List.Subset.refl _, le_rfl, ⟨time, time, h, h, le_rfl⟩, Or.inl rfl⟩

theorem Narrower.trans {child middle parent : Policy} (h : Narrower calendar child middle)
    (h' : Narrower calendar middle parent) : Narrower calendar child parent := by
  obtain ⟨earlier, later, hearlier, hlater, hle⟩ := h.expiry
  obtain ⟨between, latest, hbetween, hlatest, hle'⟩ := h'.expiry
  have hsame : later = between := Except.ok.inj (hlater.symm.trans hbetween)
  refine ⟨fun name ↦ List.Subset.trans (h.sets name) (h'.sets name), h.ceiling.trans h'.ceiling,
    ⟨earlier, latest, hearlier, hlatest, hle.trans (hsame ▸ hle')⟩, ?_⟩
  rcases h.audience with haudience | hdelegate
  · rw [haudience]
    exact h'.audience
  · exact Or.inr (h'.sets .delegates hdelegate)

theorem subset_eq_ok_iff {result : Unit} :
    subset calendar parent child = .ok result ↔ ∃ before after, policy calendar parent = .ok before ∧
      policy calendar child = .ok after ∧ Narrower calendar after before := by
  simp only [subset, Py.bind_eq_ok_iff, Py.require_eq_ok_iff, List.all_eq_true, decide_eq_true_eq]
  constructor
  · rintro ⟨before, hbefore, after, hafter, -, hsets, -, hceiling, earlier, hearlier, later, hlater,
      -, hle, haudience⟩
    refine ⟨before, after, hbefore, hafter, ?_, hceiling, ⟨earlier, later, hearlier, hlater, hle⟩, haudience⟩
    intro name
    refine hsets name ?_
    cases name <;> decide
  · rintro ⟨before, after, hbefore, hafter, hnarrower⟩
    obtain ⟨earlier, later, hearlier, hlater, hle⟩ := hnarrower.expiry
    exact ⟨before, hbefore, after, hafter, (), fun name _ ↦ hnarrower.sets name, (),
      hnarrower.ceiling, earlier, hearlier, later, hlater, (), hle, hnarrower.audience⟩

theorem permits_of_narrower {before after : Policy} (hbefore : policy calendar parent = .ok before)
    (hafter : policy calendar child = .ok after) (h : Narrower calendar after before) {request : Request}
    (hpermits : permits calendar child request = .ok true) :
    permits calendar parent request = .ok true := by
  simp only [permits, hbefore, hafter, Py.bind_ok, Py.pure_eq_ok, Except.ok.injEq,
    Bool.and_eq_true, decide_eq_true_eq, List.all_eq_true] at hpermits ⊢
  obtain ⟨⟨⟨⟨hnamespace, hoperation⟩, hclass⟩, hpurpose⟩, hlabels⟩ := hpermits
  exact ⟨⟨⟨⟨h.sets _ hnamespace, h.sets _ hoperation⟩, h.sets _ hclass⟩, h.sets _ hpurpose⟩,
    fun text htext ↦ h.sets _ (hlabels text htext)⟩

end UniMem.Capabilities
