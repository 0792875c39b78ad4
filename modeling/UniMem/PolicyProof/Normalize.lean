import UniMem.FrontierProtocol.Arguments
import UniMem.FrontierProtocol.Sizes

/-!
# Finite authorization policies

`normalize` checks a policy and sorts its lists. The normalised policy says the same as the policy that
was given, with its lists in another order, so it is no larger.
-/

namespace UniMem.PolicyProof

open Library FrontierProtocol

/-- `MAX_TUPLES`. -/
def maxTuples : ℕ := 65536

/-- `ACTIONS`. -/
def allActions : List String := ["read", "write", "recall", "export"]

/-- `_names`: different texts, sorted. -/
def names (values : Json) (label : String) (maximum : ℕ) (empty : Bool) : Py (List String) :=
  match values with
  | .arr items => do
    let _ ← count items.length (if empty then 0 else 1) maximum label
    let result ← Py.collect (Py.always fun value ↦ textArgument value label 128) items
    Py.require result.Nodup
      (.valueError ("UniMem policy " ++ label ++ " contains repeated values"))
    return sortBy id result
  | _ => .error (.valueError ("UniMem policy " ++ label ++ " must be a finite list"))

/-- A normalised principal. -/
structure Principal where
  id : String
  className : String
  attributes : List (String × String)
  deriving DecidableEq

def Principal.toJson (principal : Principal) : Json :=
  .obj [("id", .str principal.id), ("class", .str principal.className),
    ("attributes", .obj (principal.attributes.map fun entry ↦ (entry.1, .str entry.2)))]

/-- One entry of the attributes of a principal. -/
def readAttribute (entry : String × Json) : Py (String × String) := do
  let key ← text entry.1 "principal attribute" 64
  return (key, ← textArgument entry.2 "attribute value" 128)

/-- One turn of the loop over the principals. -/
def readPrincipal (principal : Json) : Py Principal :=
  match principal with
  | .obj fields => do
    Py.require (keysAre fields ["id", "class", "attributes"])
      (.valueError "UniMem principal needs an id, class and operator-owned attributes")
    match ← field fields "attributes" with
    | .obj attributes =>
      let _ ← count attributes.length 0 8 "count"
      let values ← Py.collect (Py.always readAttribute) attributes
      let id ← textArgument (← field fields "id") "principal" 128
      let className ← textArgument (← field fields "class") "principal class" 64
      return ⟨id, className, sortBy Prod.fst values⟩
    | _ => .error (.valueError "UniMem principal attributes must be a finite string mapping")
  | _ => .error (.valueError "UniMem principal needs an id, class and operator-owned attributes")

/-- A normalised domain. -/
structure Domain where
  principals : List Principal
  actions : List String
  memoryClasses : List String
  purposes : List String
  labelSets : List (List String)
  deriving DecidableEq

/-- The JSON of a list of texts. -/
def texts (values : List String) : Json := .arr (values.map .str)

def Domain.toJson (domain : Domain) : Json :=
  .obj [("principals", .arr (domain.principals.map Principal.toJson)),
    ("actions", texts domain.actions), ("memory_classes", texts domain.memoryClasses),
    ("purposes", texts domain.purposes), ("label_sets", .arr (domain.labelSets.map texts))]

/-- `_bound` for axes of given lengths. -/
def bound (lengths : List ℕ) : Py ℤ :=
  count lengths.prod 1 maxTuples "UniMem finite authorization tuple count"

/-- The items of a list. -/
def listItems (value : Json) (message : String) : Py (List Json) :=
  match value with
  | .arr items => .ok items
  | _ => .error (.valueError message)

/-- The domain of a policy. -/
def readDomain (source : Json) : Py Domain :=
  match source with
  | .obj fields => do
    Py.require (keysAre fields ["principals", "actions", "memory_classes", "label_sets", "purposes"])
      (.valueError "UniMem policy domain must declare all five finite axes")
    let items ← listItems (← field fields "principals")
      "UniMem policy principals must be a finite list"
    let _ ← count items.length 1 32 "count"
    let principals ← Py.collect (Py.always readPrincipal) items
    Py.require (principals.map Principal.id).Nodup
      (.valueError "UniMem policy principal identities must be unique")
    let actions ← names (← field fields "actions") "actions" 4 false
    let memoryClasses ← names (← field fields "memory_classes") "memory classes" 32 false
    let purposes ← names (← field fields "purposes") "purposes" 32 false
    Py.require (actions.all (· ∈ allActions))
      (.valueError "UniMem policy supports read, write, recall and export only")
    let sets ← listItems (← field fields "label_sets")
      "UniMem policy label sets must be an explicitly enumerated list"
    let _ ← count sets.length 1 64 "count"
    let labels ← Py.collect (Py.always fun values ↦ names values "labels" 32 true) sets
    Py.require labels.Nodup (.valueError "UniMem policy label sets must be unique")
    let _ ← bound [principals.length, actions.length, memoryClasses.length, labels.length, purposes.length]
    return ⟨sortBy Principal.id principals, actions, memoryClasses, purposes, sortBy id labels⟩
  | _ => .error (.valueError "UniMem policy domain must declare all five finite axes")

/-- The fields of a rule that select requests by one value. -/
inductive Selector where
  | principals
  | principalClasses
  | actions
  | memoryClasses
  | purposes
  deriving DecidableEq

/-- The key of a selector. -/
def Selector.name : Selector → String
  | principals => "principals"
  | principalClasses => "principal_classes"
  | actions => "actions"
  | memoryClasses => "memory_classes"
  | purposes => "purposes"

def allSelectors : List Selector := [.principals, .principalClasses, .actions, .memoryClasses, .purposes]

/-- The values of the domain that a selector may name. -/
def Domain.available (domain : Domain) : Selector → List String
  | .principals => domain.principals.map Principal.id
  | .principalClasses => domain.principals.map Principal.className
  | .actions => domain.actions
  | .memoryClasses => domain.memoryClasses
  | .purposes => domain.purposes

/-- A normalised rule. A field that is absent does not restrict it. -/
structure Rule where
  id : String
  deny : Bool
  selectors : List (Selector × List String)
  requiredLabels : Option (List String)
  forbiddenLabels : Option (List String)
  attributes : Option (List (String × List String))
  deriving DecidableEq

def Rule.toJson (rule : Rule) : Json :=
  .obj ([("id", .str rule.id), ("effect", .str (if rule.deny then "deny" else "allow"))] ++
    rule.selectors.map (fun entry ↦ (entry.1.name, texts entry.2)) ++
    (rule.requiredLabels.map fun values ↦ ("required_labels", texts values)).toList ++
    (rule.forbiddenLabels.map fun values ↦ ("forbidden_labels", texts values)).toList ++
    (rule.attributes.map fun entries ↦
      ("attributes", .obj (entries.map fun entry ↦ (entry.1, texts entry.2)))).toList)

/-- The keys that a rule may have. -/
def ruleFields : List String :=
  ["id", "effect", "principals", "principal_classes", "actions", "memory_classes", "purposes",
    "attributes", "required_labels", "forbidden_labels"]

/-- One selector of a rule, when it is there. -/
def readSelector (domain : Domain) (fields : List (String × Json)) (selector : Selector) :
    Py (Option (Selector × List String)) :=
  match fields.lookup selector.name with
  | none => .ok none
  | some value => do
    let values ← names value ("rule " ++ selector.name) 64 true
    Py.require (values.all (· ∈ domain.available selector))
      (.valueError "UniMem rule selector references an undeclared domain value")
    return some (selector, values)

/-- One list of labels of a rule, when it is there. -/
def readLabels (domain : Domain) (fields : List (String × Json)) (key : String) :
    Py (Option (List String)) :=
  match fields.lookup key with
  | none => .ok none
  | some value => do
    let values ← names value key 32 true
    Py.require (values.all (· ∈ domain.labelSets.flatten))
      (.valueError "UniMem rule references an undeclared label")
    return some values

/-- One entry of the attributes of a rule. -/
def readAlternatives (entry : String × Json) : Py (String × List String) := do
  return (entry.1, ← names entry.2 "attribute alternatives" 32 true)

/-- The attributes of a rule, when they are there. -/
def readAttributes (domain : Domain) (fields : List (String × Json)) :
    Py (Option (List (String × List String))) :=
  match fields.lookup "attributes" with
  | none => .ok none
  | some (.obj entries) => do
    Py.require (entries.all fun entry ↦
        entry.1 ∈ (domain.principals.flatMap Principal.attributes).map Prod.fst)
      (.valueError "UniMem rule references an undeclared principal attribute")
    some <$> Py.collect (Py.always readAlternatives) (sortBy Prod.fst entries)
  | some _ => .error (.valueError "UniMem rule references an undeclared principal attribute")

/-- `rule["effect"]`. -/
def readEffect (value : Json) : Option Bool :=
  match value with
  | .str content => if content = "allow" then some false else if content = "deny" then some true else none
  | _ => none

/-- One turn of the loop over the rules, after rules with known ids. -/
def readRule (domain : Domain) (known : List String) (rule : Json) : Py Rule :=
  match rule with
  | .obj fields => do
    Py.require ((fields.lookup "id").isSome && (fields.lookup "effect").isSome &&
        (fields.map Prod.fst).all (· ∈ ruleFields))
      (.valueError "UniMem policy rule contains unknown fields or lacks id/effect")
    let id ← textArgument (← field fields "id") "rule identity" 128
    let effect ← field fields "effect"
    Py.require (id ∉ known && (readEffect effect).isSome)
      (.valueError "UniMem policy requires unique rule ids and allow/deny effects")
    let selectors ← Py.collect (readSelector domain fields) allSelectors
    let required ← readLabels domain fields "required_labels"
    let forbidden ← readLabels domain fields "forbidden_labels"
    let attributes ← readAttributes domain fields
    return ⟨id, (readEffect effect).getD false, selectors, required, forbidden, attributes⟩
  | _ => .error (.valueError "UniMem policy rule contains unknown fields or lacks id/effect")

/-- The loop over the rules. -/
def readRules (domain : Domain) : List String → List Json → Py (List Rule)
  | _, [] => .ok []
  | known, source :: sources => do
    let rule ← readRule domain known source
    return rule :: (← readRules domain (rule.id :: known) sources)

/-- A normalised policy. -/
structure Policy where
  domain : Domain
  rules : List Rule
  deriving DecidableEq

def Policy.toJson (policy : Policy) : Json :=
  .obj [("version", .int 1), ("domain", policy.domain.toJson), ("rules", .arr (policy.rules.map Rule.toJson))]

/-- `normalize`. -/
def normalize (policy : Json) : Py Policy :=
  match policy with
  | .obj fields => do
    let _ ← wire policy
    let valid := keysAre fields ["version", "domain", "rules"] &&
      match fields.lookup "version" with
      | some (.int version) => version = 1
      | _ => false
    Py.require valid (.valueError "UniMem expected finite policy version 1, domain and rules")
    let domain ← readDomain (← field fields "domain")
    let rules ← listItems (← field fields "rules") "UniMem policy rules must be a bounded list"
    let _ ← count rules.length 0 128 "count"
    let result ← readRules domain [] rules
    return ⟨domain, sortBy Rule.id result⟩
  | _ => .error (.valueError "UniMem expected finite policy version 1, domain and rules")

variable {values source : Json} {label other : String} {maximum : ℕ} {empty : Bool} {result : List String}
  {domain : Domain} {fields : List (String × Json)}

theorem names_eq_ok_iff :
    names values label maximum empty = .ok result ↔ ∃ source : List String,
      values = texts source ∧ (empty = false → source ≠ []) ∧ source.length ≤ maximum ∧
      (∀ content ∈ source, text content label 128 = .ok content) ∧ source.Nodup ∧ result = sortBy id source := by
  cases values with
  | arr items =>
    simp only [names, Py.bind_eq_ok_iff, Py.require_eq_ok_iff, decide_eq_true_eq, Py.pure_eq_ok,
      Except.ok.injEq, count_eq_ok_iff, Py.collect_always_eq_ok_iff]
    constructor
    · rintro ⟨_, ⟨⟨hlow, hhigh⟩, -⟩, source, hsource, _, hnodup, rfl⟩
      have hitems : items = source.map .str ∧
          ∀ content ∈ source, text content label 128 = .ok content := by
        clear hlow hhigh hnodup
        induction hsource with
        | nil => simp
        | cons hread _ ih =>
          obtain ⟨rfl, htext⟩ := textArgument_eq_ok_iff.mp hread
          exact ⟨by rw [ih.1, List.map_cons], List.forall_mem_cons.mpr ⟨htext, ih.2⟩⟩
      obtain ⟨rfl, htexts⟩ := hitems
      rw [List.length_map] at hlow hhigh
      refine ⟨source, rfl, ?_, by omega, htexts, hnodup, rfl⟩
      rintro rfl rfl
      simp at hlow
    · rintro ⟨source, hvalues, hempty, hbound, htexts, hnodup, rfl⟩
      cases hvalues
      refine ⟨_, ⟨⟨?_, ?_⟩, rfl⟩, source, ?_, (), hnodup, rfl⟩
      · cases empty with
        | true => simp
        | false =>
          have hpos : 0 < source.length := List.length_pos_iff.mpr (hempty rfl)
          rw [List.length_map]
          simp only [Bool.false_eq_true, if_false]
          omega
      · rw [List.length_map]
        omega
      · rw [List.forall₂_map_left_iff, List.forall₂_same]
        intro content hcontent
        exact textArgument_eq_ok_iff.mpr ⟨rfl, htexts content hcontent⟩
  | _ => simp [names, texts]

theorem text_label {content : String} (h : text content label maximum = .ok content) :
    text content other maximum = .ok content :=
  text_eq_ok_iff.mpr (text_eq_ok_iff.mp h)

section

variable (h : names values label maximum empty = .ok result)
include h

theorem names_names :
    names (texts result) other maximum true = .ok result := by
  obtain ⟨source, -, -, hbound, htexts, hnodup, rfl⟩ := names_eq_ok_iff.mp h
  have hperm := sortBy_perm id source
  refine names_eq_ok_iff.mpr ⟨sortBy id source, rfl, by simp, ?_, ?_, hperm.nodup_iff.mpr hnodup, ?_⟩
  · rw [hperm.length_eq]
    exact hbound
  · intro content hcontent
    exact text_label (htexts content (hperm.mem_iff.mp hcontent))
  · exact (sortBy_eq_of_perm hperm fun _ _ _ _ heq ↦ heq).symm

theorem names_noLarger :
    NoLarger (texts result) values := by
  obtain ⟨source, rfl, -, -, -, -, rfl⟩ := names_eq_ok_iff.mp h
  exact NoLarger.arr ((sortBy_perm id source).map _).subperm

/-- A name of a policy. -/
def Named (content : String) : Prop := ∀ label, text content label 128 = .ok content

theorem named_of_names :
    ∀ content ∈ result, Named content := by
  obtain ⟨source, -, -, -, htexts, -, rfl⟩ := names_eq_ok_iff.mp h
  intro content hcontent label
  exact text_label (htexts content (mem_sortBy.mp hcontent))

end

theorem readPrincipal_noLarger {principal : Principal} (h : readPrincipal source = .ok principal) :
    NoLarger principal.toJson source ∧ Named principal.id := by
  cases source with
  | obj fields =>
    simp only [readPrincipal, Py.bind_eq_ok_iff, Py.require_eq_ok_iff, field_eq_ok_iff] at h
    obtain ⟨_, -, attributes, hattributes, h⟩ := h
    cases attributes with
    | obj entries =>
      simp only [Py.bind_eq_ok_iff, field_eq_ok_iff, Py.pure_eq_ok, Except.ok.injEq, Py.collect_always_eq_ok_iff] at h
      obtain ⟨_, -, values, hvalues, idValue, hid, id, hidText, classValue, hclass, className,
        hclassText, rfl⟩ := h
      obtain ⟨rfl, hidText⟩ := textArgument_eq_ok_iff.mp hidText
      obtain ⟨rfl, -⟩ := textArgument_eq_ok_iff.mp hclassText
      have hentries : entries = values.map fun entry ↦ (entry.1, Json.str entry.2) := by
        clear hattributes
        induction hvalues with
        | nil => rfl
        | @cons entry value _ _ hread _ ih =>
          simp only [readAttribute, Py.bind_eq_ok_iff, text_eq_ok_iff, Py.pure_eq_ok, Except.ok.injEq] at hread
          obtain ⟨key, ⟨-, rfl⟩, content, hcontent, rfl⟩ := hread
          rw [List.map_cons, ← ih, ← (textArgument_eq_ok_iff.mp hcontent).1]
      refine ⟨NoLarger.obj_lookup (by simp) ?_, fun label ↦ text_label hidText⟩
      simp only [List.forall_mem_cons, List.not_mem_nil, false_imp_iff, implies_true, and_true]
      refine ⟨⟨_, hid, .refl _⟩, ⟨_, hclass, .refl _⟩, ⟨_, hattributes, ?_⟩⟩
      rw [hentries]
      exact NoLarger.obj_fields ((sortBy_perm Prod.fst values).map _).subperm
    | _ => simp at h
  | _ => simp [readPrincipal] at h

/-- What the checks of a domain establish. -/
structure Domain.Checked (domain : Domain) : Prop where
  principals : ∀ principal ∈ domain.principals, Named principal.id
  actions : ∀ action ∈ domain.actions, Named action
  memoryClasses : ∀ memoryClass ∈ domain.memoryClasses, Named memoryClass
  purposes : ∀ purpose ∈ domain.purposes, Named purpose
  labelSets : ∀ labels ∈ domain.labelSets, names (texts labels) "request labels" 32 true = .ok labels

theorem readDomain_spec (h : readDomain source = .ok domain) :
    NoLarger domain.toJson source ∧ domain.Checked := by
  cases source with
  | obj fields =>
    simp only [readDomain, Py.bind_eq_ok_iff, Py.require_eq_ok_iff, field_eq_ok_iff, Py.pure_eq_ok,
      Except.ok.injEq, Py.collect_always_eq_ok_iff] at h
    obtain ⟨_, -, principalsValue, hprincipalsValue, items, hitems, _, -, principals, hprincipals, _, -,
      actionsValue, hactionsValue, actions, hactions, classesValue, hclassesValue, memoryClasses,
      hclasses, purposesValue, hpurposesValue, purposes, hpurposes, _, -, setsValue, hsetsValue, sets,
      hsets, _, -, labels, hlabels, _, -, _, -, rfl⟩ := h
    obtain rfl : principalsValue = .arr items := by
      cases principalsValue <;> simp_all [listItems]
    obtain rfl : setsValue = .arr sets := by
      cases setsValue <;> simp_all [listItems]
    constructor
    · refine NoLarger.obj_lookup (by simp) ?_
      simp only [List.forall_mem_cons, List.not_mem_nil, false_imp_iff, implies_true, and_true]
      refine ⟨⟨_, hprincipalsValue, ?_⟩, ⟨_, hactionsValue, names_noLarger hactions⟩,
        ⟨_, hclassesValue, names_noLarger hclasses⟩, ⟨_, hpurposesValue, names_noLarger hpurposes⟩,
        ⟨_, hsetsValue, ?_⟩⟩
      · refine (NoLarger.arr ((sortBy_perm Principal.id principals).map _).subperm).trans ?_
        refine NoLarger.arr_items (List.forall₂_map_left_iff.mpr ?_)
        exact hprincipals.flip.imp fun _ _ hread ↦ (readPrincipal_noLarger hread).1
      · refine (NoLarger.arr ((sortBy_perm id labels).map _).subperm).trans ?_
        refine NoLarger.arr_items (List.forall₂_map_left_iff.mpr ?_)
        exact hlabels.flip.imp fun _ _ hread ↦ names_noLarger hread
    · refine ⟨?_, named_of_names hactions, named_of_names hclasses, named_of_names hpurposes, ?_⟩
      · intro principal hprincipal
        obtain ⟨value, -, hread⟩ := (Py.mem_collect_iff (Py.collect_always_eq_ok_iff.mpr hprincipals)
          principal).mp (mem_sortBy.mp hprincipal)
        exact (readPrincipal_noLarger (Py.always_eq_ok_iff.mp hread)).2
      · intro values hvalues
        obtain ⟨value, -, hread⟩ := (Py.mem_collect_iff (Py.collect_always_eq_ok_iff.mpr hlabels)
          values).mp (mem_sortBy.mp hvalues)
        exact names_names (Py.always_eq_ok_iff.mp hread)
  | _ => simp [readDomain] at h

theorem readSelectors_spec {selectors : List (Selector × List String)}
    (h : Py.collect (readSelector domain fields) allSelectors = .ok selectors) :
    (selectors.map Prod.fst).Nodup ∧ ∀ entry ∈ selectors,
      ∃ value, fields.lookup entry.1.name = some value ∧ NoLarger (texts entry.2) value := by
  have hread : ∀ selector entry, readSelector domain fields selector = .ok (some entry) →
      selector = entry.1 ∧
        ∃ value, fields.lookup entry.1.name = some value ∧ NoLarger (texts entry.2) value := by
    intro selector entry hentry
    unfold readSelector at hentry
    cases hvalue : fields.lookup selector.name with
    | none => simp [hvalue] at hentry
    | some value =>
      simp only [hvalue, Py.bind_eq_ok_iff, Py.pure_eq_ok, Except.ok.injEq, Option.some.injEq]
        at hentry
      obtain ⟨values, hvalues, _, -, rfl⟩ := hentry
      exact ⟨rfl, value, hvalue, names_noLarger hvalues⟩
  constructor
  · have hnodup : (allSelectors.map id).Nodup := by decide
    refine Py.collect_nodup id hnodup ?_ h
    intro selector _ entry hentry
    exact (hread selector entry hentry).1
  · intro entry hentry
    obtain ⟨selector, -, hselector⟩ := (Py.mem_collect_iff h entry).mp hentry
    exact (hread selector entry hselector).2

theorem readLabels_spec {key : String} {labels : Option (List String)}
    (h : readLabels domain fields key = .ok labels) :
    ∀ values ∈ labels, ∃ value, fields.lookup key = some value ∧ NoLarger (texts values) value := by
  unfold readLabels at h
  cases hvalue : fields.lookup key with
  | none =>
    simp only [hvalue, Except.ok.injEq] at h
    simp [← h]
  | some value =>
    simp only [hvalue, Py.bind_eq_ok_iff, Py.pure_eq_ok, Except.ok.injEq] at h
    obtain ⟨values, hvalues, _, -, rfl⟩ := h
    rintro _ ⟨⟩
    exact ⟨value, rfl, names_noLarger hvalues⟩

theorem readAttributes_spec {attributes : Option (List (String × List String))}
    (h : readAttributes domain fields = .ok attributes) :
    ∀ entries ∈ attributes, ∃ value, fields.lookup "attributes" = some value ∧
      NoLarger (.obj (entries.map fun entry ↦ (entry.1, texts entry.2))) value := by
  unfold readAttributes at h
  split at h
  · cases h
    simp
  · rename_i source hsource
    rw [Py.bind_eq_ok_iff] at h
    obtain ⟨_, -, h⟩ := h
    cases hread : Py.collect (Py.always readAlternatives) (sortBy Prod.fst source) with
    | error error => simp [hread] at h
    | ok entries =>
      rw [hread, Py.map_ok, Except.ok.injEq] at h
      subst h
      rintro _ ⟨⟩
      refine ⟨_, hsource, NoLarger.trans (NoLarger.obj ?_)
        (NoLarger.obj_fields (sortBy_perm Prod.fst source).subperm)⟩
      rw [List.forall₂_map_left_iff]
      refine (Py.collect_always_eq_ok_iff.mp hread).flip.imp fun entry field hentry ↦ ?_
      simp only [readAlternatives, Py.bind_eq_ok_iff, Py.pure_eq_ok, Except.ok.injEq] at hentry
      obtain ⟨values, hvalues, rfl⟩ := hentry
      exact ⟨rfl, names_noLarger hvalues⟩
  · cases h

theorem eq_of_readEffect {value : Json} {deny : Bool} (h : readEffect value = some deny) :
    value = .str (if deny then "deny" else "allow") := by
  unfold readEffect at h
  split at h
  · split_ifs at h with hallow hdeny
    · cases h
      rw [hallow]
      rfl
    · cases h
      rw [hdeny]
      rfl
  · cases h

theorem readRule_noLarger {known : List String} {rule : Rule} (h : readRule domain known source = .ok rule) :
    NoLarger rule.toJson source := by
  cases source with
  | obj fields =>
    simp only [readRule, Py.bind_eq_ok_iff, Py.require_eq_ok_iff, field_eq_ok_iff, Py.pure_eq_ok,
      Except.ok.injEq, Bool.and_eq_true] at h
    obtain ⟨_, -, idValue, hidValue, id, hid, effect, heffect, _, ⟨-, hknown⟩, selectors, hselectors,
      required, hrequired, forbidden, hforbidden, attributes, hattributes, rfl⟩ := h
    obtain ⟨deny, hdeny⟩ := Option.isSome_iff_exists.mp hknown
    obtain ⟨rfl, -⟩ := textArgument_eq_ok_iff.mp hid
    obtain rfl := eq_of_readEffect hdeny
    obtain ⟨hnodup, hselectors⟩ := readSelectors_spec hselectors
    refine NoLarger.obj_lookup ?_ ?_
    · -- the keys of the parts are different, whichever of them are there
      have hnames : ((selectors.map Prod.fst).map Selector.name).Nodup :=
        hnodup.map fun first second ↦ by cases first <;> cases second <;> decide
      have hother : ∀ selector : Selector, selector.name ∉
          ["id", "effect", "required_labels", "forbidden_labels", "attributes"] := by
        intro selector
        cases selector <;> decide
      have hfull : (["id", "effect"] ++ (selectors.map Prod.fst).map Selector.name ++
          ["required_labels"] ++ ["forbidden_labels"] ++ ["attributes"]).Nodup := by
        simp only [List.append_assoc]
        refine (List.perm_append_comm_assoc _ _ _).nodup_iff.mp ?_
        refine List.nodup_append.mpr ⟨hnames, by decide, ?_⟩
        rw [List.forall_mem_map]
        rintro selector - other hother' rfl
        exact hother selector hother'
      have hoption : ∀ {β : Type} (key : String) (change : β → Json) (value : Option β),
          ((value.map fun content ↦ (key, change content)).toList.map Prod.fst).Sublist [key] := by
        intro β key change value
        cases value <;> simp
      refine hfull.sublist ?_
      simp only [List.map_append, List.map_map]
      exact ((((List.Sublist.refl _).append (hoption _ _ _)).append (hoption _ _ _)).append (hoption _ _ _))
    · simp only [List.forall_mem_append, List.forall_mem_cons, List.forall_mem_map, List.not_mem_nil,
        false_imp_iff, implies_true, and_true, Option.mem_toList,
        Option.map_eq_some_iff, forall_exists_index, and_imp]
      refine ⟨⟨⟨⟨⟨⟨_, hidValue, .refl _⟩, ⟨_, heffect, ?_⟩⟩, hselectors⟩, ?_⟩, ?_⟩, ?_⟩
      · rw [hdeny]
        exact .refl _
      · rintro _ values hvalues rfl
        exact readLabels_spec hrequired values hvalues
      · rintro _ values hvalues rfl
        exact readLabels_spec hforbidden values hvalues
      · rintro _ entries hentries rfl
        exact readAttributes_spec hattributes entries hentries
  | _ => simp [readRule] at h

theorem readRules_noLarger {known : List String} {sources : List Json} {rules : List Rule}
    (h : readRules domain known sources = .ok rules) :
    List.Forall₂ NoLarger (rules.map Rule.toJson) sources := by
  induction sources generalizing known rules with
  | nil =>
    cases h
    exact .nil
  | cons source sources ih =>
    simp only [readRules, Py.bind_eq_ok_iff, Py.pure_eq_ok, Except.ok.injEq] at h
    obtain ⟨rule, hrule, rest, hrest, rfl⟩ := h
    exact .cons (readRule_noLarger hrule) (ih hrest)

theorem normalize_spec {policy : Policy} (h : normalize source = .ok policy) :
    Wirable policy.toJson ∧ policy.domain.Checked := by
  cases source with
  | obj fields =>
    simp only [normalize, Py.bind_eq_ok_iff, Py.require_eq_ok_iff, field_eq_ok_iff, Py.pure_eq_ok,
      Except.ok.injEq] at h
    obtain ⟨encoded, hwire, _, hvalid, domainValue, hdomainValue, domain, hdomain, rulesValue,
      hrulesValue, items, hitems, _, -, rules, hrules, rfl⟩ := h
    obtain rfl : rulesValue = .arr items := by
      cases rulesValue <;> simp_all [listItems]
    obtain ⟨hsmaller, hchecked⟩ := readDomain_spec hdomain
    refine ⟨(wire_eq_ok_iff.mp hwire).1.of_noLarger (NoLarger.obj_lookup (by simp) ?_), hchecked⟩
    simp only [List.forall_mem_cons, List.not_mem_nil, false_imp_iff, implies_true, and_true]
    refine ⟨?_, ⟨_, hdomainValue, hsmaller⟩, ⟨_, hrulesValue, ?_⟩⟩
    · rw [Bool.and_eq_true] at hvalid
      have hversion := hvalid.2
      split at hversion
      · rename_i version hversionValue
        rw [decide_eq_true_eq] at hversion
        exact ⟨_, hversionValue, hversion ▸ .refl _⟩
      · cases hversion
    · exact (NoLarger.arr ((sortBy_perm Rule.id rules).map _).subperm).trans
        (NoLarger.arr_items (readRules_noLarger hrules))
  | _ => simp [normalize] at h

end UniMem.PolicyProof
