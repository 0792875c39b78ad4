import UniMem.PolicyProof.Normalize

/-!
# Changes of a policy

`difference` evaluates two policies on the union of their domains. Requests outside a domain are denied, so what it
finds holds of every request.
-/

namespace UniMem.PolicyProof

open Library FrontierProtocol

/-- A request, also as a tuple of a finite domain. -/
structure Request where
  principal : String
  action : String
  memoryClass : String
  labels : List String
  purpose : String

def Request.toJson (request : Request) : Json :=
  .obj [("principal", .str request.principal), ("action", .str request.action),
    ("memory_class", .str request.memoryClass), ("labels", texts request.labels), ("purpose", .str request.purpose)]

/-- The value of a request that a selector looks at. -/
def Selector.value (subject : Principal) (request : Request) : Selector → String
  | .principals => request.principal
  | .principalClasses => subject.className
  | .actions => request.action
  | .memoryClasses => request.memoryClass
  | .purposes => request.purpose

/-- Whether a rule applies to a request. -/
def Rule.applies (rule : Rule) (subject : Principal) (request : Request) : Bool :=
  rule.selectors.all (fun entry ↦ entry.1.value subject request ∈ entry.2) &&
    (rule.requiredLabels.getD []).all (· ∈ request.labels) &&
    !(rule.forbiddenLabels.getD []).any (· ∈ request.labels) &&
    (rule.attributes.getD []).all fun entry ↦
      match subject.attributes.lookup entry.1 with
      | some value => value ∈ entry.2
      | none => false

/-- The loop over the rules. A rule that denies ends it. -/
def decideRules (subject : Principal) (request : Request) : Bool → List Rule → Bool
  | allowed, [] => allowed
  | allowed, rule :: rules =>
    if rule.applies subject request then
      if rule.deny then false else decideRules subject request true rules
    else decideRules subject request allowed rules

/-- `_allows`. -/
def Policy.allows (policy : Policy) (request : Request) : Bool :=
  match policy.domain.principals.find? fun row ↦ row.id = request.principal with
  | none => false
  | some subject =>
    if request.action ∈ policy.domain.actions ∧ request.memoryClass ∈ policy.domain.memoryClasses ∧
        request.purpose ∈ policy.domain.purposes ∧ request.labels ∈ policy.domain.labelSets then
      decideRules subject request false policy.rules
    else false

/-- `allows`. -/
def allows (policy : Json) (request : Request) : Py Bool := do
  let normalized ← normalize policy
  let labels ← names (texts request.labels) "request labels" 32 true
  return normalized.allows { request with labels := labels }

/-- The axes of the union of two domains. -/
structure Axes where
  principals : List String
  actions : List String
  memoryClasses : List String
  labelSets : List (List String)
  purposes : List String

def Axes.toJson (axes : Axes) : Json :=
  .obj [("actions", texts axes.actions), ("memory_classes", texts axes.memoryClasses),
    ("purposes", texts axes.purposes), ("principals", texts axes.principals),
    ("label_sets", .arr (axes.labelSets.map texts))]

/-- `sorted(set(left) | set(right))`. -/
def union {α : Type} [LinearOrder α] (left right : List α) : List α :=
  sortBy id (left ++ right).dedup

/-- The union of two domains. -/
def Domain.union (left right : Domain) : Axes where
  principals := PolicyProof.union (left.principals.map Principal.id) (right.principals.map Principal.id)
  actions := PolicyProof.union left.actions right.actions
  memoryClasses := PolicyProof.union left.memoryClasses right.memoryClasses
  labelSets := PolicyProof.union left.labelSets right.labelSets
  purposes := PolicyProof.union left.purposes right.purposes

/-- The lengths of the axes, in the order of `AXES`. -/
def Axes.lengths (axes : Axes) : List ℕ :=
  [axes.principals.length, axes.actions.length, axes.memoryClasses.length, axes.labelSets.length,
    axes.purposes.length]

/-- `itertools.product` of the axes. -/
def Axes.tuples (axes : Axes) : List Request :=
  axes.principals.flatMap fun principal ↦ axes.actions.flatMap fun action ↦
    axes.memoryClasses.flatMap fun memoryClass ↦ axes.labelSets.flatMap fun labels ↦
      axes.purposes.map fun purpose ↦ ⟨principal, action, memoryClass, labels, purpose⟩

/-- One direction of a change: how many tuples, the first ones, and the hashed bytes. -/
structure Direction where
  count : ℕ
  rows : List Request
  hashed : Bytes

/-- A tuple that changes in a direction. -/
def Direction.add (direction : Direction) (request : Request) (encoded : Bytes) : Direction where
  count := direction.count + 1
  rows := if direction.rows.length < 64 then direction.rows ++ [request] else direction.rows
  hashed := direction.hashed ++ encoded ++ [0x0a]

/-- One turn of the loop over the tuples. -/
def compare (before after : Policy) (changes : Direction × Direction) (request : Request) :
    Py (Direction × Direction) :=
  if before.allows request = after.allows request then .ok changes
  else do
    let encoded ← wire request.toJson
    return if after.allows request then (changes.1.add request encoded, changes.2)
      else (changes.1, changes.2.add request encoded)

/-- What `difference` returns, besides its constant texts. -/
structure Difference where
  oldHash : String
  newHash : String
  domainHash : String
  tuplesChecked : ℤ
  wideningCount : ℕ
  narrowingCount : ℕ
  noWidening : Bool
  added : List Request
  removed : List Request
  wideningDigest : String
  narrowingDigest : String
  witnessesTruncated : Bool

/-- `difference`. -/
def difference (runtime : Runtime) (old new : Json) : Py Difference := do
  let before ← normalize old
  let after ← normalize new
  let domain := before.domain.union after.domain
  let tuples ← bound domain.lengths
  let (widening, narrowing) ← domain.tuples.foldlM (compare before after) (⟨0, [], []⟩, ⟨0, [], []⟩)
  let oldHash ← digest runtime before.toJson
  let newHash ← digest runtime after.toJson
  let domainHash ← digest runtime domain.toJson
  return {
    oldHash := oldHash
    newHash := newHash
    domainHash := domainHash
    tuplesChecked := tuples
    wideningCount := widening.count
    narrowingCount := narrowing.count
    noWidening := widening.count = 0
    added := widening.rows
    removed := narrowing.rows
    wideningDigest := runtime.sha256 widening.hashed
    narrowingDigest := runtime.sha256 narrowing.hashed
    witnessesTruncated := widening.rows.length < widening.count ||
      narrowing.rows.length < narrowing.count }

variable {policy before after : Policy} {request : Request} {α : Type} {requests : List Request} {old new : Json}

theorem Policy.mem_domain (h : policy.allows request = true) :
    request.principal ∈ policy.domain.principals.map Principal.id ∧
      request.action ∈ policy.domain.actions ∧ request.memoryClass ∈ policy.domain.memoryClasses ∧
      request.purpose ∈ policy.domain.purposes ∧ request.labels ∈ policy.domain.labelSets := by
  unfold Policy.allows at h
  cases hfind : policy.domain.principals.find? fun row ↦ row.id = request.principal with
  | none => simp [hfind] at h
  | some subject =>
    simp only [hfind] at h
    split_ifs at h with hdomain
    refine ⟨List.mem_map.mpr ⟨subject, List.mem_of_find?_eq_some hfind, ?_⟩, hdomain⟩
    simpa using List.find?_some hfind

theorem mem_union [LinearOrder α] {left right : List α} {value : α} :
    value ∈ union left right ↔ value ∈ left ∨ value ∈ right := by
  rw [union, mem_sortBy, List.mem_dedup, List.mem_append]

theorem Axes.mem_tuples_iff {axes : Axes} :
    request ∈ axes.tuples ↔ request.principal ∈ axes.principals ∧ request.action ∈ axes.actions ∧
      request.memoryClass ∈ axes.memoryClasses ∧ request.labels ∈ axes.labelSets ∧
      request.purpose ∈ axes.purposes := by
  simp only [Axes.tuples, List.mem_flatMap, List.mem_map]
  constructor
  · rintro ⟨principal, hprincipal, action, haction, memoryClass, hmemoryClass, labels, hlabels, purpose,
      hpurpose, rfl⟩
    exact ⟨hprincipal, haction, hmemoryClass, hlabels, hpurpose⟩
  · rintro ⟨hprincipal, haction, hmemoryClass, hlabels, hpurpose⟩
    exact ⟨_, hprincipal, _, haction, _, hmemoryClass, _, hlabels, _, hpurpose, rfl⟩

theorem mem_tuples_of_allows (hpolicy : policy = before ∨ policy = after) (h : policy.allows request = true) :
    request ∈ (before.domain.union after.domain).tuples := by
  obtain ⟨hprincipal, haction, hmemoryClass, hpurpose, hlabels⟩ := policy.mem_domain h
  refine Axes.mem_tuples_iff.mpr ?_
  simp only [Domain.union, mem_union]
  rcases hpolicy with rfl | rfl
  · exact ⟨.inl hprincipal, .inl haction, .inl hmemoryClass, .inl hlabels, .inl hpurpose⟩
  · exact ⟨.inr hprincipal, .inr haction, .inr hmemoryClass, .inr hlabels, .inr hpurpose⟩

theorem Named.size_le {content : String} (h : Named content) : size (.str content) ≤ 770 := by
  have hquote := quote_le_length content
  have hshort := (text_eq_ok_iff.mp (h "")).1
  have hsize : size (.str content) = (Json.quote content).length := rfl
  simp only [not_or, not_lt] at hshort
  omega

theorem wirable_request (hprincipal : Named request.principal) (haction : Named request.action)
    (hclass : Named request.memoryClass) (hpurpose : Named request.purpose)
    (hlabels : names (texts request.labels) "request labels" 32 true = .ok request.labels) :
    Wirable request.toJson := by
  have hnamed := named_of_names hlabels
  obtain ⟨source, -, -, hbound, -, -, hsource⟩ := names_eq_ok_iff.mp hlabels
  have hlength : request.labels.length ≤ 32 := by
    rw [hsource, (sortBy_perm id source).length_eq]
    exact hbound
  have hsize : size (texts request.labels) ≤ 2 + 32 * 771 := by
    rcases eq_or_ne request.labels [] with hnil | hne
    · rw [hnil]
      exact (by decide : 2 ≤ 2 + 32 * 771)
    · have harr := size_texts_add_one hne
      have hsum : (request.labels.map fun content ↦ 1 + (Json.quote content).length).sum ≤
          request.labels.length * 771 := by
        rw [← smul_eq_mul, ← List.length_map (fun content ↦ 1 + (Json.quote content).length)]
        refine List.sum_le_card_nsmul _ _ ?_
        rw [List.forall_mem_map]
        intro content hcontent
        have hcontentSize := (hnamed content hcontent).size_le
        have heq : size (.str content) = (Json.quote content).length := rfl
        omega
      have htexts : size (texts request.labels) = size (.arr (request.labels.map .str)) := rfl
      omega
  refine wirable_of_size ?_ ?_
  · have htexts := everywhere_texts (by decide : 1 < 64) request.labels
    simp only [Request.toJson, Json.Everywhere, Json.EverywhereFields, Plain, texts] at htexts ⊢
    simp [htexts]
  · have hobj := size_obj_eq (List.cons_ne_nil ("principal", .str request.principal)
      [("action", .str request.action), ("memory_class", .str request.memoryClass),
        ("labels", texts request.labels), ("purpose", .str request.purpose)])
    change size request.toJson + 1 = 2 + ((["principal", "action", "memory_class", "labels",
      "purpose"]).map fun key ↦ 2 + (Json.quote key).length).sum + _ at hobj
    have hkeys : ((["principal", "action", "memory_class", "labels", "purpose"]).map fun key ↦
        2 + (Json.quote key).length).sum = 60 := by decide
    have hsizes := hprincipal.size_le
    have hsizes' := haction.size_le
    have hsizes'' := hclass.size_le
    have hsizes''' := hpurpose.size_le
    rw [hkeys] at hobj
    simp only [List.map_cons, List.map_nil, List.sum_cons, List.sum_nil] at hobj
    rw [maxNodes]
    omega

/-- The tuples that a change allows. -/
def widened (before after : Policy) (request : Request) : Bool :=
  after.allows request && !before.allows request

theorem foldlM_compare (before after : Policy) (hwirable : ∀ request ∈ requests, Wirable request.toJson)
    (changes : Direction × Direction) :
    ∃ result, requests.foldlM (compare before after) changes = .ok result ∧
      result.1.count = changes.1.count + requests.countP (widened before after) ∧
      result.2.count = changes.2.count + requests.countP (widened after before) := by
  induction requests generalizing changes with
  | nil => exact ⟨changes, rfl, rfl, rfl⟩
  | cons request requests ih =>
    rw [List.forall_mem_cons] at hwirable
    rw [List.foldlM_cons]
    cases hbefore : before.allows request <;> cases hafter : after.allows request
    · obtain ⟨result, hresult, hfirst, hsecond⟩ := ih hwirable.2 changes
      refine ⟨result, ?_, ?_, ?_⟩
      · simp [compare, hbefore, hafter, hresult]
      · simp [hfirst, widened, hbefore, hafter]
      · simp [hsecond, widened, hbefore, hafter]
    · obtain ⟨result, hresult, hfirst, hsecond⟩ :=
        ih hwirable.2 (changes.1.add request (canonicalBytes request.toJson), changes.2)
      refine ⟨result, ?_, ?_, ?_⟩
      · simp [compare, hbefore, hafter, hwirable.1.wire_eq, hresult]
      · simp [hfirst, widened, hbefore, hafter, Direction.add]
        omega
      · simp [hsecond, widened, hbefore, hafter]
    · obtain ⟨result, hresult, hfirst, hsecond⟩ :=
        ih hwirable.2 (changes.1, changes.2.add request (canonicalBytes request.toJson))
      refine ⟨result, ?_, ?_, ?_⟩
      · simp [compare, hbefore, hafter, hwirable.1.wire_eq, hresult]
      · simp [hfirst, widened, hbefore, hafter]
      · simp [hsecond, widened, hbefore, hafter, Direction.add]
        omega
    · obtain ⟨result, hresult, hfirst, hsecond⟩ := ih hwirable.2 changes
      refine ⟨result, ?_, ?_, ?_⟩
      · simp [compare, hbefore, hafter, hresult]
      · simp [hfirst, widened, hbefore, hafter]
      · simp [hsecond, widened, hbefore, hafter]

theorem wirable_tuples (hbefore : before.domain.Checked) (hafter : after.domain.Checked) :
    ∀ request ∈ (before.domain.union after.domain).tuples, Wirable request.toJson := by
  intro request hrequest
  simp only [Axes.mem_tuples_iff, Domain.union, mem_union, List.mem_map] at hrequest
  obtain ⟨hprincipal, haction, hclass, hlabels, hpurpose⟩ := hrequest
  refine wirable_request ?_ ?_ ?_ ?_ ?_
  · rcases hprincipal with ⟨principal, hmem, heq⟩ | ⟨principal, hmem, heq⟩
    · exact heq ▸ hbefore.principals principal hmem
    · exact heq ▸ hafter.principals principal hmem
  · exact haction.elim (hbefore.actions _) (hafter.actions _)
  · exact hclass.elim (hbefore.memoryClasses _) (hafter.memoryClasses _)
  · exact hpurpose.elim (hbefore.purposes _) (hafter.purposes _)
  · exact hlabels.elim (hbefore.labelSets _) (hafter.labelSets _)

theorem allows_eq_ok_iff {source : Json} (hnormalize : normalize source = .ok policy) {result : Bool} :
    allows source request = .ok result ↔
      ∃ labels, names (texts request.labels) "request labels" 32 true = .ok labels ∧
        policy.allows { request with labels := labels } = result := by
  simp only [allows, hnormalize, Py.bind_ok, Py.bind_eq_ok_iff, Py.pure_eq_ok, Except.ok.injEq]

theorem countP_widened_eq_zero_iff (hold : normalize old = .ok before) (hnew : normalize new = .ok after)
    (hrequests : ∀ request, after.allows request = true → request ∈ requests) :
    requests.countP (widened before after) = 0 ↔
      ∀ request, allows new request = .ok true → allows old request = .ok true := by
  rw [List.countP_eq_zero]
  constructor
  · intro hnone request hallowed
    obtain ⟨labels, hlabels, hafter⟩ := (allows_eq_ok_iff hnew).mp hallowed
    refine (allows_eq_ok_iff hold).mpr ⟨labels, hlabels, ?_⟩
    have hwidened := hnone _ (hrequests _ hafter)
    rw [widened, hafter, Bool.true_and, Bool.not_eq_true', Bool.not_eq_false] at hwidened
    exact hwidened
  · intro himplies request _ hwidened
    rw [widened, Bool.and_eq_true, Bool.not_eq_true'] at hwidened
    obtain ⟨hafter, hbefore⟩ := hwidened
    -- the labels of an allowed tuple are sorted, so the tuple is a request of its own
    have hlabels := (normalize_spec hnew).2.labelSets _ (after.mem_domain hafter).2.2.2.2
    obtain ⟨labels, hlabels', hallowed⟩ := (allows_eq_ok_iff hold).mp
      (himplies request ((allows_eq_ok_iff hnew).mpr ⟨_, hlabels, hafter⟩))
    rw [hlabels, Except.ok.injEq] at hlabels'
    subst hlabels'
    rw [hbefore] at hallowed
    cases hallowed

theorem difference_spec (runtime : Runtime) (hold : normalize old = .ok before) (hnew : normalize new = .ok after)
    {tuples : ℤ} (hbound : bound (before.domain.union after.domain).lengths = .ok tuples) :
    ((∃ result, difference runtime old new = .ok result) ↔ Wirable (before.domain.union after.domain).toJson) ∧
      ∀ result, difference runtime old new = .ok result → result.noWidening = decide
          ((before.domain.union after.domain).tuples.countP (widened before after) = 0) ∧ result.narrowingCount =
          (before.domain.union after.domain).tuples.countP (widened after before) := by
  obtain ⟨hwireBefore, hbefore⟩ := normalize_spec hold
  obtain ⟨hwireAfter, hafter⟩ := normalize_spec hnew
  obtain ⟨changes, hchanges, hwidening, hnarrowing⟩ := foldlM_compare before after
    (wirable_tuples hbefore hafter) (⟨0, [], []⟩, ⟨0, [], []⟩)
  rw [Nat.zero_add] at hwidening hnarrowing
  have hdigestBefore : digest runtime before.toJson = _ := digest_eq_ok_iff.mpr ⟨hwireBefore, rfl⟩
  have hdigestAfter : digest runtime after.toJson = _ := digest_eq_ok_iff.mpr ⟨hwireAfter, rfl⟩
  simp only [difference, hold, hnew, hbound, hchanges, hdigestBefore, hdigestAfter, Py.bind_ok,
    Py.bind_eq_ok_iff, Py.pure_eq_ok, Except.ok.injEq]
  constructor
  · constructor
    · rintro ⟨result, domainHash, hdomain, -⟩
      exact (digest_eq_ok_iff.mp hdomain).1
    · intro hdomain
      exact ⟨_, _, digest_eq_ok_iff.mpr ⟨hdomain, rfl⟩, rfl⟩
  · rintro result ⟨domainHash, -, rfl⟩
    simp only [hwidening, hnarrowing, and_self]

/-- Change analysis is exact over all requests, if the domains have an envelope. -/
theorem difference_iff_requests (runtime : Runtime) {old new : Json} {before after : Policy}
    (hold : normalize old = .ok before) (hnew : normalize new = .ok after)
    {tuples : ℤ} (hbound : bound (before.domain.union after.domain).lengths = .ok tuples) :
    ((∃ result, difference runtime old new = .ok result) ↔ Wirable (before.domain.union after.domain).toJson) ∧
      ∀ result, difference runtime old new = .ok result → (result.noWidening = true ↔
          ∀ request, allows new request = .ok true → allows old request = .ok true) ∧ (result.narrowingCount = 0 ↔
          ∀ request, allows old request = .ok true → allows new request = .ok true) := by
  obtain ⟨hreturns, hcounts⟩ := difference_spec runtime hold hnew hbound
  refine ⟨hreturns, fun result hresult ↦ ?_⟩
  obtain ⟨hwidening, hnarrowing⟩ := hcounts result hresult
  rw [hwidening, hnarrowing, decide_eq_true_eq]
  exact ⟨countP_widened_eq_zero_iff hold hnew fun request ↦ mem_tuples_of_allows (.inr rfl),
    countP_widened_eq_zero_iff hnew hold fun request ↦ mem_tuples_of_allows (.inl rfl)⟩

namespace Sample

def tail : String := String.ofList (List.replicate 120 (Char.ofNat 1))

def marked (number : ℕ) : String := String.singleton (Char.ofNat (256 + number)) ++ tail

def labelSet (index : ℕ) : List String := (List.range 32).map fun position ↦ marked (32 * index + position)

def axes : List (String × Json) :=
  [("principals", .arr [.obj [("id", .str "alice"), ("class", .str "person"), ("attributes", .obj [])]]),
    ("actions", texts ["read"]), ("memory_classes", texts ["fact"]), ("purposes", texts ["recall"])]

def denyOn (sets : List Json) : Json :=
  .obj [("version", .int 1), ("rules", .arr []), ("domain", .obj (("label_sets", .arr sets) :: axes))]

def permitAll : Json :=
  .obj [("version", .int 1), ("rules", .arr [.obj [("id", .str "permit"), ("effect", .str "allow")]]),
    ("domain", .obj (("label_sets", .arr [.arr []]) :: axes))]

def domain : Domain := ⟨[⟨"alice", "person", []⟩], ["read"], ["fact"], ["recall"], [[]]⟩

def runtime : Runtime where
  sha256 bytes := toString bytes.length
  hmacSha256 _ _ := "0"
  ed25519PublicBytes key := key
  ed25519Sign _ _ := "0"
  ed25519Verify _ _ _ := true
  jsonLoads _ := none
  retainedSize _ := 0

def denyAll (first total : ℕ) : Json :=
  denyOn ((List.range total).map fun index ↦ texts (labelSet (first + index)))

def denied (first total : ℕ) : Policy where
  domain := {
    principals := [⟨"alice", "person", []⟩]
    actions := ["read"]
    memoryClasses := ["fact"]
    purposes := ["recall"]
    labelSets := sortBy id ((List.range total).map fun index ↦ sortBy id (labelSet (first + index))) }
  rules := []

theorem toNat_marker {number : ℕ} (h : number < 1600) : (Char.ofNat (256 + number)).toNat = 256 + number := by
  rw [Char.toNat_ofNat, if_pos]
  exact Or.inl (by omega)

theorem toList_marked (number : ℕ) :
    (marked number).toList = Char.ofNat (256 + number) :: List.replicate 120 (Char.ofNat 1) := by
  have htail : tail.toList = List.replicate 120 (Char.ofNat 1) := String.toList_ofList
  rw [marked, String.toList_append, String.toList_singleton, htail, List.singleton_append]

variable {first : ℕ}

theorem marked_injective {second : ℕ} (hfirst : first < 1600) (hsecond : second < 1600)
    (h : marked first = marked second) : first = second := by
  have hchars := congrArg String.toList h
  rw [toList_marked, toList_marked] at hchars
  have htoNat := congrArg Char.toNat (List.cons.inj hchars).1
  rw [toNat_marker hfirst, toNat_marker hsecond] at htoNat
  omega

theorem named_marked {number : ℕ} (h : number < 1600) : Named (marked number) := by
  intro label
  have htail : tail.utf8ByteSize = 120 := by decide +kernel
  have hmarker := Char.utf8Size_le_four (Char.ofNat (256 + number))
  have hbytes : (marked number).utf8ByteSize ≤ 124 := by
    rw [marked, String.utf8ByteSize_append, String.utf8ByteSize_singleton]
    omega
  have hlength : (marked number).length = 121 := by
    rw [← String.length_toList, toList_marked, List.length_cons, List.length_replicate]
  have hzero : '\x00' ∉ (marked number).toList := by
    rw [toList_marked, List.mem_cons, List.mem_replicate, not_or]
    refine ⟨fun heq ↦ ?_, by decide⟩
    have htoNat := congrArg Char.toNat heq
    rw [toNat_marker h] at htoNat
    exact absurd htoNat (by simp; omega)
  refine text_eq_ok_iff.mpr ⟨?_, rfl⟩
  rw [String.isEmpty_iff_utf8ByteSize_eq_zero]
  have hpos : (marked number).utf8ByteSize ≠ 0 := by
    rw [marked, String.utf8ByteSize_append]
    omega
  simp only [hzero, or_false]
  omega

theorem length_quote_marked (number : ℕ) :
    723 ≤ (Json.quote (marked number)).length ∧ (Json.quote (marked number)).length ≤ 728 := by
  have hlength : (marked number).length = 121 := by
    rw [← String.length_toList, toList_marked, List.length_cons, List.length_replicate]
  have hupper := quote_le_length (marked number)
  have hcontrol : (Json.escape (Char.ofNat 1)).length = 6 := by decide
  have hmarker : 1 ≤ (Json.escape (Char.ofNat (256 + number))).length := by
    have hquote := length_le_quote (String.singleton (Char.ofNat (256 + number)))
    rw [Json.quote, String.toList_singleton, List.flatMap_cons, List.flatMap_nil] at hquote
    simp only [String.length_singleton, List.length_cons, List.length_append, List.length_nil] at hquote
    omega
  refine ⟨?_, by omega⟩
  rw [Json.quote, toList_marked]
  simp only [List.flatMap_cons, List.length_cons, List.length_append, List.length_nil,
    List.length_flatMap, List.map_replicate, List.sum_replicate, hcontrol, smul_eq_mul]
  omega

theorem labelSet_ne_nil (index : ℕ) : labelSet index ≠ [] := by simp [labelSet]

theorem nodup_labelSet {index : ℕ} (h : index < 50) : (labelSet index).Nodup := by
  refine List.Nodup.map_on ?_ List.nodup_range
  intro first hfirst second hsecond heq
  rw [List.mem_range] at hfirst hsecond
  have hnumber := marked_injective (by omega) (by omega) heq
  omega

theorem names_labelSet {index : ℕ} (h : index < 50) (label : String) :
    names (texts (labelSet index)) label 32 true = .ok (sortBy id (labelSet index)) := by
  refine names_eq_ok_iff.mpr ⟨_, rfl, by simp, by simp [labelSet], ?_, nodup_labelSet h, rfl⟩
  simp only [labelSet, List.forall_mem_map, List.mem_range]
  intro position hposition
  exact named_marked (by omega) label

theorem nodup_labelSets {total : ℕ} (h : first + total ≤ 50) :
    ((List.range total).map fun index ↦ sortBy id (labelSet (first + index))).Nodup := by
  refine List.Nodup.map_on ?_ List.nodup_range
  intro index hindex other hother heq
  rw [List.mem_range] at hindex hother
  have hmem : marked (32 * (first + index) + 0) ∈ sortBy id (labelSet (first + index)) :=
    mem_sortBy.mpr (List.mem_map.mpr ⟨0, by simp, rfl⟩)
  rw [heq] at hmem
  obtain ⟨position, hposition, hmarked⟩ := List.mem_map.mp (mem_sortBy.mp hmem)
  rw [List.mem_range] at hposition
  have hnumber := marked_injective (by omega) (by omega) hmarked
  omega

theorem size_labelSet (labels : List String) (index : ℕ) (h : labels.Perm (labelSet index)) :
    32 * 724 ≤ size (texts labels) ∧ size (texts labels) ≤ 1 + 32 * 729 := by
  have hne : labels ≠ [] := fun hnil ↦ labelSet_ne_nil index (hnil ▸ h).nil_eq.symm
  have hsize : size (texts labels) + 1 = _ := size_texts_add_one hne
  rw [(h.map _).sum_eq] at hsize
  have hlength : ((labelSet index).map fun text ↦ 1 + (Json.quote text).length).length = 32 := by
    simp [labelSet]
  have hlower := List.card_nsmul_le_sum
    ((labelSet index).map fun text ↦ 1 + (Json.quote text).length) 724 (by
      simp only [labelSet, List.map_map, List.forall_mem_map, Function.comp_apply]
      intro position _
      have hquote := length_quote_marked (32 * index + position)
      omega)
  have hupper := List.sum_le_card_nsmul
    ((labelSet index).map fun text ↦ 1 + (Json.quote text).length) 729 (by
      simp only [labelSet, List.map_map, List.forall_mem_map, Function.comp_apply]
      intro position _
      have hquote := length_quote_marked (32 * index + position)
      omega)
  rw [hlength, smul_eq_mul] at hlower hupper
  omega

theorem measures_denyOn (sets : List Json) :
    size (denyOn sets) ≤ 300 + size (.arr sets) ∧ nodes (denyOn sets) ≤ 300 + nodes (.arr sets) := by
  have hsizes : ((["version", "rules", "domain"]).map fun key ↦ 2 + (Json.quote key).length).sum +
      ((["label_sets"] ++ axes.map Prod.fst).map fun key ↦ 2 + (Json.quote key).length).sum +
      size (.int 1) + size (.arr []) + ((axes.map Prod.snd).map size).sum ≤ 290 := by decide +kernel
  have hnodes : nodes (.int 1) + nodes (.arr []) + ((axes.map Prod.snd).map nodes).sum ≤ 290 := by
    decide +kernel
  constructor
  · have hdomain := size_obj_eq (List.cons_ne_nil ("label_sets", .arr sets) axes)
    have hpolicy := size_obj_eq (List.cons_ne_nil ("version", .int 1) [("rules", .arr []),
      ("domain", .obj (("label_sets", .arr sets) :: axes))])
    simp only [List.map_cons, List.map_nil, List.sum_cons, List.sum_nil, List.cons_append,
      List.nil_append] at hdomain hpolicy hsizes
    have hpolicySize : size (denyOn sets) = size (.obj [("version", .int 1), ("rules", .arr []),
      ("domain", .obj (("label_sets", .arr sets) :: axes))]) := rfl
    omega
  · rw [nodes_eq, denyOn, Json.children]
    simp only [List.map_cons, List.map_nil, List.sum_cons, List.sum_nil]
    rw [nodes_eq (.obj _), Json.children]
    simp only [List.map_cons, List.sum_cons]
    omega

theorem nodes_texts (values : List String) : nodes (texts values) = 1 + values.length := by
  have hstr : ∀ content, nodes (.str content) = 1 := fun content ↦ by
    rw [nodes_eq]
    rfl
  rw [nodes_eq, texts, Json.children, List.map_map, Function.comp_def]
  simp [hstr]

theorem wirable_denyAll {total : ℕ} (hpos : 0 < total) (h : total ≤ 25) :
    Wirable (denyAll first total) := by
  obtain ⟨hsize, hnodes⟩ := measures_denyOn
    ((List.range total).map fun index ↦ texts (labelSet (first + index)))
  refine wirable_of_nodes ?_ ?_ ?_
  · have hsets : Json.Everywhere Plain 2 (.arr ((List.range total).map fun index ↦
        texts (labelSet (first + index)))) := by
      rw [Json.everywhere_iff]
      refine ⟨by simp [Plain], ?_⟩
      simp only [Json.children, List.forall_mem_map]
      exact fun index _ ↦ everywhere_texts (by decide) _
    simp [denyAll, denyOn, axes, texts, Json.Everywhere, Json.EverywhereFields, Json.EverywhereItems,
      Plain] at hsets ⊢
    exact hsets
  · refine hnodes.trans ?_
    rw [nodes_eq, Json.children, List.map_map, Function.comp_def]
    simp only [nodes_texts, labelSet, List.length_map, List.length_range, List.map_const',
      List.sum_replicate, smul_eq_mul, maxNodes]
    omega
  · refine hsize.trans ?_
    have hne : ((List.range total).map fun index ↦ texts (labelSet (first + index))) ≠ [] := by
      simpa using hpos.ne'
    have harr := size_arr_add_one hne
    rw [List.map_map] at harr
    have hupper := List.sum_le_card_nsmul ((List.range total).map
      ((fun item ↦ 1 + size item) ∘ fun index ↦ texts (labelSet (first + index)))) (2 + 32 * 729) (by
        simp only [List.forall_mem_map, Function.comp_apply]
        intro index _
        have hset := size_labelSet _ (first + index) (List.Perm.refl _)
        omega)
    rw [List.length_map, List.length_range, smul_eq_mul] at hupper
    rw [maxBytes]
    omega

theorem normalize_denyAll {total : ℕ} (hpos : 0 < total) (h : total ≤ 25) (hlast : first + total ≤ 50) :
    normalize (denyAll first total) = .ok (denied first total) := by
  have hsets : Py.collect (Py.always fun values ↦ names values "labels" 32 true)
      ((List.range total).map fun index ↦ texts (labelSet (first + index))) =
      .ok ((List.range total).map fun index ↦ sortBy id (labelSet (first + index))) := by
    rw [Py.collect_always_eq_ok_iff, List.forall₂_map_left_iff, List.forall₂_map_right_iff, List.forall₂_same]
    intro index hindex
    rw [List.mem_range] at hindex
    exact names_labelSet (by omega) "labels"
  have hfixed : Py.collect (Py.always readPrincipal) [.obj [("id", .str "alice"),
        ("class", .str "person"), ("attributes", .obj [])]] = .ok [⟨"alice", "person", []⟩] ∧
      names (texts ["read"]) "actions" 4 false = .ok ["read"] ∧
      names (texts ["fact"]) "memory classes" 32 false = .ok ["fact"] ∧
      names (texts ["recall"]) "purposes" 32 false = .ok ["recall"] := by decide +kernel
  have hdomain : readDomain (.obj (("label_sets", .arr ((List.range total).map fun index ↦
      texts (labelSet (first + index)))) :: axes)) = .ok (denied first total).domain := by
    obtain ⟨hprincipals, hactions, hclasses, hpurposes⟩ := hfixed
    have hkeys : keysAre (("label_sets", .arr ((List.range total).map fun index ↦
        texts (labelSet (first + index)))) :: axes)
        ["principals", "actions", "memory_classes", "label_sets", "purposes"] = true :=
      keysAre_iff.mpr (by simp [axes]; decide)
    have hcount : count ((List.range total).map fun index ↦
        texts (labelSet (first + index))).length 1 64 "count" = .ok total :=
      count_eq_ok_iff.mpr ⟨by simp; omega, by simp⟩
    have hbound : bound [1, 1, 1, total, 1] = .ok total :=
      count_eq_ok_iff.mpr ⟨by simp [maxTuples]; omega, by simp⟩
    simp only [readDomain, Py.bind_eq_ok_iff, Py.require_eq_ok_iff, field_eq_ok_iff, Py.pure_eq_ok, Except.ok.injEq]
    exact ⟨(), hkeys, _, rfl, _, rfl, _, rfl, _, hprincipals, (), by decide, _, rfl, _, hactions, _, rfl,
      _, hclasses, _, rfl, _, hpurposes, (), by decide, _, rfl, _, rfl, _, hcount, _, hsets, (),
      decide_eq_true (nodup_labelSets hlast), _, by simpa using hbound, rfl⟩
  simp only [normalize, denyAll, denyOn, Py.bind_eq_ok_iff, Py.require_eq_ok_iff, field_eq_ok_iff,
    Py.pure_eq_ok, Except.ok.injEq]
  exact ⟨_, (wirable_denyAll hpos h).wire_eq, (), by rfl, _, rfl, _, hdomain, _, rfl, _, rfl, _, rfl,
    _, rfl, rfl⟩

theorem allows_nil (domain : Domain) (request : Request) :
    (Policy.mk domain []).allows request = false := by
  unfold Policy.allows
  split
  · rfl
  · split_ifs <;> rfl

theorem size_labelSets_le (axes : Axes) :
    size (.arr (axes.labelSets.map texts)) ≤ size axes.toJson := by
  have hobj := size_obj_eq (List.cons_ne_nil ("actions", texts axes.actions)
    [("memory_classes", texts axes.memoryClasses), ("purposes", texts axes.purposes),
      ("principals", texts axes.principals), ("label_sets", .arr (axes.labelSets.map texts))])
  change size axes.toJson + 1 = _ at hobj
  simp only [List.map_cons, List.map_nil, List.sum_cons, List.sum_nil] at hobj
  omega

theorem not_wirable_axes {axes : Axes}
    (h : ((List.range 50).map fun index ↦ sortBy id (labelSet (0 + index))).Subperm axes.labelSets) :
    ¬Wirable axes.toJson := by
  intro hwirable
  have hlength := hwirable.length_le
  rw [length_canonicalBytes, maxBytes] at hlength
  have hlabels := size_labelSets_le axes
  have hsum := sum_le_of_subperm h fun labels ↦ 1 + size (texts labels)
  have hlower := List.card_nsmul_le_sum ((List.range 50).map
    ((fun labels ↦ 1 + size (texts labels)) ∘ fun index ↦ sortBy id (labelSet (0 + index))))
    (32 * 724) (by
      simp only [List.forall_mem_map, Function.comp_apply]
      intro index _
      have hset := size_labelSet _ (0 + index) (sortBy_perm id _)
      omega)
  rw [List.length_map, List.length_range, smul_eq_mul] at hlower
  rw [List.map_map] at hsum
  have hne : axes.labelSets.map texts ≠ [] := by
    intro hnil
    rw [List.map_eq_nil_iff.mp hnil] at hsum
    exact absurd (hlower.trans hsum) (by simp)
  have harr := size_arr_add_one hne
  rw [List.map_map] at harr
  change _ = 2 + (axes.labelSets.map fun labels ↦ 1 + size (texts labels)).sum at harr
  omega

theorem labelSets_subperm_union :
    ((List.range 50).map fun index ↦ sortBy id (labelSet (0 + index))).Subperm
      ((denied 0 25).domain.union (denied 25 25).domain).labelSets := by
  refine List.subperm_of_subset (nodup_labelSets (by decide)) ?_
  rw [List.subset_def]
  simp only [List.forall_mem_map]
  intro index hindex
  rw [List.mem_range] at hindex
  simp only [Domain.union, mem_union, denied, mem_sortBy, List.mem_map, List.mem_range]
  rcases Nat.lt_or_ge index 25 with hlow | hhigh
  · exact .inl ⟨index, hlow, rfl⟩
  · exact .inr ⟨index - 25, by omega, by congr 2; omega⟩

theorem length_union_le [LinearOrder α] (left right : List α) :
    (union left right).length ≤ left.length + right.length := by
  rw [union, (sortBy_perm id _).length_eq, ← List.length_append]
  exact (List.dedup_sublist _).length_le

theorem bound_union : bound ((denied 0 25).domain.union (denied 25 25).domain).lengths = .ok 50 := by
  have hfixed : (union ["alice"] ["alice"]).length = 1 ∧ (union ["read"] ["read"]).length = 1 ∧
      (union ["fact"] ["fact"]).length = 1 ∧ (union ["recall"] ["recall"]).length = 1 := by
    decide
  have hupper := length_union_le (denied 0 25).domain.labelSets (denied 25 25).domain.labelSets
  have hlower := labelSets_subperm_union.length_le
  have hsets : ((denied 0 25).domain.union (denied 25 25).domain).labelSets.length = 50 := by
    have hlengths : ∀ first total, (denied first total).domain.labelSets.length = total := by
      intro first total
      rw [denied, (sortBy_perm id _).length_eq, List.length_map, List.length_range]
    rw [hlengths, hlengths] at hupper
    rw [List.length_map, List.length_range] at hlower
    simp only [Domain.union] at hlower ⊢
    omega
  obtain ⟨hprincipals, hactions, hclasses, hpurposes⟩ := hfixed
  refine count_eq_ok_iff.mpr ?_
  simp only [Axes.lengths, hsets]
  simp only [Domain.union, denied, List.map_cons, List.map_nil, hprincipals, hactions, hclasses, hpurposes]
  decide

end Sample

open Sample in
/-- Granting a permission is widening. -/
theorem difference_permitAll :
    (∃ result, difference runtime (denyOn [.arr []]) permitAll = .ok result) ∧
      ∀ result, difference runtime (denyOn [.arr []]) permitAll = .ok result →
        result.noWidening = false ∧ result.narrowingCount = 0 := by
  have hnormalize : normalize (denyOn [.arr []]) = .ok ⟨domain, []⟩ ∧
      normalize permitAll = .ok ⟨domain, [⟨"permit", false, [], none, none, none⟩]⟩ := by decide +kernel
  have hbound : bound (domain.union domain).lengths = .ok 1 := by decide +kernel
  have hwirable : fits (domain.union domain).toJson = true := by decide +kernel
  have hallowed : allows permitAll ⟨"alice", "read", "fact", [], "recall"⟩ = .ok true ∧
      allows (denyOn [.arr []]) ⟨"alice", "read", "fact", [], "recall"⟩ = .ok false := by decide +kernel
  obtain ⟨hreturns, hiff⟩ := difference_iff_requests runtime hnormalize.1 hnormalize.2 hbound
  refine ⟨hreturns.mpr (wirable_of_fits hwirable), fun result hresult ↦ ?_⟩
  obtain ⟨hwidening, hnarrowing⟩ := hiff result hresult
  constructor
  · rw [← Bool.not_eq_true, hwidening]
    intro himplies
    have hdenied := himplies _ hallowed.1
    rw [hallowed.2] at hdenied
    cases hdenied
  · refine hnarrowing.mpr fun request hrequest ↦ ?_
    obtain ⟨labels, -, hbefore⟩ := (allows_eq_ok_iff hnormalize.1).mp hrequest
    rw [allows_nil] at hbefore
    cases hbefore

open Sample in
/-- Two policies that deny everything, whose union exceeds the envelope of its hash. -/
theorem difference_raises : ∃ before after tuples,
    normalize (denyAll 0 25) = .ok before ∧ normalize (denyAll 25 25) = .ok after ∧
      bound (before.domain.union after.domain).lengths = .ok tuples ∧
      (∀ request, allows (denyAll 25 25) request = .ok true → allows (denyAll 0 25) request = .ok true) ∧
      ∀ runtime result, difference runtime (denyAll 0 25) (denyAll 25 25) ≠ .ok result := by
  have hold : normalize (denyAll 0 25) = .ok (denied 0 25) :=
    normalize_denyAll (by decide) (by decide) (by decide)
  have hnew : normalize (denyAll 25 25) = .ok (denied 25 25) :=
    normalize_denyAll (by decide) (by decide) (by decide)
  refine ⟨_, _, _, hold, hnew, bound_union, ?_, ?_⟩
  · intro request hallowed
    obtain ⟨labels, -, hafter⟩ := (allows_eq_ok_iff hnew).mp hallowed
    rw [denied, allows_nil] at hafter
    cases hafter
  · intro runtime result hresult
    exact not_wirable_axes labelSets_subperm_union
      ((difference_spec runtime hold hnew bound_union).1.mp ⟨result, hresult⟩)

end UniMem.PolicyProof
