import UniMem.Runtime
import UniMem.FrontierProtocol.Values

/-!
# Bounded JSON and canonical envelopes

`validate_json_tree` walks a tree with an explicit stack up to the first bound it exceeds. It succeeds exactly on
the trees that are within all bounds (`validateJsonTree_eq_ok_iff`).
-/

namespace UniMem.FrontierProtocol

open Library

/-- The node bound of `validate_json_tree`. -/
def maxNodes : ℕ := 200_000

/-- What one node adds to the lower bound on the size, without the keys. -/
def scalarBytes : Json → ℕ
  | .str text => 1 + text.length
  | .int value => 1 + (bitLength value.natAbs - 1) * 3 / 10
  | _ => 1

/-- The characters of the keys of an object. -/
def keyBytes : Json → ℕ
  | .obj fields => (fields.map fun field ↦ field.1.length).sum
  | _ => 0

def exceedsSize : PyError := .valueError "record exceeds 1 MiB"

def exceedsBounds : PyError := .valueError "JSON exceeds depth/node bounds"

def notFinite : PyError := .valueError "expected finite JSON data"

/-- The number of nodes of a tree. -/
def nodes (value : Json) : ℕ := value.total fun _ ↦ 1

theorem nodes_eq (value : Json) : nodes value = 1 + (value.children.map nodes).sum :=
  Json.total_eq _ value

/-- Children are pushed in order, so the last one is popped first. -/
def push (children : List Json) (depth : ℕ) (pending : List (Json × ℕ)) : List (Json × ℕ) :=
  (children.map fun child ↦ (child, depth)).reverse ++ pending

theorem sum_push (measure : Json → ℕ) (children : List Json) (depth : ℕ) (pending : List (Json × ℕ)) :
    ((push children depth pending).map fun entry ↦ measure entry.1).sum =
      (children.map measure).sum + (pending.map fun entry ↦ measure entry.1).sum := by
  simp [push, List.map_reverse, List.sum_reverse, Function.comp_def]

variable {depth visited waiting : ℕ} {pending : List (Json × ℕ)} {item value : Json} {runtime : Runtime}

theorem mem_push {children : List Json} {entry : Json × ℕ} :
    entry ∈ push children depth pending ↔ (entry.1 ∈ children ∧ entry.2 = depth) ∨ entry ∈ pending := by
  obtain ⟨item, level⟩ := entry
  simp [push, eq_comm]

/-- One turn of the loop of `validate_json_tree`, with `waiting` entries left and the size after it. -/
def visit (item : Json) (depth waiting visited size : ℕ) : Py ℕ :=
  if maxBytes < size + scalarBytes item then .error exceedsSize
  else if 64 < depth ∨ maxNodes < visited + 1 then .error exceedsBounds
  else
    match item with
    | .obj fields =>
      if maxNodes < visited + 1 + waiting + fields.length then .error exceedsBounds
      else if fields.any fun field ↦ maxBytes < field.1.length then .error exceedsSize
      else if maxBytes < size + scalarBytes (.obj fields) + keyBytes (.obj fields) then
        .error exceedsSize
      else .ok (size + scalarBytes (.obj fields) + keyBytes (.obj fields))
    | .arr items =>
      if maxNodes < visited + 1 + waiting + items.length then .error exceedsBounds
      else .ok (size + scalarBytes (.arr items))
    | .str text =>
      if maxBytes < text.length then .error exceedsSize
      else .ok (size + scalarBytes (.str text))
    | .float ⟨_, none, _⟩ => .error notFinite
    | other => .ok (size + scalarBytes other)

/-- The loop of `validate_json_tree`. -/
def validateLoop : List (Json × ℕ) → ℕ → ℕ → Py Unit
  | [], _, _ => .ok ()
  | (item, depth) :: pending, visited, size => do
    let size ← visit item depth pending.length visited size
    validateLoop (push item.children (depth + 1) pending) (visited + 1) size
termination_by pending => (pending.map fun entry ↦ nodes entry.1).sum
decreasing_by
  rw [sum_push, List.map_cons, List.sum_cons, nodes_eq item]
  omega

/-- `validate_json_tree`. -/
def validateJsonTree (value : Json) : Py Unit := validateLoop [(value, 0)] 0 0

/-- The lower bound on the encoded size of a tree. -/
def minimumBytes (value : Json) : ℕ := value.total fun node ↦ scalarBytes node + keyBytes node

theorem minimumBytes_eq (value : Json) :
    minimumBytes value = scalarBytes value + keyBytes value + (value.children.map minimumBytes).sum :=
  Json.total_eq _ value

/-- A node at an admissible depth that is not an infinite or undefined float. -/
def NodeAdmissible (depth : ℕ) : Json → Prop
  | .float ⟨_, none, _⟩ => False
  | _ => depth ≤ 64

instance (depth : ℕ) (value : Json) : Decidable (NodeAdmissible depth value) :=
  match value with
  | .float ⟨_, none, _⟩ => isFalse id
  | .float ⟨_, some _, _⟩ => inferInstanceAs (Decidable (depth ≤ 64))
  | .null => inferInstanceAs (Decidable (depth ≤ 64))
  | .bool _ => inferInstanceAs (Decidable (depth ≤ 64))
  | .int _ => inferInstanceAs (Decidable (depth ≤ 64))
  | .str _ => inferInstanceAs (Decidable (depth ≤ 64))
  | .arr _ => inferInstanceAs (Decidable (depth ≤ 64))
  | .obj _ => inferInstanceAs (Decidable (depth ≤ 64))

theorem NodeAdmissible.depth_le (h : NodeAdmissible depth item) :
    depth ≤ 64 := by
  cases item with
  | float decimal =>
    obtain ⟨text, value, hprintable⟩ := decimal
    cases value with
    | none => exact h.elim
    | some value => exact h
  | _ => exact h

theorem nodes_pos (value : Json) : 0 < nodes value := by
  rw [nodes_eq]
  omega

theorem length_le_sum_nodes (values : List Json) : values.length ≤ (values.map nodes).sum := by
  induction values with
  | nil => simp
  | cons value values ih =>
    have hpos := nodes_pos value
    rw [List.length_cons, List.map_cons, List.sum_cons]
    omega

/-- The stack is within the bounds that remain. -/
def PendingWithin (pending : List (Json × ℕ)) (visited size : ℕ) : Prop :=
  visited + (pending.map fun entry ↦ nodes entry.1).sum ≤ maxNodes ∧
  size + (pending.map fun entry ↦ minimumBytes entry.1).sum ≤ maxBytes ∧
  ∀ entry ∈ pending, Json.Everywhere NodeAdmissible entry.2 entry.1

theorem pendingWithin_cons_iff (item : Json) (depth : ℕ) (pending : List (Json × ℕ)) (visited size : ℕ) :
    PendingWithin ((item, depth) :: pending) visited size ↔ NodeAdmissible depth item ∧
      PendingWithin (push item.children (depth + 1) pending) (visited + 1)
        (size + scalarBytes item + keyBytes item) := by
  unfold PendingWithin
  rw [sum_push, sum_push]
  simp only [List.map_cons, List.sum_cons, List.forall_mem_cons, nodes_eq item,
    minimumBytes_eq item, Json.everywhere_iff NodeAdmissible depth item, mem_push]
  constructor
  · rintro ⟨hnodes, hsize, ⟨hitem, hchildren⟩, hpending⟩
    refine ⟨hitem, by omega, by omega, ?_⟩
    rintro ⟨child, level⟩ (⟨hchild, rfl⟩ | hmem)
    · exact hchildren child hchild
    · exact hpending _ hmem
  · rintro ⟨hitem, hnodes, hsize, hpush⟩
    refine ⟨by omega, by omega, ⟨hitem, ?_⟩, ?_⟩
    · intro child hchild
      exact hpush (child, depth + 1) (Or.inl ⟨hchild, rfl⟩)
    · intro entry hmem
      exact hpush entry (Or.inr hmem)

theorem PendingWithin.length_le {size : ℕ} (h : PendingWithin pending visited size) :
    visited + pending.length ≤ maxNodes := by
  have hlength := length_le_sum_nodes (pending.map Prod.fst)
  rw [List.length_map, List.map_map] at hlength
  exact (Nat.add_le_add_left hlength visited).trans h.1

theorem PendingWithin.size_le {size : ℕ} (h : PendingWithin pending visited size) : size ≤ maxBytes := by
  have hsize := h.2.1
  omega

theorem length_push (children : List Json) (depth : ℕ) (pending : List (Json × ℕ)) :
    (push children depth pending).length = children.length + pending.length := by
  simp [push]

theorem length_key_le_keyBytes {fields : List (String × Json)} {field : String × Json}
    (h : field ∈ fields) : field.1.length ≤ keyBytes (.obj fields) :=
  List.single_le_sum (by simp) _ (List.mem_map.mpr ⟨field, h, rfl⟩)

theorem visit_spec {size result : ℕ} (h : visit item depth waiting visited size = .ok result) :
    NodeAdmissible depth item ∧ result = size + scalarBytes item + keyBytes item ∧
      visited + 1 ≤ maxNodes ∧ result ≤ maxBytes := by
  unfold visit at h
  split_ifs at h with hsize hbounds
  rw [not_or, not_lt, not_lt] at hbounds
  cases item with
  | obj fields =>
    simp only at h
    split_ifs at h with hcount hkeys hlong
    cases h
    exact ⟨hbounds.1, rfl, hbounds.2, not_lt.mp hlong⟩
  | arr items =>
    simp only at h
    split_ifs at h with hcount
    cases h
    exact ⟨hbounds.1, rfl, hbounds.2, not_lt.mp hsize⟩
  | str text =>
    simp only at h
    split_ifs at h with hlong
    cases h
    exact ⟨hbounds.1, rfl, hbounds.2, not_lt.mp hsize⟩
  | float decimal =>
    obtain ⟨text, value, hprintable⟩ := decimal
    cases value with
    | none => cases h
    | some value =>
      cases h
      exact ⟨hbounds.1, rfl, hbounds.2, not_lt.mp hsize⟩
  | _ =>
    cases h
    exact ⟨hbounds.1, rfl, hbounds.2, not_lt.mp hsize⟩

theorem visit_of_within {size : ℕ} (hitem : NodeAdmissible depth item)
    (hcount : visited + 1 + waiting + item.children.length ≤ maxNodes)
    (hsize : size + scalarBytes item + keyBytes item ≤ maxBytes) :
    visit item depth waiting visited size = .ok (size + scalarBytes item + keyBytes item) := by
  have hdepth : depth ≤ 64 := hitem.depth_le
  unfold visit
  rw [if_neg (by omega), if_neg (by omega)]
  cases item with
  | obj fields =>
    have hkeys : ¬(fields.any fun field ↦ maxBytes < field.1.length) := by
      intro hany
      obtain ⟨field, hfield, hlong⟩ := List.any_eq_true.mp hany
      have hkey := length_key_le_keyBytes hfield
      rw [decide_eq_true_eq] at hlong
      omega
    rw [Json.children, List.length_map] at hcount
    simp only
    rw [if_neg (by omega), if_neg hkeys, if_neg (by omega)]
  | arr items =>
    rw [Json.children] at hcount
    simp only
    rw [if_neg (by omega)]
    rfl
  | str text =>
    have hlong : text.length ≤ scalarBytes (.str text) := Nat.le_add_left _ _
    simp only
    rw [if_neg (by omega)]
    rfl
  | float decimal =>
    obtain ⟨text, value, hprintable⟩ := decimal
    cases value with
    | none => exact hitem.elim
    | some value => rfl
  | _ => rfl

theorem validateLoop_eq_ok_iff (pending : List (Json × ℕ)) (visited size : ℕ)
    (hvisited : visited ≤ maxNodes) (hsize : size ≤ maxBytes) :
    validateLoop pending visited size = .ok () ↔ PendingWithin pending visited size := by
  induction pending, visited, size using validateLoop.induct with
  | case1 visited size => simpa [validateLoop, PendingWithin] using ⟨hvisited, hsize⟩
  | case2 item depth pending visited size ih =>
    rw [validateLoop, Py.bind_eq_ok_iff, pendingWithin_cons_iff]
    constructor
    · rintro ⟨result, hvisit, hrest⟩
      obtain ⟨hitem, rfl, hcount, hresult⟩ := visit_spec hvisit
      exact ⟨hitem, (ih _ hcount hresult).mp hrest⟩
    · rintro ⟨hitem, hrest⟩
      have hlength := hrest.length_le
      rw [length_push] at hlength
      have hcount : visited + 1 + pending.length + item.children.length ≤ maxNodes := by omega
      refine ⟨_, visit_of_within hitem hcount hrest.size_le, ?_⟩
      exact (ih _ (by omega) hrest.size_le).mpr hrest

/-- A tree that `validate_json_tree` accepts. -/
structure Bounded (value : Json) : Prop where
  nodes_le : nodes value ≤ maxNodes
  minimumBytes_le : minimumBytes value ≤ maxBytes
  admissible : Json.Everywhere NodeAdmissible 0 value

theorem validateJsonTree_eq_ok_iff (value : Json) :
    validateJsonTree value = .ok () ↔ Bounded value := by
  rw [validateJsonTree, validateLoop_eq_ok_iff _ _ _ (Nat.zero_le _) (Nat.zero_le _)]
  simp only [PendingWithin, List.map_cons, List.map_nil, List.sum_cons, List.sum_nil, Nat.add_zero,
    Nat.zero_add, List.mem_singleton, forall_eq]
  exact ⟨fun h ↦ ⟨h.1, h.2.1, h.2.2⟩, fun h ↦ ⟨h.nodes_le, h.minimumBytes_le, h.admissible⟩⟩

/-- The interpreter converts integers of at most this many digits to text. -/
def maxStrDigits : ℕ := 4300

/-- Whether every integer of a tree can be converted to text. -/
def convertible (value : Json) : Bool :=
  value.total (fun node ↦
    match node with
    | .int number => if 10 ^ maxStrDigits ≤ number.natAbs then 1 else 0
    | _ => 0) = 0

/-- `wire`: the canonical bytes of a bounded tree. -/
def wire (value : Json) : Py Bytes := do
  validateJsonTree value
  Py.require (convertible value) notFinite
  if maxBytes < (canonicalBytes value).length then .error exceedsSize
  else .ok (canonicalBytes value)

/-- A tree that `wire` accepts. -/
structure Wirable (value : Json) : Prop where
  bounded : Bounded value
  convertible : convertible value = true
  length_le : (canonicalBytes value).length ≤ maxBytes

theorem wire_eq_ok_iff {encoded : Bytes} :
    wire value = .ok encoded ↔ Wirable value ∧ canonicalBytes value = encoded := by
  unfold wire
  rw [Py.bind_eq_ok_iff]
  constructor
  · rintro ⟨⟨⟩, hvalid, hrest⟩
    rw [Py.bind_eq_ok_iff] at hrest
    obtain ⟨_, hconvertible, hrest⟩ := hrest
    rw [Py.require_eq_ok_iff] at hconvertible
    split_ifs at hrest with hlong
    exact ⟨⟨(validateJsonTree_eq_ok_iff value).mp hvalid, hconvertible, not_lt.mp hlong⟩, Except.ok.inj hrest⟩
  · rintro ⟨h, rfl⟩
    refine ⟨(), (validateJsonTree_eq_ok_iff value).mpr h.bounded, ?_⟩
    rw [h.convertible, Py.require_true, Py.bind_ok, if_neg (not_lt.mpr h.length_le)]

theorem Wirable.wire_eq (h : Wirable value) :
    wire value = .ok (canonicalBytes value) := wire_eq_ok_iff.mpr ⟨h, rfl⟩

theorem wirable_of_dumps (hbounded : Bounded value) (hconvertible : convertible value = true)
    (hlength : (dumps value).length ≤ maxBytes) :
    Wirable value := by
  refine ⟨hbounded, hconvertible, ?_⟩
  rw [canonicalBytes, Json.length_encode_sortKeys]
  exact (Json.length_encode_compact_le value).trans hlength

/-- The bounds of `wire` with the spaced text, to be evaluated. -/
def fits (value : Json) : Bool :=
  nodes value ≤ maxNodes && minimumBytes value ≤ maxBytes &&
    decide (Json.Everywhere NodeAdmissible 0 value) && convertible value &&
    (dumps value).length ≤ maxBytes

theorem wirable_of_fits (h : fits value = true) : Wirable value := by
  simp only [fits, Bool.and_eq_true, decide_eq_true_eq] at h
  obtain ⟨⟨⟨⟨hnodes, hminimum⟩, hadmissible⟩, hconvertible⟩, hlength⟩ := h
  exact wirable_of_dumps ⟨hnodes, hminimum, hadmissible⟩ hconvertible hlength

/-- `loads`: parse bounded JSON. -/
def loads (runtime : Runtime) (raw : Bytes) : Py Json :=
  if maxBytes < raw.length then .error exceedsSize
  else
    match runtime.jsonLoads raw with
    | none => .error (.valueError "invalid bounded JSON")
    | some value =>
      match validateJsonTree value with
      | .error _ => .error (.valueError "invalid bounded JSON")
      | .ok () => .ok value

theorem loads_eq_ok_iff {raw : Bytes} :
    loads runtime raw = .ok value ↔ raw.length ≤ maxBytes ∧ runtime.jsonLoads raw = some value ∧ Bounded value := by
  unfold loads
  split_ifs with hlong
  · exact iff_of_false (by simp) fun h ↦ absurd h.1 (not_le.mpr hlong)
  · rw [not_lt] at hlong
    cases hloads : runtime.jsonLoads raw with
    | none => simp
    | some parsed =>
      simp only [hlong, Option.some.injEq, true_and]
      cases hvalid : validateJsonTree parsed with
      | error error =>
        refine iff_of_false (by simp) ?_
        rintro ⟨rfl, hbounded⟩
        rw [(validateJsonTree_eq_ok_iff parsed).mpr hbounded] at hvalid
        cases hvalid
      | ok result =>
        have hbounded := (validateJsonTree_eq_ok_iff parsed).mp hvalid
        simp only [Except.ok.injEq]
        exact ⟨fun h ↦ ⟨h, h ▸ hbounded⟩, fun h ↦ h.1⟩

/-- `digest`. -/
def digest (runtime : Runtime) (value : Json) : Py String := runtime.sha256 <$> wire value

theorem digest_eq_ok_iff {text : String} :
    digest runtime value = .ok text ↔ Wirable value ∧ runtime.sha256 (canonicalBytes value) = text := by
  unfold digest
  cases hwire : wire value with
  | error error =>
    refine iff_of_false (by simp) fun h ↦ ?_
    rw [h.1.wire_eq] at hwire
    cases hwire
  | ok encoded =>
    obtain ⟨hwirable, rfl⟩ := wire_eq_ok_iff.mp hwire
    simp [hwirable]

end UniMem.FrontierProtocol
