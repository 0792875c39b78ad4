import UniMem.Python
import UniMem.Library.Json
import UniMem.Library.Grouping

/-!
# Dictionary keys, comprehensions and sorting over JSON values

Python finds a dictionary key by equality: `1`, `1.0` and `True` are one `Key`. A comprehension raises with its
first read that raises, and `sorted` when two values have no order.
-/

namespace UniMem

open Library

/-- A value as a dictionary key. -/
inductive Key where
  | none
  | number (value : ℚ)
  | text (value : String)

namespace Key

/-- Keys of one kind in the order of their values. -/
def code : Key → ℕ ×ₗ ℚ ×ₗ String
  | none => toLex (0, toLex (0, ""))
  | number value => toLex (1, toLex (value, ""))
  | text value => toLex (2, toLex (0, value))

theorem code_injective : Function.Injective code := by
  intro first second h
  cases first <;> cases second <;>
    simp only [code, EmbeddingLike.apply_eq_iff_eq, Prod.mk.injEq] at h <;> simp_all

instance : LinearOrder Key := LinearOrder.lift' code code_injective

instance lawfulBEq : LawfulBEq Key := inferInstance

/-- The text of a key that is one. -/
def name : Key → String
  | text name => name
  | _ => ""

/-- Whether `<` is defined between two keys. -/
def comparable : Key → Key → Bool
  | number _, number _ => true
  | text _, text _ => true
  | _, _ => false

end Key

/-- Whether `<` is defined between two tuples: the first members that differ decide. -/
def tupleComparable (first second : Key ×ₗ Key) : Bool :=
  if (ofLex first).1 = (ofLex second).1 then (ofLex first).2.comparable (ofLex second).2
  else (ofLex first).1.comparable (ofLex second).1

/-- `hash(value)`. A float that is not finite does not stand in canonical JSON. -/
def hashKey : Json → Py Key
  | .null => .ok .none
  | .bool flag => .ok (.number (if flag then 1 else 0))
  | .int number => .ok (.number number)
  | .float decimal =>
    match decimal.value with
    | some value => .ok (.number value)
    | none => .error (.valueError "expected finite JSON data")
  | .str text => .ok (.text text)
  | .arr _ => .error (.typeError "unhashable type: 'list'")
  | .obj _ => .error (.typeError "unhashable type: 'dict'")

/-- `bool(value)`. -/
def truthy : Json → Bool
  | .null => false
  | .bool flag => flag
  | .int number => number ≠ 0
  | .float decimal => decimal.value ≠ some 0
  | .str text => text ≠ ""
  | .arr items => !items.isEmpty
  | .obj fields => !fields.isEmpty

/-- `list(value)`: items, characters, or keys. -/
def iterate : Json → Py (List Json)
  | .arr items => .ok items
  | .str text => .ok (text.toList.map fun char ↦ .str (String.singleton char))
  | .obj fields => .ok (fields.map fun field ↦ .str field.1)
  | _ => .error (.typeError "object is not iterable")

namespace Py

variable {α β : Type}

/-- A comprehension: the results of the values that are kept. -/
def collect (read : α → Py (Option β)) : List α → Py (List β)
  | [] => .ok []
  | value :: values => do
    let result ← read value
    let rest ← collect read values
    return result.toList ++ rest

variable {read : α → Py (Option β)} {value : α} {values first second : List α} {results : List β} {error : PyError}
  {step : β → α → Py β} {γ δ : Type}

theorem collect_cons_eq_ok_iff :
    collect read (value :: values) = .ok results ↔
      ∃ result rest, read value = .ok result ∧ collect read values = .ok rest ∧ results = result.toList ++ rest := by
  rw [collect, bind_eq_ok_iff]
  simp only [bind_eq_ok_iff, pure_eq_ok, Except.ok.injEq]
  constructor
  · rintro ⟨result, hread, rest, hrest, rfl⟩
    exact ⟨result, rest, hread, hrest, rfl⟩
  · rintro ⟨result, rest, hread, hrest, rfl⟩
    exact ⟨result, hread, rest, hrest, rfl⟩

theorem collect_eq_error (h : collect read values = .error error) : ∃ value ∈ values, read value = .error error := by
  induction values with
  | nil => cases h
  | cons value values ih =>
    obtain hfirst | ⟨result, -, h⟩ := bind_eq_error_iff.mp h
    · exact ⟨value, List.mem_cons_self, hfirst⟩
    · obtain hrest | ⟨rest, -, h⟩ := bind_eq_error_iff.mp h
      · obtain ⟨other, hother, hread⟩ := ih hrest
        exact ⟨other, List.mem_cons_of_mem value hother, hread⟩
      · cases h

theorem foldlM_eq_error {initial : β} (h : values.foldlM step initial = .error error) :
    ∃ value ∈ values, ∃ before, step before value = .error error := by
  induction values generalizing initial with
  | nil => cases h
  | cons value values ih =>
    rw [List.foldlM_cons] at h
    obtain hfirst | ⟨middle, -, hrest⟩ := bind_eq_error_iff.mp h
    · exact ⟨value, List.mem_cons_self, initial, hfirst⟩
    · obtain ⟨other, hother, hstep⟩ := ih hrest
      exact ⟨other, List.mem_cons_of_mem value hother, hstep⟩

theorem forM_eq_error {call : α → Py Unit} (h : values.forM call = .error error) :
    ∃ value ∈ values, call value = .error error := by
  induction values with
  | nil => cases h
  | cons value values ih =>
    obtain hfirst | ⟨_, -, hrest⟩ := bind_eq_error_iff.mp h
    · exact ⟨value, List.mem_cons_self, hfirst⟩
    · obtain ⟨other, hother, hcall⟩ := ih hrest
      exact ⟨other, List.mem_cons_of_mem value hother, hcall⟩

theorem collect_append_eq_ok_iff :
    collect read (first ++ second) = .ok results ↔
      ∃ before after, collect read first = .ok before ∧ collect read second = .ok after ∧
        results = before ++ after := by
  induction first generalizing results with
  | nil => simp [collect, eq_comm]
  | cons value first ih =>
    simp only [List.cons_append, collect_cons_eq_ok_iff, ih]
    constructor
    · rintro ⟨result, _, hread, ⟨before, after, hbefore, hafter, rfl⟩, rfl⟩
      exact ⟨_, after, ⟨result, before, hread, hbefore, rfl⟩, hafter, by rw [List.append_assoc]⟩
    · rintro ⟨_, after, ⟨result, before, hread, hbefore, rfl⟩, hafter, rfl⟩
      exact ⟨result, _, hread, ⟨before, after, hbefore, hafter, rfl⟩, by rw [List.append_assoc]⟩

theorem collect_congr {other : α → Py (Option β)} (h : ∀ value ∈ values, read value = other value) :
    collect read values = collect other values := by
  induction values with
  | nil => rfl
  | cons value values ih =>
    rw [List.forall_mem_cons] at h
    rw [collect, collect, h.1, ih h.2]

theorem collect_perm (h : first.Perm second) (hfirst : collect read first = .ok results) :
    ∃ others, collect read second = .ok others ∧ results.Perm others := by
  induction h generalizing results with
  | nil => exact ⟨results, hfirst, List.Perm.refl _⟩
  | cons value _ ih =>
    obtain ⟨result, rest, hread, hrest, rfl⟩ := collect_cons_eq_ok_iff.mp hfirst
    obtain ⟨others, hothers, hperm⟩ := ih hrest
    exact ⟨result.toList ++ others, collect_cons_eq_ok_iff.mpr ⟨_, _, hread, hothers, rfl⟩, hperm.append_left _⟩
  | swap a b values =>
    obtain ⟨result, rest, hread, hrest, rfl⟩ := collect_cons_eq_ok_iff.mp hfirst
    obtain ⟨result', rest', hread', hrest', rfl⟩ := collect_cons_eq_ok_iff.mp hrest
    refine ⟨result'.toList ++ (result.toList ++ rest'), ?_, ?_⟩
    · exact collect_cons_eq_ok_iff.mpr ⟨_, _, hread', collect_cons_eq_ok_iff.mpr ⟨_, _, hread, hrest', rfl⟩, rfl⟩
    · rw [← List.append_assoc, ← List.append_assoc]
      exact List.perm_append_comm.append_right _
  | trans _ _ ih ih' =>
    obtain ⟨middle, hmiddle, hperm⟩ := ih hfirst
    obtain ⟨others, hothers, hperm'⟩ := ih' hmiddle
    exact ⟨others, hothers, hperm.trans hperm'⟩

theorem mem_collect_iff (h : collect read values = .ok results) (result : β) :
    result ∈ results ↔ ∃ value ∈ values, read value = .ok (some result) := by
  induction values generalizing results with
  | nil =>
    cases h
    simp
  | cons value values ih =>
    obtain ⟨found, rest, hread, hrest, rfl⟩ := collect_cons_eq_ok_iff.mp h
    rw [List.mem_append, ih hrest]
    simp [hread, Option.mem_toList]

theorem collect_eq_ok {read : α → Py (Option β)} {pick : α → Option β} {values : List α}
    (h : ∀ value ∈ values, read value = .ok (pick value)) :
    collect read values = .ok (values.filterMap pick) := by
  induction values with
  | nil => rfl
  | cons value values ih =>
    rw [List.forall_mem_cons] at h
    refine collect_cons_eq_ok_iff.mpr ⟨_, _, h.1, ih h.2, ?_⟩
    rw [List.filterMap_cons]
    cases pick value <;> rfl

theorem collect_map (read : α → Py (Option β)) (change : γ → α) (values : List γ) :
    collect read (values.map change) = collect (fun value ↦ read (change value)) values := by
  induction values with
  | nil => rfl
  | cons value values ih => rw [List.map_cons, collect, collect, ih]

theorem collect_nodup {key : α → γ} {name : β → δ} (back : δ → γ) (hnodup : (values.map key).Nodup)
    (hkey : ∀ value ∈ values, ∀ result, read value = .ok (some result) → key value = back (name result))
    (h : collect read values = .ok results) : (results.map name).Nodup := by
  induction values generalizing results with
  | nil =>
    cases h
    exact List.nodup_nil
  | cons value values ih =>
    obtain ⟨found, rest, hread, hrest, rfl⟩ := collect_cons_eq_ok_iff.mp h
    rw [List.map_cons, List.nodup_cons] at hnodup
    rw [List.forall_mem_cons] at hkey
    have hnext := ih hnodup.2 hkey.2 hrest
    cases found with
    | none => exact hnext
    | some result =>
      refine List.nodup_cons.mpr ⟨?_, hnext⟩
      intro hmem
      obtain ⟨other, hother, heq⟩ := List.mem_map.mp hmem
      obtain ⟨source, hsource, hfound⟩ := (mem_collect_iff hrest other).mp hother
      apply hnodup.1
      rw [hkey.1 result hread, ← heq, ← hkey.2 source hsource other hfound]
      exact List.mem_map.mpr ⟨source, hsource, rfl⟩

theorem collect_forall₂ {read' : γ → Py (Option δ)} {relation : α → γ → Prop} {result : β → δ → Prop}
    {second : List γ} (h : List.Forall₂ relation first second)
    (hread : ∀ a ∈ first, ∀ c ∈ second, relation a c → ∀ found, read a = .ok found →
      ∃ other, read' c = .ok other ∧ Option.Rel result found other)
    (hfirst : collect read first = .ok results) :
    ∃ others, collect read' second = .ok others ∧ List.Forall₂ result results others := by
  induction h generalizing results with
  | nil =>
    cases hfirst
    exact ⟨[], rfl, List.Forall₂.nil⟩
  | cons hac _ ih =>
    obtain ⟨found, rest, hfound, hrest, rfl⟩ := collect_cons_eq_ok_iff.mp hfirst
    obtain ⟨other, hother, hrel⟩ :=
      hread _ List.mem_cons_self _ List.mem_cons_self hac found hfound
    obtain ⟨others, hothers, hall⟩ := ih (fun a ha c hc ↦
      hread a (List.mem_cons_of_mem _ ha) c (List.mem_cons_of_mem _ hc)) hrest
    refine ⟨other.toList ++ others, collect_cons_eq_ok_iff.mpr ⟨_, _, hother, hothers, rfl⟩, ?_⟩
    cases hrel with
    | none => exact hall
    | some hresult => exact List.Forall₂.cons hresult hall

/-- A read that keeps every value. -/
def always (read : α → Py β) (value : α) : Py (Option β) := some <$> read value

theorem always_eq_ok_iff {read : α → Py β} {result : β} :
    always read value = .ok (some result) ↔ read value = .ok result := by
  unfold always
  cases read value with
  | error error => simp
  | ok found => simp

theorem collect_always_eq_ok {read : α → Py β} {pick : α → β}
    (h : ∀ value ∈ values, read value = .ok (pick value)) :
    collect (always read) values = .ok (values.map pick) := by
  have hpick : ∀ value ∈ values, always read value = .ok (some (pick value)) :=
    fun value hvalue ↦ always_eq_ok_iff.mpr (h value hvalue)
  rw [collect_eq_ok hpick, List.filterMap_eq_map']

theorem collect_always_eq_ok_iff {read : α → Py β} :
    collect (always read) values = .ok results ↔
      List.Forall₂ (fun value result ↦ read value = .ok result) values results := by
  induction values generalizing results with
  | nil => simp [collect, eq_comm]
  | cons value values ih =>
    rw [collect_cons_eq_ok_iff, List.forall₂_cons_left_iff]
    constructor
    · rintro ⟨found, rest, hfound, hrest, rfl⟩
      cases hread : read value with
      | error error => simp [always, hread] at hfound
      | ok result =>
        rw [always, hread, map_ok, Except.ok.injEq] at hfound
        exact ⟨result, rest, rfl, ih.mp hrest, by rw [← hfound]; rfl⟩
    · rintro ⟨result, rest, hresult, hrest, rfl⟩
      exact ⟨some result, rest, always_eq_ok_iff.mpr hresult, ih.mpr hrest, rfl⟩

theorem foldlM_invariant (property : β → Prop) {state final : β} (hstate : property state)
    (hstep : ∀ state, ∀ value ∈ values, ∀ next, property state → step state value = .ok next → property next)
    (h : values.foldlM step state = .ok final) : property final := by
  induction values generalizing state with
  | nil =>
    obtain rfl := Except.ok.inj h
    exact hstate
  | cons value values ih =>
    rw [List.foldlM_cons] at h
    obtain ⟨middle, hmiddle, h⟩ := bind_eq_ok_iff.mp h
    exact ih (hstep state value List.mem_cons_self middle hstate hmiddle)
      (fun state other hother ↦ hstep state other (List.mem_cons_of_mem _ hother)) h

theorem forM_eq_ok_iff {check : α → Py Unit} {result : Unit} :
    values.forM check = .ok result ↔ ∀ value ∈ values, check value = .ok () := by
  induction values with
  | nil =>
    refine iff_of_true rfl ?_
    simp
  | cons value values ih =>
    rw [List.forM, List.forall_mem_cons, ← ih, Py.bind_eq_ok_iff]
    constructor
    · rintro ⟨_, hvalue, hrest⟩
      exact ⟨hvalue, hrest⟩
    · rintro ⟨hvalue, hrest⟩
      exact ⟨(), hvalue, hrest⟩

/-- `any(test(value) for value in values)`. -/
def any (test : α → Py Bool) : List α → Py Bool
  | [] => .ok false
  | value :: values => do if ← test value then return true else any test values

theorem any_eq_ok_false_iff {test : α → Py Bool} :
    any test values = .ok false ↔ ∀ value ∈ values, test value = .ok false := by
  induction values with
  | nil => simp [any]
  | cons value values ih =>
    rw [List.forall_mem_cons, ← ih, any, Py.bind_eq_ok_iff]
    constructor
    · rintro ⟨found, hfound, h⟩
      cases found with
      | true => cases h
      | false => exact ⟨hfound, h⟩
    · rintro ⟨hfound, h⟩
      exact ⟨false, hfound, h⟩

theorem exists_collect (h : ∀ value ∈ values, ∃ result, read value = .ok result) :
    ∃ results, collect read values = .ok results := by
  induction values with
  | nil => exact ⟨[], rfl⟩
  | cons value values ih =>
    rw [List.forall_mem_cons] at h
    obtain ⟨result, hresult⟩ := h.1
    obtain ⟨rest, hrest⟩ := ih h.2
    exact ⟨_, collect_cons_eq_ok_iff.mpr ⟨result, rest, hresult, hrest, rfl⟩⟩

theorem read_of_collect (h : collect read values = .ok results) :
    ∀ value ∈ values, ∃ result, read value = .ok result := by
  induction values generalizing results with
  | nil => simp
  | cons value values ih =>
    obtain ⟨result, rest, hread, hrest, -⟩ := collect_cons_eq_ok_iff.mp h
    exact List.forall_mem_cons.mpr ⟨⟨result, hread⟩, ih hrest⟩

theorem collect_filter {name : β → α} (keep : α → Bool)
    (hname : ∀ value result, read value = .ok (some result) → name result = value)
    (h : collect read values = .ok results) :
    collect read (values.filter keep) = .ok (results.filter fun result ↦ keep (name result)) := by
  induction values generalizing results with
  | nil =>
    cases h
    rfl
  | cons value values ih =>
    obtain ⟨result, rest, hread, hrest, rfl⟩ := collect_cons_eq_ok_iff.mp h
    have hresult : result.toList.filter (fun result ↦ keep (name result)) =
        if keep value then result.toList else [] := by
      cases result with
      | none => simp
      | some result =>
        rw [Option.toList_some, List.filter_singleton, hname value result hread]
        cases keep value <;> rfl
    rw [List.filter_append, hresult, List.filter_cons]
    split_ifs with hkeep
    · exact collect_cons_eq_ok_iff.mpr ⟨result, _, hread, ih hrest, rfl⟩
    · exact ih hrest

end Py

variable {α κ : Type} [LinearOrder κ]

/-- `sorted(groups.items())` for different keys, which raises when two have no order. -/
def sortedItems (comparable : κ → κ → Bool) (key : α → κ) (values : List α) :
    Py (List (κ × List α)) :=
  if ∀ a ∈ values.map key, ∀ b ∈ values.map key, a = b ∨ comparable a b then
    .ok (sortedGroups key values)
  else .error (.typeError "'<' not supported between instances")

variable {key : α → κ} {groups : List (κ × List α)}

theorem sortedItems_eq_ok_iff {comparable : κ → κ → Bool} {values : List α} :
    sortedItems comparable key values = .ok groups ↔
      (∀ a ∈ values.map key, ∀ b ∈ values.map key, a = b ∨ comparable a b) ∧ sortedGroups key values = groups := by
  unfold sortedItems
  split_ifs with h
  · rw [Except.ok.injEq]
    exact (and_iff_right h).symm
  · exact iff_of_false (by simp) fun hall ↦ h hall.1

theorem sortedItems_perm {comparable : κ → κ → Bool} {first second : List α} (h : first.Perm second)
    (hfirst : sortedItems comparable key first = .ok groups) :
    ∃ others, sortedItems comparable key second = .ok others ∧
      List.Forall₂ (fun a b ↦ a.1 = b.1 ∧ a.2.Perm b.2) groups others := by
  obtain ⟨hcomparable, rfl⟩ := sortedItems_eq_ok_iff.mp hfirst
  refine ⟨_, sortedItems_eq_ok_iff.mpr ⟨?_, rfl⟩, sortedGroups_perm key h⟩
  intro a ha b hb
  exact hcomparable a ((h.map key).mem_iff.mpr ha) b ((h.map key).mem_iff.mpr hb)

end UniMem
