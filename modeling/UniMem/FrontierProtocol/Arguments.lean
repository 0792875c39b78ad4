import UniMem.FrontierProtocol.Wire
import UniMem.Python.Collections

/-!
# Checks on JSON arguments and timestamps

`text` and `count` on a value whose type is not known, the keys of a dictionary, and `moment`. Times are instants in
microseconds of UTC; a `Calendar` reads and writes them.
-/

namespace UniMem.FrontierProtocol

open Library

/-- `text` on a value that may not be a string. -/
def textArgument (value : Json) (label : String) (maximum : ℕ) : Py String :=
  match value with
  | .str content => text content label maximum
  | _ => .error (.valueError s!"invalid {label} (1..{maximum} bytes)")

variable {value : Json} {label : String} {fields : List (String × Json)} {names : List String}

theorem textArgument_eq_ok_iff {content : String} {maximum : ℕ} :
    textArgument value label maximum = .ok content ↔
      value = .str content ∧ text content label maximum = .ok content := by
  cases value with
  | str found =>
    rw [textArgument, Json.str.injEq]
    constructor
    · intro h
      obtain rfl := (text_eq_ok_iff.mp h).2
      exact ⟨rfl, h⟩
    · rintro ⟨rfl, h⟩
      exact h
  | _ => simp [textArgument]

/-- `count` on a value that may not be an integer. -/
def countArgument (value : Json) (low high : ℤ) (label : String) : Py ℤ :=
  match value with
  | .int number => count number low high label
  | _ => .error (.valueError s!"{label} must be an integer in [{low}, {high}]")

theorem countArgument_eq_ok_iff {low high number : ℤ} :
    countArgument value low high label = .ok number ↔ value = .int number ∧ low ≤ number ∧ number ≤ high := by
  cases value with
  | int found =>
    rw [countArgument, count_eq_ok_iff, Json.int.injEq]
    constructor
    · rintro ⟨hbounds, rfl⟩
      exact ⟨rfl, hbounds⟩
    · rintro ⟨rfl, hbounds⟩
      exact ⟨hbounds, rfl⟩
  | _ => simp [countArgument]

/-- `value[name]`. -/
def field (fields : List (String × Json)) (name : String) : Py Json :=
  match fields.lookup name with
  | some value => .ok value
  | none => .error (.keyError name)

@[simp]
theorem field_eq_ok_iff {name : String} :
    field fields name = .ok value ↔ fields.lookup name = some value := by
  unfold field
  cases fields.lookup name <;> simp

/-- `set(value) == set(names)` for a dictionary, whose keys are different. -/
def keysAre (fields : List (String × Json)) (names : List String) : Bool :=
  (fields.map Prod.fst).isPerm names

theorem keysAre_iff :
    keysAre fields names = true ↔ (fields.map Prod.fst).Perm names := List.isPerm_iff

theorem perm_of_keys (h : (fields.map Prod.fst).Perm names) (hnodup : names.Nodup) :
    fields.Perm (names.map fun name ↦ (name, (fields.lookup name).getD .null)) := by
  have hkeys : (fields.map Prod.fst).Nodup := h.nodup_iff.mpr hnodup
  have hself : (fields.map Prod.fst).map (fun name ↦ (name, (fields.lookup name).getD .null)) =
      fields := by
    rw [List.map_map]
    calc
      _ = fields.map id := by
        apply List.map_congr_left
        intro field hfield
        have hlookup := (lookup_eq_some_iff_mem hkeys).mpr hfield
        simp only [Function.comp_apply, hlookup, Option.getD_some, id]
      _ = fields := List.map_id _
  have hperm := h.map fun name ↦ (name, (fields.lookup name).getD Json.null)
  rw [hself] at hperm
  exact hperm

theorem same_obj_of_perm {first second : List (String × Json)} (h : first.Perm second)
    (hkeys : (second.map Prod.fst).Nodup) : (Json.obj first).Same (.obj second) := by
  rw [Json.Same, Json.sortKeys, Json.sortKeys, Json.sortKeysFields_eq, Json.sortKeysFields_eq]
  refine congrArg Json.obj (sortBy_eq_of_perm (h.map _) ?_)
  intro a ha b hb heq
  rw [List.mem_map] at ha hb
  obtain ⟨field, hfield, rfl⟩ := ha
  obtain ⟨other, hother, rfl⟩ := hb
  rw [List.inj_on_of_nodup_map hkeys hfield hother heq]

/-- What `datetime.fromisoformat` returns: a time without a zone, or an instant. -/
inductive Datetime where
  | naive
  | aware (instant : ℤ)
  deriving DecidableEq

/-- How `datetime` reads a text and writes an instant in UTC. -/
structure Calendar where
  fromIsoformat : String → Option Datetime
  isoformat : ℤ → String

/-- The end of year 9999. -/
def endOfTime : ℤ := 3_652_059 * 86_400 * 1_000_000

/-- `datetime` raises for an instant outside the years 1 to 9999. -/
def representable (instant : ℤ) : Py ℤ :=
  if 0 ≤ instant ∧ instant < endOfTime then .ok instant
  else .error (.overflowError "date value out of range")

theorem representable_eq_ok_iff {instant result : ℤ} :
    representable instant = .ok result ↔ (0 ≤ instant ∧ instant < endOfTime) ∧ instant = result := by
  unfold representable
  split_ifs with h
  · rw [Except.ok.injEq]
    exact (and_iff_right h).symm
  · exact iff_of_false (by simp) fun hresult ↦ h hresult.1

/-- `value.replace("Z", "+00:00")`. -/
def zoned (value : String) : String :=
  String.ofList (value.toList.flatMap fun char ↦ if char = 'Z' then "+00:00".toList else [char])

/-- `moment`: a timestamp with a zone, written in UTC. -/
def moment (calendar : Calendar) (value : Json) : Py String := do
  let value ← textArgument value "timestamp" 64
  match calendar.fromIsoformat (zoned value) with
  | none => .error (.valueError "Invalid isoformat string")
  | some .naive => .error (.valueError "timestamp requires a timezone")
  | some (.aware instant) => calendar.isoformat <$> representable instant

/-- `datetime.fromisoformat(moment(value))`. -/
def instant (calendar : Calendar) (value : Json) : Py ℤ := do
  let value ← moment calendar value
  match calendar.fromIsoformat value with
  | none => .error (.valueError "Invalid isoformat string")
  | some .naive => .error (.typeError "can't compare offset-naive and offset-aware datetimes")
  | some (.aware instant) => .ok instant

/-- `fromisoformat` reads what `isoformat` writes in UTC, a short text without `Z`. -/
def Calendar.RoundTrip (calendar : Calendar) : Prop :=
  ∀ value instant, calendar.fromIsoformat value = some (.aware instant) → 0 ≤ instant →
    instant < endOfTime →
    calendar.fromIsoformat (calendar.isoformat instant) = some (.aware instant) ∧
      text (calendar.isoformat instant) "timestamp" 64 = .ok (calendar.isoformat instant) ∧
      'Z' ∉ (calendar.isoformat instant).toList

theorem zoned_of_not_mem {value : String} (h : 'Z' ∉ value.toList) : zoned value = value := by
  have hself : value.toList.flatMap (fun char ↦ if char = 'Z' then "+00:00".toList else [char]) =
      value.toList := by
    calc
      _ = value.toList.flatMap fun char ↦ [char] := by
        apply List.flatMap_congr
        intro char hchar
        have hne : char ≠ 'Z' := fun heq ↦ h (heq ▸ hchar)
        rw [if_neg hne]
      _ = value.toList := List.flatMap_singleton' _
  rw [zoned, hself, String.ofList_toList]

theorem moment_spec {calendar : Calendar} (hcalendar : calendar.RoundTrip) {written : String}
    (h : moment calendar value = .ok written) : moment calendar (.str written) = .ok written ∧
      ∃ time, calendar.isoformat time = written ∧ calendar.fromIsoformat written = some (.aware time) := by
  obtain ⟨content, -, h⟩ := Py.of_bind h
  split at h
  · cases h
  · cases h
  · next time hread =>
    obtain ⟨_, hrange, rfl⟩ := Py.map_eq_ok_iff.mp h
    obtain ⟨hbounds, rfl⟩ := representable_eq_ok_iff.mp hrange
    obtain ⟨hround, htext, hzone⟩ := hcalendar _ _ hread hbounds.1 hbounds.2
    refine ⟨?_, time, rfl, hround⟩
    simp only [moment, textArgument, htext, Py.bind_ok, zoned_of_not_mem hzone, hround, hrange, Py.map_ok]

theorem instant_isoformat {calendar : Calendar} (hcalendar : calendar.RoundTrip) {time : ℤ}
    (h : instant calendar value = .ok time) :
    instant calendar (.str (calendar.isoformat time)) = .ok time := by
  obtain ⟨written, hmoment, hread⟩ := Py.of_bind h
  obtain ⟨hagain, first, rfl, hround⟩ := moment_spec hcalendar hmoment
  rw [hround] at hread
  obtain rfl : first = time := Except.ok.inj hread
  simp only [instant, hagain, Py.bind_ok, hround]

end UniMem.FrontierProtocol
