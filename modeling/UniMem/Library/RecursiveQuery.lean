import Mathlib

/-!
# Recursive queries

A recursive query adds, round after round, the rows that the last ones lead to. On a finite table as many rounds as
it has rows are enough to find what can be reached.
-/

namespace UniMem.Library.RecursiveQuery

open Relation

variable {α : Type} [DecidableEq α]

/-- What a round adds. -/
def added (next : α → List α) (found working : List α) : List α :=
  (working.flatMap next).dedup.filter (· ∉ found)

/-- The rounds of a query: what was found, and what the last round added. -/
def rounds (next : α → List α) : ℕ → List α → List α → List α
  | 0, found, _ => found
  | count + 1, found, working =>
    rounds next count (found ++ added next found working) (added next found working)

/-- `WITH RECURSIVE` over a table that holds every row that can be added. -/
def query (next : α → List α) (table start : List α) : List α := rounds next table.length start start

variable {next : α → List α} {table found working start : List α} {count : ℕ}

theorem mem_added {value : α} :
    value ∈ added next found working ↔ (∃ from' ∈ working, value ∈ next from') ∧ value ∉ found := by
  simp [added, List.mem_flatMap]

theorem rounds_nil (count : ℕ) : rounds next count found [] = found := by
  induction count generalizing found with
  | zero => rfl
  | succ count ih =>
    have hnothing : added next found [] = [] := by simp [added]
    rw [rounds, hnothing, List.append_nil, ih]

theorem subset_rounds (count : ℕ) (found working : List α) : found ⊆ rounds next count found working := by
  induction count generalizing found working with
  | zero => exact List.Subset.refl _
  | succ count ih => exact List.Subset.trans (List.subset_append_left _ _) (ih _ _)

/-- The rows of the table that were not found. -/
def missing (table found : List α) : ℕ := table.countP fun value ↦ value ∉ found

theorem missing_append_lt {value : α} (hmem : value ∈ table) (hnew : value ∉ found) {others : List α}
    (hother : value ∈ others) : missing table (found ++ others) < missing table found := by
  unfold missing
  obtain ⟨before, after, rfl⟩ := List.append_of_mem hmem
  have hle : ∀ values : List α, values.countP (fun row ↦ decide (row ∉ found ++ others)) ≤
      values.countP fun row ↦ decide (row ∉ found) := fun values ↦
    List.countP_mono_left fun row _ hrow ↦ by
      simp only [List.mem_append, not_or, decide_eq_true_eq] at hrow ⊢
      exact hrow.1
  have hbefore := hle before
  have hafter := hle after
  simp only [List.countP_append, List.countP_cons, List.mem_append, hother, or_true, not_true_eq_false, decide_false,
    Bool.false_eq_true, if_false, hnew, not_false_eq_true, decide_true, if_true] at hbefore hafter ⊢
  omega

theorem rounds_closed (htable : ∀ value, ∀ other ∈ next value, other ∈ table) (hcount : missing table found ≤ count)
    (hclosed : ∀ value ∈ found, value ∉ working → ∀ other ∈ next value, other ∈ found) :
    ∀ value ∈ rounds next count found working, ∀ other ∈ next value, other ∈ rounds next count found working := by
  induction count generalizing found working with
  | zero =>
    intro value _ other hother
    have hnone : missing table found = 0 := Nat.le_zero.mp hcount
    rw [missing, List.countP_eq_zero] at hnone
    simpa [rounds] using hnone other (htable value other hother)
  | succ count ih =>
    have hstep : ∀ value ∈ found ++ added next found working, value ∉ added next found working →
        ∀ other ∈ next value, other ∈ found ++ added next found working := by
      intro value hvalue hold other hother
      have hfound := (List.mem_append.mp hvalue).resolve_right hold
      by_cases hknown : other ∈ found
      · exact List.mem_append_left _ hknown
      · refine List.mem_append_right _ (mem_added.mpr ⟨⟨value, ?_, hother⟩, hknown⟩)
        by_contra hidle
        exact hknown (hclosed value hfound hidle other hother)
    rw [rounds]
    cases hadded : added next found working with
    | nil =>
      rw [hadded, List.append_nil] at hstep
      rw [List.append_nil, rounds_nil]
      exact fun value hvalue ↦ hstep value hvalue List.not_mem_nil
    | cons first others =>
      rw [← hadded]
      refine ih ?_ hstep
      have hfirst : first ∈ added next found working := hadded ▸ List.mem_cons_self
      obtain ⟨⟨value, -, hnext⟩, hnew⟩ := mem_added.mp hfirst
      have hless := missing_append_lt (htable value first hnext) hnew hfirst
      omega

theorem reachable_of_mem_rounds (property : α → Prop)
    (hstep : ∀ value, property value → ∀ other ∈ next value, property other)
      (hfound : ∀ value ∈ found, property value) (hworking : ∀ value ∈ working, property value) {value : α}
    (h : value ∈ rounds next count found working) : property value := by
  induction count generalizing found working with
  | zero => exact hfound value h
  | succ count ih =>
    have hadded : ∀ value ∈ added next found working, property value := by
      intro value hvalue
      obtain ⟨⟨source, hsource, hnext⟩, -⟩ := mem_added.mp hvalue
      exact hstep source (hworking source hsource) value hnext
    refine ih ?_ hadded h
    intro value hvalue
    obtain hold | hnew := List.mem_append.mp hvalue
    · exact hfound value hold
    · exact hadded value hnew

theorem mem_query_iff (htable : ∀ value, ∀ other ∈ next value, other ∈ table) {value : α} :
    value ∈ query next table start ↔
      ∃ first ∈ start, ReflTransGen (fun source target ↦ target ∈ next source) first value := by
  constructor
  · refine reachable_of_mem_rounds (fun value ↦ ∃ first ∈ start, ReflTransGen _ first value) ?_ ?_ ?_
    · rintro source ⟨first, hfirst, hpath⟩ other hother
      exact ⟨first, hfirst, hpath.tail hother⟩
    · exact fun first hfirst ↦ ⟨first, hfirst, .refl⟩
    · exact fun first hfirst ↦ ⟨first, hfirst, .refl⟩
  · rintro ⟨first, hfirst, hpath⟩
    have hclosed := rounds_closed htable (List.countP_le_length (p := fun row ↦ decide (row ∉ start)))
      (fun value hvalue hidle ↦ absurd hvalue hidle)
    induction hpath with
    | refl => exact subset_rounds _ _ _ hfirst
    | tail _ hedge ih => exact hclosed _ ih _ hedge

end UniMem.Library.RecursiveQuery
