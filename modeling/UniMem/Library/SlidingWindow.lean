import Mathlib

/-!
# Search in blocks

A list is read in blocks of a fixed size, and each block is searched together with the last values before it.
A pattern is found exactly when one of its occurrences begins at most as many values before the block in which
it ends.
-/

namespace UniMem.Library

variable {α : Type}

/-- The blocks of a list. -/
def blocks (size : ℕ) (values : List α) : List (List α) :=
  if _h : size = 0 ∨ values = [] then []
  else values.take size :: blocks size (values.drop size)
  termination_by values.length
  decreasing_by
    rw [not_or] at _h
    rw [List.length_drop]
    exact Nat.sub_lt (List.length_pos_of_ne_nil _h.2) (Nat.pos_of_ne_zero _h.1)

/-- The last values of a list. -/
def lastValues (keep : ℕ) (values : List α) : List α := values.drop (values.length - keep)

/-- The windows that are searched: each block after the values that were kept. -/
def windows (keep : ℕ) : List α → List (List α) → List (List α)
  | _, [] => []
  | overlap, block :: rest =>
    (overlap ++ block) :: windows keep (lastValues keep (overlap ++ block)) rest

variable {size keep : ℕ} {overlap before values pattern : List α}

theorem blocks_nil : blocks size ([] : List α) = [] := by
  rw [blocks, dif_pos (Or.inr rfl)]

theorem blocks_of_ne_nil (hsize : 0 < size) (h : values ≠ []) :
    blocks size values = values.take size :: blocks size (values.drop size) := by
  rw [blocks, dif_neg]
  rintro (hzero | hnil)
  · exact hsize.ne' hzero
  · exact h hnil

theorem flatten_blocks (hsize : 0 < size) (values : List α) : (blocks size values).flatten = values := by
  induction hlength : values.length using Nat.strong_induction_on generalizing values with
  | _ length ih =>
    by_cases hnil : values = []
    · rw [hnil, blocks_nil]
      rfl
    · rw [blocks_of_ne_nil hsize hnil, List.flatten_cons, ih _ _ _ rfl, List.take_append_drop]
      rw [← hlength, List.length_drop]
      exact Nat.sub_lt (List.length_pos_of_ne_nil hnil) hsize

theorem lastValues_append (keep : ℕ) (before block : List α) :
    lastValues keep (lastValues keep before ++ block) = lastValues keep (before ++ block) := by
  have hle : before.length - keep ≤ before.length := Nat.sub_le _ _
  have hdrop : lastValues keep before ++ block = (before ++ block).drop (before.length - keep) := by
    rw [lastValues, List.drop_append_of_le_length hle]
  rw [hdrop, lastValues, lastValues, List.drop_drop, List.length_drop, List.length_append]
  congr 1
  omega

/-- A pattern occurs at a place. -/
def OccursAt (pattern values : List α) (place : ℕ) : Prop := pattern <+: values.drop place

theorem OccursAt.end_le {place : ℕ} (h : OccursAt pattern values place) (hpattern : pattern ≠ []) :
    place + pattern.length ≤ values.length := by
  have hlength := h.length_le
  rw [List.length_drop] at hlength
  have hpos := List.length_pos_of_ne_nil hpattern
  omega

theorem infix_iff_occursAt : pattern <:+: values ↔ ∃ place, OccursAt pattern values place := by
  constructor
  · rintro ⟨first, last, rfl⟩
    refine ⟨first.length, last, ?_⟩
    rw [List.append_assoc, List.drop_left]
  · rintro ⟨place, h⟩
    exact h.isInfix.trans (List.drop_suffix _ _).isInfix

/-- The place where the block begins in which an occurrence ends. -/
def blockStart (size : ℕ) (pattern : List α) (place : ℕ) : ℕ :=
  size * ((place + pattern.length - 1) / size)

/-- An occurrence that a search in blocks finds. -/
def Caught (size keep : ℕ) (pattern values : List α) (place : ℕ) : Prop :=
  OccursAt pattern values place ∧ blockStart size pattern place ≤ place + keep

theorem occursAt_window {place : ℕ} {block rest : List α} (hstart : before.length ≤ place + keep)
    (hpattern : pattern ≠ []) (h : OccursAt pattern (before ++ (block ++ rest)) place)
    (hend : place + pattern.length ≤ (before ++ block).length) :
    pattern <:+: lastValues keep before ++ block := by
  have hle : before.length - keep ≤ before.length := Nat.sub_le _ _
  have hwindow : lastValues keep before ++ block ++ rest =
      (before ++ (block ++ rest)).drop (before.length - keep) := by
    rw [lastValues, List.drop_append_of_le_length hle, List.append_assoc]
  have hplace : OccursAt pattern (lastValues keep before ++ block ++ rest)
      (place - (before.length - keep)) := by
    rw [OccursAt, hwindow, List.drop_drop]
    have heq : before.length - keep + (place - (before.length - keep)) = place := by omega
    rw [heq]
    exact h
  have hpos := List.length_pos_of_ne_nil hpattern
  have hlength : (lastValues keep before).length = before.length - (before.length - keep) := by
    rw [lastValues, List.length_drop]
  rw [List.length_append] at hend
  have hfits : place - (before.length - keep) + pattern.length ≤ (lastValues keep before ++ block).length := by
    rw [List.length_append, hlength]
    omega
  rw [OccursAt, List.drop_append_of_le_length (by omega)] at hplace
  have hprefix : pattern <+: (lastValues keep before ++ block).drop (place - (before.length - keep)) := by
    refine List.prefix_of_prefix_length_le hplace (List.prefix_append _ _) ?_
    rw [List.length_drop]
    omega
  exact hprefix.isInfix.trans (List.drop_suffix _ _).isInfix

theorem length_append_take {count : ℕ} (hcount : before.length = size * count) :
    (before ++ values.take size).length = size * (count + 1) ∨ values.drop size = [] := by
  by_cases hshort : values.length ≤ size
  · exact Or.inr (List.drop_eq_nil_of_le hshort)
  · refine Or.inl ?_
    rw [List.length_append, List.length_take, hcount, Nat.mul_succ]
    omega

theorem exists_caught_of_window (hsize : 0 < size) (hpattern : pattern ≠ []) {count : ℕ}
    (hbefore : before.length = size * count ∨ values = []) {window : List α}
    (hwindow : window ∈ windows keep (lastValues keep before) (blocks size values))
    (hfound : pattern <:+: window) : ∃ place, Caught size keep pattern (before ++ values) place := by
  induction hlength : values.length using Nat.strong_induction_on generalizing values before count with
  | _ length ih =>
    by_cases hnil : values = []
    · rw [hnil, blocks_nil] at hwindow
      cases hwindow
    · rw [blocks_of_ne_nil hsize hnil, windows, lastValues_append, List.mem_cons] at hwindow
      have hcount := hbefore.resolve_right hnil
      obtain rfl | hrest := hwindow
      · obtain ⟨place, hplace⟩ := infix_iff_occursAt.mp hfound
        have hend := hplace.end_le hpattern
        have hle : before.length - keep ≤ before.length := Nat.sub_le _ _
        have hdrop : lastValues keep before ++ values.take size =
            (before ++ values.take size).drop (before.length - keep) := by
          rw [lastValues, List.drop_append_of_le_length hle]
        rw [OccursAt, hdrop, List.drop_drop] at hplace
        rw [hdrop, List.length_drop, List.length_append, List.length_take] at hend
        refine ⟨before.length - keep + place, ?_, ?_⟩
        · have hwhole : before ++ values = before ++ values.take size ++ values.drop size := by
            rw [List.append_assoc, List.take_append_drop]
          rw [OccursAt, hwhole, List.drop_append_of_le_length]
          · exact hplace.trans (List.prefix_append _ _)
          · rw [List.length_append, List.length_take]
            omega
        · have hpos := List.length_pos_of_ne_nil hpattern
          have hlast : before.length - keep + place + pattern.length - 1 < size * (count + 1) := by
            rw [Nat.mul_succ, ← hcount]
            omega
          have hdiv : (before.length - keep + place + pattern.length - 1) / size ≤ count :=
            Nat.lt_succ_iff.mp (Nat.div_lt_of_lt_mul hlast)
          have hstart : blockStart size pattern (before.length - keep + place) ≤ before.length :=
            (Nat.mul_le_mul_left size hdiv).trans hcount.ge
          omega
      · have hsplit : before ++ values = before ++ values.take size ++ values.drop size := by
          rw [List.append_assoc, List.take_append_drop]
        rw [hsplit]
        refine ih _ ?_ (length_append_take hcount) hrest rfl
        rw [← hlength, List.length_drop]
        exact Nat.sub_lt (List.length_pos_of_ne_nil hnil) hsize

theorem exists_window_of_caught (hsize : 0 < size) (hpattern : pattern ≠ []) {count place : ℕ}
    (hbefore : before.length = size * count ∨ values = []) (h : Caught size keep pattern (before ++ values) place)
    (hend : before.length < place + pattern.length) :
    ∃ window ∈ windows keep (lastValues keep before) (blocks size values), pattern <:+: window := by
  induction hlength : values.length using Nat.strong_induction_on generalizing values before count with
  | _ length ih =>
    have hle := h.1.end_le hpattern
    rw [List.length_append] at hle
    have hnil : values ≠ [] := by
      rintro rfl
      rw [List.length_nil] at hle
      omega
    have hcount := hbefore.resolve_right hnil
    rw [blocks_of_ne_nil hsize hnil, windows, lastValues_append]
    by_cases hhere : place + pattern.length ≤ (before ++ values.take size).length
    · refine ⟨_, List.mem_cons_self, ?_⟩
      have hdiv : (place + pattern.length - 1) / size = count := by
        rw [List.length_append, List.length_take] at hhere
        refine Nat.div_eq_of_lt_le ?_ ?_
        · rw [Nat.mul_comm, ← hcount]
          omega
        · rw [Nat.mul_comm, Nat.mul_succ, ← hcount]
          omega
      have hstart : before.length ≤ place + keep := by
        have hblock := h.2
        rw [blockStart, hdiv, ← hcount] at hblock
        exact hblock
      have hoccurs : OccursAt pattern (before ++ (values.take size ++ values.drop size)) place := by
        rw [List.take_append_drop]
        exact h.1
      exact occursAt_window hstart hpattern hoccurs hhere
    · have hsplit : before ++ values = before ++ values.take size ++ values.drop size := by
        rw [List.append_assoc, List.take_append_drop]
      rw [hsplit] at h
      have hshorter : (values.drop size).length < length := by
        rw [← hlength, List.length_drop]
        exact Nat.sub_lt (List.length_pos_of_ne_nil hnil) hsize
      obtain ⟨window, hwindow, hfound⟩ :=
        ih _ hshorter (length_append_take hcount) h (Nat.not_le.mp hhere) rfl
      exact ⟨window, List.mem_cons_of_mem _ hwindow, hfound⟩

theorem exists_window_iff (hsize : 0 < size) (hpattern : pattern ≠ []) :
    (∃ window ∈ windows keep [] (blocks size values), pattern <:+: window) ↔
      ∃ place, Caught size keep pattern values place := by
  have hstart : windows keep [] (blocks size values) =
      windows keep (lastValues keep []) (blocks size values) := by
    rw [show lastValues keep ([] : List α) = [] from List.drop_nil]
  have hzero : ([] : List α).length = size * 0 ∨ values = [] := Or.inl rfl
  rw [hstart]
  constructor
  · rintro ⟨window, hwindow, hfound⟩
    exact exists_caught_of_window hsize hpattern hzero hwindow hfound
  · rintro ⟨place, hplace⟩
    have hpos := List.length_pos_of_ne_nil hpattern
    exact exists_window_of_caught hsize hpattern hzero hplace (by rw [List.length_nil]; omega)

theorem exists_window_iff_isInfix (hsize : 0 < size) (hpattern : pattern ≠ []) (hkeep : pattern.length ≤ keep + 1) :
    (∃ window ∈ windows keep [] (blocks size values), pattern <:+: window) ↔ pattern <:+: values := by
  rw [exists_window_iff hsize hpattern, infix_iff_occursAt]
  refine exists_congr fun place ↦ and_iff_left_of_imp fun _ ↦ ?_
  have hdiv : blockStart size pattern place ≤ place + pattern.length - 1 := Nat.mul_div_le _ _
  omega

end UniMem.Library
