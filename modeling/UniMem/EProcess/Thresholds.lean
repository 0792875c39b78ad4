import UniMem.FrontierProtocol.Values
import UniMem.Library.Grouping
import UniMem.Library.StepUp
import UniMem.Python.Collections

/-!
# Rejection by e-values and by p-values

`eprocess.ebh` and `experiment.benjamini_hochberg` in exact arithmetic. Both are step-up selections, and they keep
the same indexes when the p-values are the reciprocals of the e-values.
-/

set_option linter.unusedSectionVars false

namespace UniMem.EProcess

open Library Library.StepUp

variable {𝕜 : Type} [Field 𝕜] [LinearOrder 𝕜] [IsStrictOrderedRing 𝕜] [ToString 𝕜]

theorem atLeastTwo_two : Nat.AtLeastTwo 2 := inferInstance

theorem atLeastTwo_ten : Nat.AtLeastTwo 10 := inferInstance

theorem atLeastTwo_ninetyNine : Nat.AtLeastTwo 99 := inferInstance

theorem atLeastTwo_hundred : Nat.AtLeastTwo 100 := inferInstance

/-- The error of a number out of its range. -/
def rangeError (low high : 𝕜) (label : String) : PyError :=
  .valueError s!"{label} must be in [{low}, {high}]"

/-- `frontier_protocol.number` on a number of the field, which is finite. -/
def number (value low high : 𝕜) (label : String) : Py 𝕜 :=
  if low ≤ value ∧ value ≤ high then .ok value else .error (rangeError low high label)

/-- The checks at the start of `ebh`. -/
def checkValues (values : List 𝕜) (alpha : 𝕜) : Py Unit := do
  let _ ← number alpha (1 / 10 ^ 12) (1 - 1 / 10 ^ 12) "alpha"
  let _ ← FrontierProtocol.count values.length 0 100_000 "count"
  values.forM fun value ↦ do
    let _ ← number value 0 (10 ^ 300) "e-value"

/-- The indexes by decreasing value. -/
def ebhOrder (values : List 𝕜) : List ℕ :=
  sortBy (fun index ↦ toLex (-values.getD index 0, index)) (List.range values.length)

/-- The test of `ebh` for the value at an index and a rank. -/
def exceeds (values : List 𝕜) (alpha : 𝕜) (rank index : ℕ) : Bool :=
  decide (values.length / (alpha * rank) ≤ values.getD index 0)

/-- `ebh`. -/
def ebh (values : List 𝕜) (alpha : 𝕜) : Py (List Bool) := do
  checkValues values alpha
  let order := ebhOrder values
  let rejected := order.take (cutoff (exceeds values alpha) order)
  return (List.range values.length).map fun index ↦ decide (index ∈ rejected)

/-- The indexes by increasing value. -/
def benjaminiHochbergOrder (pValues : List 𝕜) : List ℕ :=
  sortBy (fun index ↦ pValues.getD index 0) (List.range pValues.length)

/-- The test of `benjamini_hochberg` for the value at an index and a rank. -/
def survives (pValues : List 𝕜) (alpha : 𝕜) (rank index : ℕ) : Bool :=
  decide (pValues.getD index 0 ≤ rank / pValues.length * alpha)

/-- The last loop of `benjamini_hochberg`: the indexes up to a rank are kept. -/
def mark (maxRank : ℕ) (order : List ℕ) (keep : List Bool) : List Bool :=
  (order.zipIdx 1).foldl (fun keep item ↦ if item.2 ≤ maxRank then keep.set item.1 true else keep) keep

/-- `benjamini_hochberg`. -/
def benjaminiHochberg (pValues : List 𝕜) (alpha : 𝕜) : Py (List Bool) := do
  Py.require (0 < alpha ∧ alpha < 1) (.valueError s!"alpha must be in (0, 1), got {alpha}")
  Py.require (pValues.all fun p ↦ 0 ≤ p ∧ p ≤ 1)
    (.valueError "p-values must be finite and lie in [0, 1]")
  if pValues.length = 0 then return []
  let order := benjaminiHochbergOrder pValues
  return mark (cutoff (survives pValues alpha) order) order (List.replicate pValues.length false)

variable {values pValues : List 𝕜} {alpha : 𝕜} {index rank : ℕ}

/-- The values and the level that `ebh` accepts. -/
structure Accepted (values : List 𝕜) (alpha : 𝕜) : Prop where
  alpha_mem : alpha ∈ Set.Icc (1 / 10 ^ 12) (1 - 1 / 10 ^ 12)
  length_le : values.length ≤ 100_000
  values_mem : ∀ value ∈ values, value ∈ Set.Icc 0 (10 ^ 300)

theorem Accepted.alpha_pos (h : Accepted values alpha) : 0 < alpha :=
  lt_of_lt_of_le (by positivity) h.alpha_mem.1

theorem Accepted.alpha_lt_one (h : Accepted values alpha) : alpha < 1 :=
  h.alpha_mem.2.trans_lt (sub_lt_self 1 (by positivity))

theorem number_eq_ok_iff {value low high result : 𝕜} {label : String} :
    number value low high label = .ok result ↔ value ∈ Set.Icc low high ∧ value = result := by
  unfold number
  split_ifs with h
  · rw [Except.ok.injEq]
    exact ⟨fun heq ↦ ⟨h, heq⟩, fun hboth ↦ hboth.2⟩
  · exact iff_of_false (by simp) fun hboth ↦ h hboth.1

theorem checkValues_eq_ok_iff {result : Unit} :
    checkValues values alpha = .ok result ↔ Accepted values alpha := by
  constructor
  · intro h
    obtain ⟨_, halpha, h⟩ := Py.of_bind h
    obtain ⟨_, hcount, h⟩ := Py.of_bind h
    refine ⟨(number_eq_ok_iff.mp halpha).1, ?_, fun value hvalue ↦ ?_⟩
    · exact_mod_cast (FrontierProtocol.count_eq_ok_iff.mp hcount).1.2
    · obtain ⟨_, hnumber, -⟩ := Py.of_bind (Py.forM_eq_ok_iff.mp h value hvalue)
      exact (number_eq_ok_iff.mp hnumber).1
  · intro h
    refine Py.bind_eq_ok_iff.mpr ⟨alpha, number_eq_ok_iff.mpr ⟨h.alpha_mem, rfl⟩, ?_⟩
    refine Py.bind_eq_ok_iff.mpr ⟨values.length, FrontierProtocol.count_eq_ok_iff.mpr ⟨⟨?_, ?_⟩, rfl⟩, ?_⟩
    · exact Int.natCast_nonneg _
    · exact_mod_cast h.length_le
    · refine Py.forM_eq_ok_iff.mpr fun value hvalue ↦ Py.bind_eq_ok_iff.mpr ⟨value, ?_, rfl⟩
      exact number_eq_ok_iff.mpr ⟨h.values_mem value hvalue, rfl⟩

theorem checkValues_eq (values : List 𝕜) (alpha : 𝕜) :
    checkValues values alpha = (do
      let _ ← number alpha (1 / 10 ^ 12) (1 - 1 / 10 ^ 12) "alpha"
      let _ ← FrontierProtocol.count values.length 0 100_000 "count"
      Py.require (values.all fun value ↦ 0 ≤ value ∧ value ≤ 10 ^ 300)
        (rangeError (0 : 𝕜) (10 ^ 300) "e-value")) := by
  have hloop : ∀ items : List 𝕜, (items.forM fun value ↦ do
      let _ ← number value 0 (10 ^ 300) "e-value") =
      Py.require (items.all fun value ↦ 0 ≤ value ∧ value ≤ 10 ^ 300)
        (rangeError (0 : 𝕜) (10 ^ 300) "e-value") := by
    intro items
    induction items with
    | nil => rfl
    | cons value items ih =>
      rw [List.forM, ih, List.all_cons, number]
      by_cases h : 0 ≤ value ∧ value ≤ 10 ^ 300
      · rw [if_pos h, decide_eq_true h, Bool.true_and]
        rfl
      · rw [if_neg h, decide_eq_false h, Bool.false_and]
        rfl
  rw [checkValues, hloop]

theorem checkValues_perm {first second : List 𝕜} (h : first.Perm second) (alpha : 𝕜) :
    checkValues first alpha = checkValues second alpha := by
  have hall : (first.all fun value ↦ 0 ≤ value ∧ value ≤ 10 ^ 300) =
      second.all fun value ↦ 0 ≤ value ∧ value ≤ 10 ^ 300 := by
    rw [Bool.eq_iff_iff, List.all_eq_true, List.all_eq_true]
    exact ⟨fun hfirst value hvalue ↦ hfirst value (h.mem_iff.mpr hvalue),
      fun hsecond value hvalue ↦ hsecond value (h.mem_iff.mp hvalue)⟩
  rw [checkValues_eq, checkValues_eq, h.length_eq, hall]

/-- The test of `ebh` for a value and a rank, among `size` values. -/
def clears (size : ℕ) (alpha : 𝕜) (rank : ℕ) (value : 𝕜) : Bool :=
  decide (size / (alpha * rank) ≤ value)

theorem map_getD_range (values : List 𝕜) :
    (List.range values.length).map (values.getD · 0) = values := by
  refine List.ext_getElem (by simp) fun index h _ ↦ ?_
  rw [List.length_map, List.length_range] at h
  rw [List.getElem_map, List.getElem_range, List.getD_eq_getElem _ _ h]

theorem weakening_clears (size : ℕ) (halpha : 0 < alpha) :
    Weakening (clears size alpha : ℕ → 𝕜 → Bool) := by
  intro rank value hrank h
  rw [clears, decide_eq_true_eq] at h ⊢
  refine le_trans ?_ h
  have hrank' : (0 : 𝕜) < rank := Nat.cast_pos.mpr hrank
  have hle : (rank : 𝕜) ≤ (rank + 1 : ℕ) := Nat.cast_le.mpr (Nat.le_succ rank)
  gcongr

theorem attained_exceeds {order : List ℕ} (h : order.Perm (List.range values.length)) :
    attained (exceeds values alpha) order = attained (clears values.length alpha) values := by
  rw [attained_perm h]
  conv_rhs => rw [← map_getD_range values, attained_map]
  rw [List.length_map, List.length_range]
  rfl

theorem ebhOrder_perm (values : List 𝕜) : (ebhOrder values).Perm (List.range values.length) :=
  sortBy_perm _ _

theorem ranked_ebhOrder (values : List 𝕜) (alpha : 𝕜) :
    Ranked (exceeds values alpha) (ebhOrder values) := by
  have hsorted := sorted_map_sortBy (fun index ↦ toLex (-values.getD index 0, index))
    (List.range values.length)
  rw [List.pairwise_map] at hsorted
  refine hsorted.imp fun {first second} hle rank h ↦ ?_
  have hvalues : values.getD second 0 ≤ values.getD first 0 := by
    rcases Prod.Lex.toLex_le_toLex.mp hle with hlt | heq
    · exact (neg_lt_neg_iff.mp hlt).le
    · exact (neg_inj.mp heq.1).ge
  rw [exceeds, decide_eq_true_eq] at h ⊢
  exact h.trans hvalues

theorem mem_rejected_iff (halpha : 0 < alpha) (hindex : index < values.length) :
    index ∈ (ebhOrder values).take (cutoff (exceeds values alpha) (ebhOrder values)) ↔
      Selected (clears values.length alpha) values (values.getD index 0) := by
  have hweakening : Weakening (exceeds values alpha) := fun rank index hrank h ↦
    weakening_clears values.length halpha rank _ hrank h
  have hmem : index ∈ ebhOrder values := (ebhOrder_perm values).mem_iff.mpr (List.mem_range.mpr hindex)
  rw [(ranked_ebhOrder values alpha).mem_take_cutoff_iff hweakening, Selected,
    attained_exceeds (ebhOrder_perm values)]
  exact and_iff_right hmem

theorem ebh_eq_ok_iff {rejected : List Bool} :
    ebh values alpha = .ok rejected ↔ Accepted values alpha ∧ List.Forall₂
      (fun value flag ↦ flag = true ↔ Selected (clears values.length alpha) values value) values rejected := by
  have hspec : Accepted values alpha → List.Forall₂
      (fun value flag ↦ flag = true ↔ Selected (clears values.length alpha) values value) values
      ((List.range values.length).map fun index ↦ decide (index ∈
        (ebhOrder values).take (cutoff (exceeds values alpha) (ebhOrder values)))) := by
    intro haccepted
    conv => arg 2; rw [← map_getD_range values]
    rw [List.forall₂_map_left_iff, List.forall₂_map_right_iff, List.forall₂_same]
    intro index hindex
    rw [decide_eq_true_eq]
    exact mem_rejected_iff haccepted.alpha_pos (List.mem_range.mp hindex)
  constructor
  · intro h
    obtain ⟨_, hchecked, heq⟩ := Py.of_bind h
    have haccepted := checkValues_eq_ok_iff.mp hchecked
    rw [← Except.ok.inj heq]
    exact ⟨haccepted, hspec haccepted⟩
  · rintro ⟨haccepted, h⟩
    refine Py.bind_eq_ok_iff.mpr ⟨(), checkValues_eq_ok_iff.mpr haccepted, congrArg Except.ok ?_⟩
    have hunique : Relator.RightUnique fun (value : 𝕜) (flag : Bool) ↦
        (flag = true ↔ Selected (clears values.length alpha) values value) :=
      fun _ _ _ hfirst hsecond ↦ Bool.eq_iff_iff.mpr (hfirst.trans hsecond.symm)
    exact hunique.forall₂ (hspec haccepted) h

/-- The test of `benjamini_hochberg` for a value and a rank, among `size` values. -/
def withstands (size : ℕ) (alpha : 𝕜) (rank : ℕ) (pValue : 𝕜) : Bool :=
  decide (pValue ≤ rank / size * alpha)

theorem weakening_withstands (size : ℕ) (halpha : 0 < alpha) :
    Weakening (withstands size alpha : ℕ → 𝕜 → Bool) := by
  intro rank value _ h
  rw [withstands, decide_eq_true_eq] at h ⊢
  refine h.trans ?_
  have hle : (rank : 𝕜) ≤ (rank + 1 : ℕ) := Nat.cast_le.mpr (Nat.le_succ rank)
  gcongr

theorem mark_concat (maxRank : ℕ) (order : List ℕ) (keep : List Bool) :
    mark maxRank (order ++ [index]) keep = if order.length + 1 ≤ maxRank then (mark maxRank order keep).set index true
      else mark maxRank order keep := by
  rw [mark, List.zipIdx_append, List.foldl_append, mark]
  simp [Nat.add_comm]

theorem length_mark (maxRank : ℕ) (order : List ℕ) (keep : List Bool) :
    (mark maxRank order keep).length = keep.length := by
  induction order using List.reverseRecOn with
  | nil => rfl
  | append_singleton order index ih =>
    rw [mark_concat]
    split_ifs
    · rw [List.length_set, ih]
    · exact ih

theorem getElem?_mark (maxRank : ℕ) (order : List ℕ) (keep : List Bool) (hindex : index < keep.length) :
    (mark maxRank order keep)[index]? = if index ∈ order.take maxRank then some true else keep[index]? := by
  induction order using List.reverseRecOn with
  | nil => rw [List.take_nil, if_neg List.not_mem_nil, mark, List.zipIdx_nil, List.foldl_nil]
  | append_singleton order last ih =>
    rw [mark_concat]
    by_cases hrank : order.length + 1 ≤ maxRank
    · rw [List.take_of_length_le (by omega)] at ih
      rw [if_pos hrank, List.take_of_length_le (by simpa using hrank), List.getElem?_set, ih, length_mark]
      by_cases hlast : last = index
      · simp [hlast, hindex]
      · simp [hlast, Ne.symm hlast]
    · rw [if_neg hrank, ih, List.take_append_of_le_length (by omega)]

theorem mark_eq (maxRank : ℕ) (order : List ℕ) (size : ℕ) :
    mark maxRank order (List.replicate size false) =
      (List.range size).map fun index ↦ decide (index ∈ order.take maxRank) := by
  refine List.ext_getElem? fun index ↦ ?_
  by_cases hindex : index < size
  · rw [getElem?_mark _ _ _ (by simpa using hindex)]
    by_cases hmem : index ∈ order.take maxRank
    · simp [hmem, hindex]
    · simp [hmem, hindex]
  · rw [List.getElem?_eq_none (by rw [length_mark]; simpa using hindex),
      List.getElem?_eq_none (by simpa using hindex)]

theorem ranked_benjaminiHochbergOrder (pValues : List 𝕜) (alpha : 𝕜) :
    Ranked (survives pValues alpha) (benjaminiHochbergOrder pValues) := by
  have hsorted := sorted_map_sortBy (fun index ↦ pValues.getD index 0) (List.range pValues.length)
  rw [List.pairwise_map] at hsorted
  refine hsorted.imp fun {first second} hle rank h ↦ ?_
  rw [survives, decide_eq_true_eq] at h ⊢
  exact hle.trans h

theorem attained_survives :
    attained (survives pValues alpha) (benjaminiHochbergOrder pValues) =
      attained (withstands pValues.length alpha) pValues := by
  rw [benjaminiHochbergOrder, attained_perm (sortBy_perm _ _)]
  conv_rhs => rw [← map_getD_range pValues, attained_map]
  rw [List.length_map, List.length_range]
  rfl

theorem benjaminiHochberg_eq (halpha : alpha ∈ Set.Ioo 0 1) (hvalues : ∀ p ∈ pValues, p ∈ Set.Icc 0 1) :
    ∃ keep, benjaminiHochberg pValues alpha = .ok keep ∧ List.Forall₂
      (fun p flag ↦ flag = true ↔ Selected (withstands pValues.length alpha) pValues p) pValues keep := by
  have hall : (pValues.all fun p ↦ 0 ≤ p ∧ p ≤ 1) = true := by
    rw [List.all_eq_true]
    exact fun p hp ↦ decide_eq_true (hvalues p hp)
  rw [benjaminiHochberg, decide_eq_true (show 0 < alpha ∧ alpha < 1 from halpha), Py.require_true,
    Py.bind_ok, hall, Py.require_true, Py.bind_ok]
  by_cases hempty : pValues.length = 0
  · rw [if_pos hempty]
    obtain rfl := List.length_eq_zero_iff.mp hempty
    exact ⟨[], rfl, .nil⟩
  · rw [if_neg hempty]
    dsimp only
    rw [mark_eq]
    refine ⟨_, rfl, ?_⟩
    conv => arg 2; rw [← map_getD_range pValues]
    rw [List.forall₂_map_left_iff, List.forall₂_map_right_iff, List.forall₂_same]
    intro index hindex
    have hweakening : Weakening (survives pValues alpha) := fun rank index hrank h ↦
      weakening_withstands pValues.length halpha.1 rank _ hrank h
    have hmem : index ∈ benjaminiHochbergOrder pValues := mem_sortBy.mpr hindex
    rw [decide_eq_true_eq, (ranked_benjaminiHochbergOrder pValues alpha).mem_take_cutoff_iff hweakening,
      Selected, attained_survives]
    exact and_iff_right hmem

theorem withstands_one_div {size : ℕ} {value : 𝕜} (hsize : 0 < size) (halpha : 0 < alpha) (hrank : 0 < rank)
    (hvalue : 0 < value) : withstands size alpha rank (1 / value) = clears size alpha rank value := by
  have hsize' : (0 : 𝕜) < size := Nat.cast_pos.mpr hsize
  have hrank' : (0 : 𝕜) < rank := Nat.cast_pos.mpr hrank
  rw [withstands, clears, decide_eq_decide, div_le_iff₀ hvalue, div_le_iff₀ (mul_pos halpha hrank'),
    div_mul_eq_mul_div, div_mul_eq_mul_div, le_div_iff₀ hsize', one_mul, mul_comm value, mul_comm alpha]

theorem selected_one_div (halpha : 0 < alpha) (hvalues : ∀ value ∈ values, 0 < value) {value : 𝕜}
    (hvalue : value ∈ values) :
    Selected (withstands (values.map (1 / ·)).length alpha) (values.map (1 / ·)) (1 / value) ↔
      Selected (clears values.length alpha) values value := by
  have hsize : 0 < values.length := List.length_pos_of_mem hvalue
  have hattained : attained (withstands (values.map (1 / ·)).length alpha) (values.map (1 / ·)) =
      attained (clears values.length alpha) values := by
    rw [attained_map, List.length_map]
    exact attained_congr fun rank hrank value hvalue ↦
      withstands_one_div hsize halpha hrank (hvalues value hvalue)
  rw [Selected, Selected, hattained, List.length_map]
  refine exists_congr fun rank ↦ and_congr_right fun hgreatest ↦ ?_
  rw [withstands_one_div hsize halpha hgreatest.1.1 (hvalues value hvalue)]

/-- The ranks `k` for which at least `k` values are at least `m / (alpha * k)`. -/
def supported (values : List 𝕜) (alpha : 𝕜) : Set ℕ :=
  {k | 0 < k ∧ k ≤ values.countP fun value ↦ values.length / (alpha * k) ≤ value}

theorem ebh_perm {order : List ℕ} (h : order.Perm (List.range values.length)) (alpha : 𝕜) :
    ebh (order.map (values.getD · 0)) alpha =
      (fun rejected ↦ order.map (rejected.getD · false)) <$> ebh values alpha := by
  have hperm : (order.map (values.getD · 0)).Perm values :=
    (h.map _).trans (List.Perm.of_eq (map_getD_range values))
  cases hebh : ebh values alpha with
  | error error =>
    cases hcheck : checkValues values alpha with
    | error other =>
      rw [ebh, hcheck] at hebh
      rw [ebh, checkValues_perm hperm, hcheck]
      exact hebh
    | ok _ =>
      rw [ebh, hcheck] at hebh
      cases hebh
  | ok rejected =>
    obtain ⟨haccepted, hrejected⟩ := ebh_eq_ok_iff.mp hebh
    have hchecked : checkValues values alpha = .ok () := checkValues_eq_ok_iff.mpr haccepted
    refine ebh_eq_ok_iff.mpr ⟨checkValues_eq_ok_iff.mp ((checkValues_perm hperm alpha).trans hchecked), ?_⟩
    rw [hperm.length_eq, List.forall₂_map_left_iff, List.forall₂_map_right_iff, List.forall₂_same]
    intro index hindex
    rw [h.mem_iff, List.mem_range] at hindex
    have hlength := hrejected.length_eq
    have hflag := hrejected.get hindex (hlength ▸ hindex)
    rw [selected_perm hperm, List.getD_eq_getElem _ _ hindex, List.getD_eq_getElem _ _ (hlength ▸ hindex)]
    exact hflag

theorem ebh_mono {lower upper : List 𝕜} {rejected others : List Bool}
    (h : List.Forall₂ (· ≤ ·) lower upper) (hlower : ebh lower alpha = .ok rejected)
    (hupper : ebh upper alpha = .ok others) : List.Forall₂ (· ≤ ·) rejected others := by
  obtain ⟨haccepted, hrejected⟩ := ebh_eq_ok_iff.mp hlower
  obtain ⟨-, hothers⟩ := ebh_eq_ok_iff.mp hupper
  rw [← h.length_eq] at hothers
  have hstep : ∀ {first second : 𝕜}, first ≤ second → ∀ rank,
      clears lower.length alpha rank first = true → clears lower.length alpha rank second = true := by
    intro first second hle rank hclears
    rw [clears, decide_eq_true_eq] at hclears ⊢
    exact hclears.trans hle
  refine List.forall₂_iff_get.mpr ⟨?_, fun index hrejectedIndex hothersIndex ↦ ?_⟩
  · rw [← hrejected.length_eq, h.length_eq, hothers.length_eq]
  · have hlowerIndex : index < lower.length := hrejected.length_eq ▸ hrejectedIndex
    have hupperIndex : index < upper.length := h.length_eq ▸ hlowerIndex
    intro hflag
    rw [hothers.get hupperIndex hothersIndex]
    exact ((hrejected.get hlowerIndex hrejectedIndex).mp hflag).mono
      (weakening_clears _ haccepted.alpha_pos) (h.imp fun _ _ ↦ hstep) (hstep (h.get hlowerIndex hupperIndex))

/-- `ebh` rejects the values at the greatest supported threshold, as `benjamini_hochberg` does. -/
theorem ebh_selects_thresholds :
    (∀ (values : List 𝕜) (alpha : 𝕜), (∃ rejected, ebh values alpha = .ok rejected) ↔
      alpha ∈ Set.Icc (1 / 10 ^ 12) (1 - 1 / 10 ^ 12) ∧ values.length ≤ 100_000 ∧
        ∀ value ∈ values, value ∈ Set.Icc 0 (10 ^ 300)) ∧
    (∀ (values : List 𝕜) (alpha : 𝕜) (rejected : List Bool), ebh values alpha = .ok rejected →
      List.Forall₂ (fun value flag ↦ flag = true ↔
        ∃ k, IsGreatest (supported values alpha) k ∧ values.length / (alpha * k) ≤ value) values rejected) ∧
    (∀ (values : List 𝕜) (alpha : 𝕜) (order : List ℕ), order.Perm (List.range values.length) →
      ebh (order.map (values.getD · 0)) alpha =
        (fun rejected ↦ order.map (rejected.getD · false)) <$> ebh values alpha) ∧
    (∀ (lower upper : List 𝕜) (alpha : 𝕜) (rejected others : List Bool), List.Forall₂ (· ≤ ·) lower upper →
      ebh lower alpha = .ok rejected → ebh upper alpha = .ok others → List.Forall₂ (· ≤ ·) rejected others) ∧
    ∀ (values : List 𝕜) (alpha : 𝕜) (rejected : List Bool),
      (∀ value ∈ values, 0 < value ∧ 1 / value ∈ Set.Icc 0 1) → ebh values alpha = .ok rejected →
      benjaminiHochberg (values.map (1 / ·)) alpha = .ok rejected := by
  refine ⟨fun values alpha ↦ ?_, fun values alpha rejected h ↦ ?_, fun values alpha order h ↦ ebh_perm h alpha,
    fun lower upper alpha rejected others h ↦ ebh_mono h, fun values alpha rejected hvalues h ↦ ?_⟩
  · constructor
    · rintro ⟨rejected, h⟩
      obtain ⟨haccepted, -⟩ := ebh_eq_ok_iff.mp h
      exact ⟨haccepted.alpha_mem, haccepted.length_le, haccepted.values_mem⟩
    · rintro ⟨halpha, hlength, hvalues⟩
      exact ⟨_, Py.bind_eq_ok_iff.mpr ⟨(), checkValues_eq_ok_iff.mpr ⟨halpha, hlength, hvalues⟩, rfl⟩⟩
  · refine (ebh_eq_ok_iff.mp h).2.imp fun value flag hflag ↦ hflag.trans ?_
    refine exists_congr fun k ↦ and_congr Iff.rfl ?_
    rw [clears, decide_eq_true_eq]
  · obtain ⟨haccepted, hrejected⟩ := ebh_eq_ok_iff.mp h
    have hshares : ∀ p ∈ values.map (1 / ·), p ∈ Set.Icc 0 1 :=
      List.forall_mem_map.mpr fun value hvalue ↦ (hvalues value hvalue).2
    obtain ⟨keep, hkeep, hkept⟩ := benjaminiHochberg_eq ⟨haccepted.alpha_pos, haccepted.alpha_lt_one⟩ hshares
    rw [hkeep]
    rw [List.forall₂_map_left_iff] at hkept
    refine congrArg Except.ok (List.ext_getElem ?_ fun index hfirst hsecond ↦ ?_)
    · rw [← hkept.length_eq, hrejected.length_eq]
    · have hindex : index < values.length := hkept.length_eq ▸ hfirst
      have hsame := selected_one_div haccepted.alpha_pos (fun value hvalue ↦ (hvalues value hvalue).1)
        (List.getElem_mem hindex)
      exact Bool.eq_iff_iff.mpr ((hkept.get hindex hfirst).trans (hsame.trans (hrejected.get hindex hsecond).symm))

/-- Three values of which two reach the threshold 30, and the third one raised to 25. -/
theorem ebh_selects_thresholds_three :
    (List.Forall₂ (fun value flag ↦ flag = true ↔ ∃ k, IsGreatest (supported ([50, 2, 80] : List ℚ) (1 / 20)) k ∧
      3 / (1 / 20 * (k : ℚ)) ≤ value) [50, 2, 80] [true, false, true]) ∧
    ebh ([2, 80, 50] : List ℚ) (1 / 20) = .ok [false, true, true] ∧
    List.Forall₂ (· ≤ ·) [true, false, true] [true, true, true] ∧
    benjaminiHochberg ([1 / 50, 1 / 2, 1 / 80] : List ℚ) (1 / 20) = .ok [true, false, true] := by
  have hruns : ebh ([50, 2, 80] : List ℚ) (1 / 20) = .ok [true, false, true] ∧
      ebh ([50, 25, 80] : List ℚ) (1 / 20) = .ok [true, true, true] := by decide +kernel
  obtain ⟨-, hselects, hperm, hmono, hreciprocals⟩ := @ebh_selects_thresholds ℚ _ _ _ _
  refine ⟨hselects _ _ _ hruns.1, ?_, hmono [50, 2, 80] [50, 25, 80] _ _ _ ?_ hruns.1 hruns.2,
    hreciprocals [50, 2, 80] _ _ ?_ hruns.1⟩
  · have h := hperm [50, 2, 80] (1 / 20) [1, 2, 0] (by decide)
    rw [hruns.1] at h
    exact h
  · refine .cons le_rfl (.cons ?_ (.cons le_rfl .nil))
    norm_num
  · norm_num

end UniMem.EProcess
