import Mathlib

/-!
# Grouping a list by a key

A dictionary of lists is filled from a list: the groups of a key are its values in their order, and a dictionary
that keeps one value for each key holds the last one.
-/

namespace UniMem.Library

variable {α β κ : Type}

section Group

variable [DecidableEq κ]

/-- Add a value to the group of its key. -/
def insertGroup (key : κ) (value : α) : List (κ × List α) → List (κ × List α)
  | [] => [(key, [value])]
  | (other, values) :: groups =>
    if other = key then (other, values ++ [value]) :: groups
    else (other, values) :: insertGroup key value groups

/-- The groups of a list, in the order in which their keys appear. -/
def group (key : α → κ) (values : List α) : List (κ × List α) :=
  values.foldl (fun groups value ↦ insertGroup (key value) value groups) []

theorem group_append_singleton (key : α → κ) (values : List α) (value : α) :
    group key (values ++ [value]) = insertGroup (key value) value (group key values) := by
  rw [group, List.foldl_append]
  rfl

theorem map_fst_insertGroup (key : κ) (value : α) (groups : List (κ × List α)) :
    (insertGroup key value groups).map Prod.fst =
      if key ∈ groups.map Prod.fst then groups.map Prod.fst else groups.map Prod.fst ++ [key] := by
  induction groups with
  | nil => rfl
  | cons first groups ih =>
    rw [insertGroup]
    rcases eq_or_ne first.1 key with heq | hne
    · simp [heq]
    · rw [if_neg hne, List.map_cons, ih]
      split_ifs with hmem hall hall
      · rfl
      · exact absurd (List.mem_cons_of_mem _ hmem) hall
      · exact absurd ((List.mem_cons.mp hall).resolve_left hne.symm) hmem
      · rfl

theorem nodup_map_fst_group (key : α → κ) (values : List α) :
    ((group key values).map Prod.fst).Nodup := by
  induction values using List.reverseRecOn with
  | nil => exact List.nodup_nil
  | append_singleton values value ih =>
    rw [group_append_singleton, map_fst_insertGroup]
    split_ifs with hmem
    · exact ih
    · rw [← List.concat_eq_append]
      exact ih.concat hmem

theorem lookup_insertGroup (key other : κ) (value : α) (groups : List (κ × List α)) :
    (insertGroup key value groups).lookup other =
      if other = key then some ((groups.lookup key).getD [] ++ [value]) else groups.lookup other := by
  induction groups with
  | nil =>
    rcases eq_or_ne other key with rfl | hne
    · simp [insertGroup]
    · simp [insertGroup, hne, List.lookup_cons, beq_eq_false_iff_ne.mpr hne]
  | cons first groups ih =>
    rw [insertGroup]
    rcases eq_or_ne first.1 key with heq | hne
    · subst heq
      rw [if_pos rfl, List.lookup_cons, List.lookup_cons, List.lookup_cons, beq_self_eq_true]
      rcases eq_or_ne other first.1 with rfl | hother
      · simp
      · rw [beq_eq_false_iff_ne.mpr hother, if_neg hother]
    · rw [if_neg hne, List.lookup_cons, List.lookup_cons, List.lookup_cons, ih, beq_eq_false_iff_ne.mpr hne.symm]
      rcases eq_or_ne other first.1 with rfl | hother
      · simp [hne]
      · simp [beq_eq_false_iff_ne.mpr hother]

theorem lookup_group (key : α → κ) (values : List α) (wanted : κ) :
    (group key values).lookup wanted =
      if wanted ∈ values.map key then some (values.filter fun value ↦ key value = wanted) else none := by
  induction values using List.reverseRecOn with
  | nil => rfl
  | append_singleton values value ih =>
    rw [group_append_singleton, lookup_insertGroup]
    rcases eq_or_ne wanted (key value) with rfl | hne
    · rw [if_pos rfl, if_pos (by simp), ih, List.filter_append]
      congr 2
      · split_ifs with hmem
        · rfl
        · rw [eq_comm, Option.getD_none, List.filter_eq_nil_iff]
          intro other hother heq
          exact hmem (List.mem_map.mpr ⟨other, hother, of_decide_eq_true heq⟩)
      · simp
    · rw [if_neg hne, ih, List.filter_append]
      simp [hne, hne.symm]

variable {entries : List (κ × β)} {key : α → κ} {values : List α} {wanted : κ} {value : α}

theorem lookup_eq_some_iff_mem (hnodup : (entries.map Prod.fst).Nodup) {key : κ} {value : β} :
    entries.lookup key = some value ↔ (key, value) ∈ entries := by
  induction entries with
  | nil => simp
  | cons first entries ih =>
    rw [List.map_cons, List.nodup_cons] at hnodup
    rw [List.lookup_cons, List.mem_cons]
    rcases eq_or_ne key first.1 with rfl | hne
    · rw [beq_self_eq_true, Option.some.injEq]
      constructor
      · rintro rfl
        exact Or.inl rfl
      · rintro (heq | hmem)
        · rw [← heq]
        · exact absurd (List.mem_map.mpr ⟨_, hmem, rfl⟩) hnodup.1
    · rw [beq_eq_false_iff_ne.mpr hne, ih hnodup.2]
      constructor
      · exact Or.inr
      · rintro (heq | hmem)
        · exact absurd (congrArg Prod.fst heq) hne
        · exact hmem

theorem mem_group_iff (key : α → κ) (values : List α) (wanted : κ) (members : List α) :
    (wanted, members) ∈ group key values ↔
      wanted ∈ values.map key ∧ members = values.filter fun value ↦ key value = wanted := by
  rw [← lookup_eq_some_iff_mem (nodup_map_fst_group key values), lookup_group]
  split_ifs with hmem
  · simp [hmem, eq_comm]
  · simp [hmem]

theorem mem_map_fst_group (key : α → κ) (values : List α) (wanted : κ) :
    wanted ∈ (group key values).map Prod.fst ↔ wanted ∈ values.map key := by
  constructor
  · intro h
    obtain ⟨entry, hentry, rfl⟩ := List.mem_map.mp h
    exact ((mem_group_iff key values entry.1 entry.2).mp hentry).1
  · intro h
    exact List.mem_map.mpr ⟨_, (mem_group_iff key values wanted _).mpr ⟨h, rfl⟩, rfl⟩

theorem ne_nil_of_mem_group {entry : κ × List α} (h : entry ∈ group key values) : entry.2 ≠ [] := by
  obtain ⟨hmem, hmembers⟩ := (mem_group_iff key values entry.1 entry.2).mp h
  obtain ⟨value, hvalue, heq⟩ := List.mem_map.mp hmem
  rw [hmembers]
  exact List.ne_nil_of_mem (List.mem_filter.mpr ⟨hvalue, decide_eq_true heq⟩)

/-- A dictionary with one value for each key: the last value at the place of the first. -/
def index (key : α → κ) (values : List α) : List (κ × α) :=
  (group key values).filterMap fun entry ↦ entry.2.getLast?.map fun value ↦ (entry.1, value)

theorem lookup_filterMap_last (entries : List (κ × List α)) (hne : ∀ entry ∈ entries, entry.2 ≠ []) (wanted : κ) :
    (entries.filterMap fun entry ↦ entry.2.getLast?.map fun value ↦ (entry.1, value)).lookup wanted =
      (entries.lookup wanted).bind List.getLast? := by
  induction entries with
  | nil => rfl
  | cons first entries ih =>
    obtain ⟨key, members⟩ := first
    have hlast := List.getLast?_eq_some_getLast (hne _ List.mem_cons_self)
    have hrest := ih fun entry hentry ↦ hne entry (List.mem_cons_of_mem _ hentry)
    simp only at hlast
    rw [List.filterMap_cons, hlast, Option.map_some]
    simp only [List.lookup_cons, hrest]
    cases wanted == key with
    | true => exact hlast.symm
    | false => rfl

theorem lookup_index (key : α → κ) (values : List α) (wanted : κ) :
    (index key values).lookup wanted = (values.filter fun value ↦ key value = wanted).getLast? := by
  rw [index, lookup_filterMap_last _ fun entry ↦ ne_nil_of_mem_group, lookup_group]
  split_ifs with hmem
  · rfl
  · rw [Option.bind_none, eq_comm, List.getLast?_eq_none_iff, List.filter_eq_nil_iff]
    intro value hvalue heq
    exact hmem (List.mem_map.mpr ⟨value, hvalue, of_decide_eq_true heq⟩)

theorem mem_index {entry : κ × α} (h : entry ∈ index key values) :
    entry.2 ∈ values ∧ key entry.2 = entry.1 := by
  obtain ⟨group, hgroup, hentry⟩ := List.mem_filterMap.mp h
  obtain ⟨value, hlast, rfl⟩ := Option.map_eq_some_iff.mp hentry
  have hmem := List.mem_of_getLast? hlast
  rw [((mem_group_iff key values group.1 group.2).mp hgroup).2, List.mem_filter, decide_eq_true_eq] at hmem
  exact hmem

theorem map_key_index (key : α → κ) (values : List α) :
    ((index key values).map Prod.snd).map key = (index key values).map Prod.fst := by
  rw [List.map_map]
  apply List.map_congr_left
  intro entry hentry
  exact (mem_index hentry).2

theorem nodup_map_fst_index (key : α → κ) (values : List α) :
    ((index key values).map Prod.fst).Nodup := by
  refine (nodup_map_fst_group key values).sublist ?_
  rw [index, List.map_filterMap]
  have hsublist : ∀ groups : List (κ × List α),
      (groups.filterMap fun entry ↦
        (entry.2.getLast?.map fun value ↦ (entry.1, value)).map Prod.fst).Sublist
        (groups.map Prod.fst) := by
    intro groups
    induction groups with
    | nil => exact List.Sublist.slnil
    | cons group groups ih =>
      rw [List.filterMap_cons, List.map_cons]
      cases group.2.getLast? with
      | none => exact ih.cons _
      | some value => exact ih.cons_cons _
  exact hsublist _

theorem mem_map_fst_index :
    wanted ∈ (index key values).map Prod.fst ↔ wanted ∈ values.map key := by
  constructor
  · intro h
    obtain ⟨entry, hentry, rfl⟩ := List.mem_map.mp h
    exact List.mem_map.mpr ⟨entry.2, mem_index hentry⟩
  · intro h
    have hgroup := (mem_map_fst_group key values wanted).mpr h
    obtain ⟨entry, hentry, rfl⟩ := List.mem_map.mp hgroup
    obtain ⟨last, hlast⟩ := Option.isSome_iff_exists.mp (List.getLast?_isSome.mpr (ne_nil_of_mem_group hentry))
    refine List.mem_map.mpr ⟨(entry.1, last), List.mem_filterMap.mpr ⟨entry, hentry, ?_⟩, rfl⟩
    rw [hlast, Option.map_some]

theorem mem_index_of_unique (h : value ∈ values)
    (hunique : ∀ other ∈ values, key other = key value → other = value) :
    (key value, value) ∈ index key values := by
  rw [← lookup_eq_some_iff_mem (nodup_map_fst_index key values), lookup_index]
  have hmem : value ∈ values.filter fun other ↦ key other = key value :=
    List.mem_filter.mpr ⟨h, decide_eq_true rfl⟩
  obtain ⟨last, hlast⟩ := Option.isSome_iff_exists.mp
    (List.getLast?_isSome.mpr (List.ne_nil_of_mem hmem))
  have hlastMem := List.mem_of_getLast? hlast
  rw [List.mem_filter, decide_eq_true_eq] at hlastMem
  rw [hlast, hunique last hlastMem.1 hlastMem.2]

theorem insertGroup_of_notMem {key : κ} {groups : List (κ × List α)} (h : key ∉ groups.map Prod.fst) (value : α) :
    insertGroup key value groups = groups ++ [(key, [value])] := by
  induction groups with
  | nil => rfl
  | cons first groups ih =>
    rw [List.map_cons, List.mem_cons, not_or] at h
    rw [insertGroup, if_neg (Ne.symm h.1), ih h.2, List.cons_append]

theorem group_of_nodup (h : (values.map key).Nodup) :
    group key values = values.map fun value ↦ (key value, [value]) := by
  induction values using List.reverseRecOn with
  | nil => rfl
  | append_singleton values value ih =>
    rw [List.map_append, List.map_singleton, ← List.concat_eq_append, List.nodup_concat] at h
    have hkey : key value ∉ (group key values).map Prod.fst := by
      rw [mem_map_fst_group]
      exact h.1
    rw [group_append_singleton, insertGroup_of_notMem hkey, ih h.2, List.map_append, List.map_singleton]

theorem index_eq_map (h : (values.map key).Nodup) :
    index key values = values.map fun value ↦ (key value, value) := by
  rw [index, group_of_nodup h, List.filterMap_map]
  exact congrFun List.filterMap_eq_map values

theorem index_of_nodup (h : (values.map key).Nodup) :
    (index key values).map Prod.snd = values := by
  rw [index, group_of_nodup h, List.filterMap_map, List.map_filterMap]
  simp

theorem lookup_perm {first second : List (κ × β)} (h : first.Perm second)
    (hnodup : (first.map Prod.fst).Nodup) (wanted : κ) :
    first.lookup wanted = second.lookup wanted := by
  have hnodup' : (second.map Prod.fst).Nodup := (h.map Prod.fst).nodup_iff.mp hnodup
  ext value
  rw [lookup_eq_some_iff_mem hnodup, lookup_eq_some_iff_mem hnodup']
  exact h.mem_iff

/-- A dictionary with one key set. -/
def assign (key : κ) (value : β) : List (κ × β) → List (κ × β)
  | [] => [(key, value)]
  | (other, old) :: entries =>
    if other = key then (key, value) :: entries else (other, old) :: assign key value entries

theorem lookup_assign (key wanted : κ) (value : β) (entries : List (κ × β)) :
    (assign key value entries).lookup wanted = if wanted = key then some value else entries.lookup wanted := by
  induction entries with
  | nil =>
    by_cases hwanted : wanted = key
    · simp [assign, hwanted]
    · rw [assign, List.lookup_cons, beq_eq_false_iff_ne.mpr hwanted, if_neg hwanted]
  | cons entry entries ih =>
    obtain ⟨other, old⟩ := entry
    rw [assign]
    by_cases hother : other = key
    · subst hother
      by_cases hwanted : wanted = other
      · simp [hwanted]
      · rw [if_pos rfl, List.lookup_cons, List.lookup_cons, beq_eq_false_iff_ne.mpr hwanted, if_neg hwanted]
    · rw [if_neg hother, List.lookup_cons, ih, List.lookup_cons]
      by_cases hwanted : wanted = other
      · subst hwanted
        simp [hother]
      · rw [beq_eq_false_iff_ne.mpr hwanted]

theorem lookup_filter_fst (keep : κ → Bool) (wanted : κ) (entries : List (κ × β)) :
    (entries.filter fun entry ↦ keep entry.1).lookup wanted =
      if keep wanted then entries.lookup wanted else none := by
  induction entries with
  | nil => simp
  | cons entry entries ih =>
    obtain ⟨other, value⟩ := entry
    by_cases hwanted : wanted = other
    · subst hwanted
      cases hkeep : keep wanted with
      | true => simp [hkeep]
      | false =>
        rw [hkeep] at ih
        rw [List.filter_cons_of_neg (by simp [hkeep]), ih]
        rfl
    · have hrest : ((other, value) :: entries).lookup wanted = entries.lookup wanted := by
        rw [List.lookup_cons, beq_eq_false_iff_ne.mpr hwanted]
      rw [hrest, ← ih]
      cases hkeep : keep other with
      | true =>
        rw [List.filter_cons_of_pos (by simp [hkeep]), List.lookup_cons, beq_eq_false_iff_ne.mpr hwanted]
      | false => rw [List.filter_cons_of_neg (by simp [hkeep])]

/-- A dictionary without one key. -/
def discard (key : κ) (entries : List (κ × β)) : List (κ × β) := entries.filter (·.1 ≠ key)

theorem lookup_discard (key wanted : κ) (entries : List (κ × β)) :
    (discard key entries).lookup wanted = if wanted = key then none else entries.lookup wanted := by
  unfold discard
  rw [lookup_filter_fst (fun other ↦ decide (other ≠ key))]
  by_cases hwanted : wanted = key
  · simp [hwanted]
  · simp [hwanted]

theorem discard_sublist (key : κ) (entries : List (κ × β)) : (discard key entries).Sublist entries :=
  List.filter_sublist

theorem notMem_discard (key : κ) (entries : List (κ × β)) : key ∉ (discard key entries).map Prod.fst := by
  intro hmem
  obtain ⟨entry, hentry, rfl⟩ := List.mem_map.mp hmem
  exact of_decide_eq_true (List.mem_filter.mp hentry).2 rfl

theorem assign_of_notMem {key : κ} (h : key ∉ entries.map Prod.fst) (value : β) :
    assign key value entries = entries ++ [(key, value)] := by
  induction entries with
  | nil => rfl
  | cons entry entries ih =>
    rw [List.map_cons, List.mem_cons, not_or] at h
    rw [assign, if_neg (Ne.symm h.1), ih h.2, List.cons_append]

/-- A dictionary with the value of one key changed. -/
def adjust (key : κ) (change : β → β) (entries : List (κ × β)) : List (κ × β) :=
  entries.map fun entry ↦ if entry.1 = key then (entry.1, change entry.2) else entry

theorem map_fst_adjust (key : κ) (change : β → β) (entries : List (κ × β)) :
    (adjust key change entries).map Prod.fst = entries.map Prod.fst := by
  rw [adjust, List.map_map]
  refine List.map_congr_left fun entry _ ↦ ?_
  dsimp only [Function.comp_apply]
  split_ifs
  · rfl
  · rfl

theorem lookup_adjust (key wanted : κ) (change : β → β) (entries : List (κ × β)) :
    (adjust key change entries).lookup wanted =
      if wanted = key then (entries.lookup key).map change else entries.lookup wanted := by
  rw [adjust]
  induction entries with
  | nil => simp
  | cons entry entries ih =>
    obtain ⟨own, value⟩ := entry
    rw [List.map_cons]
    by_cases hown : own = key
    · subst hown
      rw [if_pos rfl, List.lookup_cons, ih, List.lookup_cons, List.lookup_cons]
      by_cases hwanted : wanted = own
      · simp [hwanted]
      · simp [hwanted, beq_eq_false_iff_ne.mpr hwanted]
    · rw [if_neg hown, List.lookup_cons, ih, List.lookup_cons, List.lookup_cons,
        beq_eq_false_iff_ne.mpr (Ne.symm hown)]
      by_cases hwanted : wanted = own
      · subst hwanted
        simp [hown]
      · simp [beq_eq_false_iff_ne.mpr hwanted]

theorem adjust_of_notMem {key : κ} (h : key ∉ entries.map Prod.fst) (change : β → β) :
    adjust key change entries = entries := by
  unfold adjust
  conv_rhs => rw [← List.map_id entries]
  refine List.map_congr_left fun entry hentry ↦ if_neg fun heq ↦ ?_
  exact h (List.mem_map.mpr ⟨entry, hentry, heq⟩)

theorem adjust_append (key : κ) (change : β → β) (first second : List (κ × β)) :
    adjust key change (first ++ second) = adjust key change first ++ adjust key change second := List.map_append

theorem lookup_sublist {part whole : List (κ × β)} (h : part.Sublist whole) (hnodup : (whole.map Prod.fst).Nodup)
    (wanted : κ) : part.lookup wanted = none ∨ part.lookup wanted = whole.lookup wanted := by
  cases hpart : part.lookup wanted with
  | none => exact .inl rfl
  | some value =>
    have hpairs : (part.map Prod.fst).Nodup := hnodup.sublist (h.map Prod.fst)
    have hmem : (wanted, value) ∈ whole := h.subset ((lookup_eq_some_iff_mem hpairs).mp hpart)
    exact .inr ((lookup_eq_some_iff_mem hnodup).mpr hmem).symm

theorem notMem_of_lookup_eq_none (h : entries.lookup wanted = none) :
    wanted ∉ entries.map Prod.fst := by
  intro hmem
  obtain ⟨entry, hentry, rfl⟩ := List.mem_map.mp hmem
  rw [List.lookup_eq_none_iff] at h
  exact absurd (h entry hentry) (by simp)

/-- The last value of a key. -/
def lastWith (key : α → κ) (values : List α) (wanted : κ) : Option α :=
  (values.filter fun value ↦ key value = wanted).getLast?

theorem lastWith_append (key : α → κ) (first second : List α) (wanted : κ) :
    lastWith key (first ++ second) wanted = (lastWith key second wanted).or (lastWith key first wanted) := by
  rw [lastWith, List.filter_append, List.getLast?_append]
  rfl

theorem key_of_lastWith (h : lastWith key values wanted = some value) : value ∈ values ∧ key value = wanted := by
  obtain ⟨hmem, hkey⟩ := List.mem_filter.mp (List.mem_of_getLast? h)
  exact ⟨hmem, of_decide_eq_true hkey⟩

theorem exists_append_of_lastWith (h : lastWith key values wanted = some value) :
    ∃ before after, values = before ++ value :: after ∧ ∀ other ∈ after, key other ≠ wanted := by
  induction values using List.reverseRecOn with
  | nil => cases h
  | append_singleton values last ih =>
    rw [lastWith_append] at h
    by_cases hlast : key last = wanted
    · obtain rfl : last = value := by simpa [lastWith, hlast] using h
      exact ⟨values, [], rfl, by simp⟩
    · have hrest : lastWith key values wanted = some value := by simpa [lastWith, hlast] using h
      obtain ⟨before, after, rfl, hafter⟩ := ih hrest
      refine ⟨before, after ++ [last], by simp, ?_⟩
      intro other hother
      obtain hother | hother := List.mem_append.mp hother
      · exact hafter other hother
      · rwa [List.mem_singleton.mp hother]

theorem lastWith_eq_some_iff (h : (values.map key).Nodup) :
    lastWith key values wanted = some value ↔ value ∈ values ∧ key value = wanted := by
  constructor
  · exact key_of_lastWith
  · rintro ⟨hmem, rfl⟩
    cases hlast : lastWith key values (key value) with
    | none =>
      have hnil := List.getLast?_eq_none_iff.mp hlast
      exact absurd (List.mem_filter.mpr ⟨hmem, decide_eq_true rfl⟩) (hnil ▸ List.not_mem_nil)
    | some last =>
      obtain ⟨hlastMem, hkey⟩ := key_of_lastWith hlast
      rw [List.inj_on_of_nodup_map h hlastMem hmem hkey]

theorem mem_values_index :
    value ∈ (index key values).map Prod.snd ↔ lastWith key values (key value) = some value := by
  rw [lastWith, ← lookup_index]
  constructor
  · intro h
    obtain ⟨⟨wanted, other⟩, hentry, rfl⟩ := List.mem_map.mp h
    obtain rfl : key other = wanted := (mem_index hentry).2
    exact (lookup_eq_some_iff_mem (nodup_map_fst_index key values)).mpr hentry
  · intro h
    have hentry := (lookup_eq_some_iff_mem (nodup_map_fst_index key values)).mp h
    exact List.mem_map.mpr ⟨_, hentry, rfl⟩

theorem nodup_map_key_values (key : α → κ) (values : List α) :
    (((index key values).map Prod.snd).map key).Nodup := by
  rw [map_key_index]
  exact nodup_map_fst_index key values

end Group

variable {γ : Type} {relation : α → β → Prop} {first second : List α}

theorem forall₂_of_map_eq {left : α → γ} {right : β → γ} {second : List β}
    (hmap : first.map left = second.map right) (h : ∀ a ∈ first, ∀ b ∈ second, left a = right b → relation a b) :
    List.Forall₂ relation first second := by
  induction first generalizing second with
  | nil =>
    cases second with
    | nil => exact List.Forall₂.nil
    | cons value second => cases hmap
  | cons head first ih =>
    cases second with
    | nil => cases hmap
    | cons value second =>
      rw [List.map_cons, List.map_cons, List.cons.injEq] at hmap
      refine List.Forall₂.cons (h _ List.mem_cons_self _ List.mem_cons_self hmap.1) (ih hmap.2 ?_)
      intro a ha b hb
      exact h a (List.mem_cons_of_mem _ ha) b (List.mem_cons_of_mem _ hb)

theorem forall₂_imp_of_mem {relation result : α → γ → Prop} {second : List γ}
    (h : List.Forall₂ relation first second) (himp : ∀ a ∈ first, ∀ b ∈ second, relation a b → result a b) :
    List.Forall₂ result first second := by
  induction h with
  | nil => exact List.Forall₂.nil
  | cons hab _ ih =>
    refine List.Forall₂.cons (himp _ List.mem_cons_self _ List.mem_cons_self hab) (ih ?_)
    intro a ha b hb
    exact himp a (List.mem_cons_of_mem _ ha) b (List.mem_cons_of_mem _ hb)

theorem exists_of_mem_forall₂ {second : List β} (h : List.Forall₂ relation first second) {value : α}
    (hmem : value ∈ first) :
    ∃ result ∈ second, relation value result := by
  induction h with
  | nil => cases hmem
  | cons hhead _ ih =>
    obtain rfl | hrest := List.mem_cons.mp hmem
    · exact ⟨_, List.mem_cons_self, hhead⟩
    · obtain ⟨result, hresult, hrelation⟩ := ih hrest
      exact ⟨result, List.mem_cons_of_mem _ hresult, hrelation⟩

variable [LinearOrder κ]

/-- Sort a list by a key. -/
def sortBy (key : α → κ) (values : List α) : List α :=
  values.insertionSort fun a b ↦ key a ≤ key b

theorem mem_sortBy {key : α → κ} {values : List α} {value : α} :
    value ∈ sortBy key values ↔ value ∈ values := List.mem_insertionSort _

theorem sortBy_perm (key : α → κ) (values : List α) : (sortBy key values).Perm values :=
  List.perm_insertionSort _ _

theorem sortBy_map (key : β → κ) (change : α → β) (values : List α) :
    sortBy key (values.map change) = (sortBy (fun value ↦ key (change value)) values).map change := by
  unfold sortBy
  exact (List.map_insertionSort (fun a b ↦ key (change a) ≤ key (change b)) (fun a b ↦ key a ≤ key b)
    change values fun _ _ _ _ ↦ Iff.rfl).symm

theorem sorted_map_sortBy (key : α → κ) (values : List α) :
    ((sortBy key values).map key).Pairwise (· ≤ ·) := by
  rw [List.pairwise_map]
  have htotal : Std.Total fun a b : α ↦ key a ≤ key b := ⟨fun a b ↦ le_total (key a) (key b)⟩
  have htrans : IsTrans α fun a b ↦ key a ≤ key b := ⟨fun _ _ _ ↦ le_trans⟩
  exact List.pairwise_insertionSort _ _

theorem map_sortBy_eq {key : α → κ} (h : (first.map key).Perm (second.map key)) :
    (sortBy key first).map key = (sortBy key second).map key := by
  have hperm : ((sortBy key first).map key).Perm ((sortBy key second).map key) :=
    ((sortBy_perm key first).map key).trans (h.trans ((sortBy_perm key second).map key).symm)
  exact hperm.eq_of_pairwise' (sorted_map_sortBy key first) (sorted_map_sortBy key second)

theorem sortBy_eq_of_perm {key : α → κ} (h : first.Perm second)
    (hinjective : ∀ a ∈ second, ∀ b ∈ second, key a = key b → a = b) :
    sortBy key first = sortBy key second := by
  have hforall : List.Forall₂ (· = ·) (sortBy key first) (sortBy key second) := by
    apply forall₂_of_map_eq (map_sortBy_eq (h.map key))
    intro a ha b hb
    exact hinjective a (h.mem_iff.mp (mem_sortBy.mp ha)) b (mem_sortBy.mp hb)
  exact List.forall₂_eq_eq_eq ▸ hforall

theorem sortBy_index_congr {ι : Type} [DecidableEq ι] {key : α → ι} {order : α → κ}
    (h : ∀ wanted, lastWith key first wanted = lastWith key second wanted)
    (horder : ∀ a b, order a = order b → key a = key b) :
    sortBy order ((index key first).map Prod.snd) = sortBy order ((index key second).map Prod.snd) := by
  have hnodup := nodup_map_key_values key second
  apply sortBy_eq_of_perm
  · rw [List.perm_ext_iff_of_nodup (nodup_map_key_values key first).of_map hnodup.of_map]
    intro value
    rw [mem_values_index, mem_values_index, h]
  · intro a ha b hb heq
    exact List.inj_on_of_nodup_map hnodup ha hb (horder a b heq)

/-- The groups of a list, sorted by their keys. -/
def sortedGroups (key : α → κ) (values : List α) : List (κ × List α) :=
  sortBy Prod.fst (group key values)

theorem mem_sortedGroups_iff (key : α → κ) (values : List α) (wanted : κ) (members : List α) :
    (wanted, members) ∈ sortedGroups key values ↔
      wanted ∈ values.map key ∧ members = values.filter fun value ↦ key value = wanted := by
  rw [sortedGroups, mem_sortBy, mem_group_iff]

theorem sortedGroups_perm (key : α → κ) (h : first.Perm second) :
    List.Forall₂ (fun a b ↦ a.1 = b.1 ∧ a.2.Perm b.2) (sortedGroups key first) (sortedGroups key second) := by
  have hkeys : ((group key first).map Prod.fst).Perm ((group key second).map Prod.fst) := by
    rw [List.perm_ext_iff_of_nodup (nodup_map_fst_group key first) (nodup_map_fst_group key second)]
    intro wanted
    rw [mem_map_fst_group, mem_map_fst_group]
    exact (h.map key).mem_iff
  apply forall₂_of_map_eq (map_sortBy_eq hkeys)
  rintro ⟨a, members⟩ ha ⟨b, others⟩ hb (rfl : a = b)
  rw [(mem_group_iff key first a members).mp (mem_sortBy.mp ha) |>.2,
    (mem_group_iff key second a others).mp (mem_sortBy.mp hb) |>.2]
  exact ⟨rfl, h.filter _⟩

theorem foldl_min_le {β : Type} [LinearOrder β] (values : List β) (start : β) :
    values.foldl min start ≤ start ∧ ∀ value ∈ values, values.foldl min start ≤ value := by
  induction values generalizing start with
  | nil => exact ⟨le_rfl, by simp⟩
  | cons value values ih =>
    obtain ⟨hstart, hmem⟩ := ih (min start value)
    rw [List.foldl_cons, List.forall_mem_cons]
    exact ⟨hstart.trans (min_le_left _ _), hstart.trans (min_le_right _ _), hmem⟩

end UniMem.Library
