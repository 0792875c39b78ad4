import UniMem.Library.Grouping

/-!
# Sums over dictionaries

The sum of a measure over the values of a dictionary, and how setting and removing a key change it. A total
that is kept beside a dictionary stays equal to the sum when it changes in the same way.
-/

namespace UniMem.Library

variable {κ β M : Type} [DecidableEq κ] [AddCommGroup M]

/-- The sum of a measure over the values of a dictionary. -/
def total (measure : β → M) (entries : List (κ × β)) : M := (entries.map fun entry ↦ measure entry.2).sum

omit [DecidableEq κ] in
@[simp]
theorem total_nil (measure : β → M) : total measure ([] : List (κ × β)) = 0 := rfl

omit [DecidableEq κ] in
@[simp]
theorem total_cons (measure : β → M) (entry : κ × β) (entries : List (κ × β)) :
    total measure (entry :: entries) = measure entry.2 + total measure entries := by
  rw [total, List.map_cons, List.sum_cons, total]

theorem total_assign (measure : β → M) (key : κ) (value : β) (entries : List (κ × β)) :
    total measure (assign key value entries) =
      total measure entries + (measure value - ((entries.lookup key).map measure).getD 0) := by
  induction entries with
  | nil => simp [assign]
  | cons entry entries ih =>
    obtain ⟨other, old⟩ := entry
    rw [assign]
    by_cases hkey : other = key
    · subst hkey
      rw [if_pos rfl, List.lookup_cons_self, total_cons, total_cons, Option.map_some, Option.getD_some]
      abel
    · rw [if_neg hkey, total_cons, ih, total_cons, List.lookup_cons, beq_eq_false_iff_ne.mpr (Ne.symm hkey),
        add_assoc]

theorem map_fst_assign (key : κ) (value : β) (entries : List (κ × β)) :
    (assign key value entries).map Prod.fst =
      if key ∈ entries.map Prod.fst then entries.map Prod.fst else entries.map Prod.fst ++ [key] := by
  induction entries with
  | nil => rfl
  | cons entry entries ih =>
    obtain ⟨other, old⟩ := entry
    rw [assign]
    by_cases hkey : other = key
    · simp [hkey]
    · rw [if_neg hkey, List.map_cons, ih]
      by_cases hmem : key ∈ entries.map Prod.fst
      · have hin : key ∈ ((other, old) :: entries).map Prod.fst := List.mem_cons_of_mem _ hmem
        rw [if_pos hmem, if_pos hin, List.map_cons]
      · have hnot : key ∉ ((other, old) :: entries).map Prod.fst := fun h ↦
          (List.mem_cons.mp h).elim (fun heq ↦ hkey heq.symm) hmem
        rw [if_neg hmem, if_neg hnot, List.map_cons, List.cons_append]

variable {key : κ} {value : β} {entries : List (κ × β)}

theorem nodup_map_fst_assign (h : (entries.map Prod.fst).Nodup) :
    ((assign key value entries).map Prod.fst).Nodup := by
  rw [map_fst_assign]
  split_ifs with hkey
  · exact h
  · exact List.nodup_append.mpr ⟨h, List.nodup_singleton key, fun other hother single hsingle heq ↦
      hkey ((heq.trans (List.mem_singleton.mp hsingle)) ▸ hother)⟩

theorem length_assign (key : κ) (value : β) (entries : List (κ × β)) :
    (assign key value entries).length =
      if (entries.lookup key).isSome then entries.length else entries.length + 1 := by
  induction entries with
  | nil => rfl
  | cons entry entries ih =>
    obtain ⟨other, old⟩ := entry
    rw [assign]
    by_cases hkey : other = key
    · simp [hkey]
    · rw [if_neg hkey, List.length_cons, ih, List.lookup_cons, beq_eq_false_iff_ne.mpr (Ne.symm hkey)]
      split_ifs <;> rfl

theorem eq_or_mem_of_mem_assign {entry : κ × β} (h : entry ∈ assign key value entries) :
    entry = (key, value) ∨ entry ∈ entries := by
  induction entries with
  | nil => exact .inl (List.mem_singleton.mp h)
  | cons first entries ih =>
    obtain ⟨other, old⟩ := first
    rw [assign] at h
    split_ifs at h with hkey
    · exact (List.mem_cons.mp h).imp_right (List.mem_cons_of_mem _)
    · rcases List.mem_cons.mp h with rfl | htail
      · exact .inr List.mem_cons_self
      · exact (ih htail).imp_right (List.mem_cons_of_mem _)

theorem total_discard (measure : β → M) (key : κ) (h : (entries.map Prod.fst).Nodup) :
    total measure (discard key entries) = total measure entries - ((entries.lookup key).map measure).getD 0 := by
  induction entries with
  | nil => simp [discard]
  | cons entry entries ih =>
    obtain ⟨other, old⟩ := entry
    obtain ⟨hnotMem, hnodup⟩ := List.nodup_cons.mp h
    have htail := ih hnodup
    unfold discard at htail ⊢
    by_cases hkey : other = key
    · subst hkey
      have hnone : entries.lookup other = none := List.lookup_eq_none_iff.mpr fun found hfound ↦
        bne_iff_ne.mpr fun heq ↦ hnotMem (List.mem_map.mpr ⟨found, hfound, heq.symm⟩)
      rw [hnone] at htail
      rw [List.filter_cons_of_neg (by simp), htail, List.lookup_cons_self, total_cons]
      simp
    · rw [List.filter_cons_of_pos (by simpa using hkey), total_cons, htail, total_cons, List.lookup_cons,
        beq_eq_false_iff_ne.mpr (Ne.symm hkey), add_sub_assoc]

omit [DecidableEq κ] in
theorem total_filter_add (measure : β → M) (test : κ × β → Bool) (entries : List (κ × β)) :
    total measure (entries.filter test) + total measure (entries.filter fun entry ↦ !test entry) =
      total measure entries := by
  induction entries with
  | nil => simp
  | cons entry entries ih =>
    cases htest : test entry with
    | true =>
      rw [List.filter_cons_of_pos htest, List.filter_cons_of_neg (by simp [htest]), total_cons, total_cons,
        add_assoc, ih]
    | false =>
      rw [List.filter_cons_of_neg (by simp [htest]), List.filter_cons_of_pos (by simp [htest]), total_cons,
        total_cons, add_left_comm, ih]

end UniMem.Library
