import Mathlib

/-!
# Idempotent delivery to a log

Delivering again what an interrupted delivery has left in a log changes nothing, so a list whose delivery is
repeated from its beginning stands in the log once and in order.
-/

namespace UniMem.Library

variable {α κ : Type} [DecidableEq κ]

/-- Append an item to a log unless an item with its key is there. -/
def deliver (key : α → κ) (log : List α) (item : α) : List α :=
  if ∃ other ∈ log, key other = key item then log else log ++ [item]

variable {key : α → κ} {log items : List α} {item : α}

theorem deliver_of_mem (h : item ∈ log) : deliver key log item = log := if_pos ⟨item, h, rfl⟩

theorem deliver_of_fresh (h : ∀ other ∈ log, key other ≠ key item) :
    deliver key log item = log ++ [item] :=
  if_neg fun ⟨other, hother, heq⟩ ↦ h other hother heq

theorem foldl_deliver_of_subset (h : ∀ item ∈ items, item ∈ log) :
    items.foldl (deliver key) log = log := by
  induction items with
  | nil => rfl
  | cons item items ih =>
    rw [List.forall_mem_cons] at h
    rw [List.foldl_cons, deliver_of_mem h.1, ih h.2]

theorem foldl_deliver_of_nodup (h : ((log ++ items).map key).Nodup) :
    items.foldl (deliver key) log = log ++ items := by
  induction items generalizing log with
  | nil => rw [List.foldl_nil, List.append_nil]
  | cons item items ih =>
    have hfresh : ∀ other ∈ log, key other ≠ key item := by
      rw [List.map_append, List.nodup_append] at h
      intro other hother
      exact h.2.2 _ (List.mem_map_of_mem hother) _ (List.mem_map_of_mem List.mem_cons_self)
    rw [List.foldl_cons, deliver_of_fresh hfresh, ih (by rwa [List.append_assoc]), List.append_assoc,
      List.singleton_append]

theorem foldl_deliver_take (h : ((log ++ items).map key).Nodup) (left again : ℕ) :
    (items.take again).foldl (deliver key) (log ++ items.take left) = log ++ items.take (max left again) := by
  obtain hle | hlt := le_or_gt again left
  · rw [max_eq_left hle]
    apply foldl_deliver_of_subset
    intro item hitem
    exact List.mem_append_right _ ((List.take_subset_take_left items hle) hitem)
  · rw [max_eq_right hlt.le]
    have hsplit : items.take again = items.take left ++ (items.take again).drop left := by
      conv_lhs => rw [← List.take_append_drop left (items.take again)]
      rw [List.take_take, min_eq_left hlt.le]
    rw [hsplit, List.foldl_append, foldl_deliver_of_subset
      (fun item hitem ↦ List.mem_append_right _ hitem), foldl_deliver_of_nodup, List.append_assoc]
    rw [List.append_assoc, ← hsplit]
    refine h.sublist (List.Sublist.map key (List.Sublist.append_left ?_ log))
    exact List.take_sublist _ _

end UniMem.Library
