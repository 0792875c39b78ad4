import Mathlib

/-!
# Selection by cumulative weights, and weights that decay with the distance

`select` picks every position by as many tickets as its weight. Weights that decay with the distance to a center
change by a bounded factor when it moves, and so do their shares.
-/

namespace UniMem.Library.Tickets

/-- The position of the weight that a ticket falls into, from `start` on, or `fallback`. -/
def select (fallback : ℕ) : List ℕ → ℕ → ℕ → ℕ
  | [], _, _ => fallback
  | weight :: rest, start, ticket =>
    if ticket < weight then start else select fallback rest (start + 1) (ticket - weight)

/-- The tickets below the total that pick a position. -/
def picking (fallback : ℕ) (weights : List ℕ) (start position : ℕ) : Finset ℕ :=
  (Finset.range weights.sum).filter fun ticket ↦ select fallback weights start ticket = position

theorem le_select {fallback : ℕ} {weights : List ℕ} {start ticket : ℕ} (h : ticket < weights.sum) :
    start ≤ select fallback weights start ticket := by
  induction weights generalizing start ticket with
  | nil => exact absurd h (Nat.not_lt_zero _)
  | cons weight rest ih =>
    rw [List.sum_cons] at h
    by_cases hhead : ticket < weight
    · rw [select, if_pos hhead]
    · have hrest := @ih (start + 1) (ticket - weight) (by omega)
      rw [select, if_neg hhead]
      omega

theorem picking_cons_of_ne {fallback weight start position : ℕ} {rest : List ℕ} (h : position ≠ start) :
    picking fallback (weight :: rest) start position =
      (picking fallback rest (start + 1) position).map (addRightEmbedding weight) := by
  ext ticket
  simp only [picking, Finset.mem_filter, Finset.mem_range, Finset.mem_map, addRightEmbedding_apply, List.sum_cons]
  constructor
  · intro ⟨hticket, hselect⟩
    have hhead : ¬ticket < weight := by
      intro hlt
      rw [select, if_pos hlt] at hselect
      exact h hselect.symm
    rw [select, if_neg hhead] at hselect
    exact ⟨ticket - weight, ⟨by omega, hselect⟩, by omega⟩
  · intro ⟨moved, ⟨hmoved, hselect⟩, hticket⟩
    have hhead : ¬ticket < weight := by omega
    have hback : ticket - weight = moved := by omega
    exact ⟨by omega, by rw [select, if_neg hhead, hback, hselect]⟩

theorem picking_cons_self {fallback weight start : ℕ} {rest : List ℕ} :
    picking fallback (weight :: rest) start start = Finset.range weight := by
  ext ticket
  simp only [picking, Finset.mem_filter, Finset.mem_range, List.sum_cons]
  constructor
  · intro ⟨hticket, hselect⟩
    by_contra hhead
    rw [select, if_neg hhead] at hselect
    have hlater := @le_select fallback rest (start + 1) (ticket - weight) (by omega)
    omega
  · intro hticket
    exact ⟨by omega, if_pos hticket⟩

theorem card_picking (fallback : ℕ) (weights : List ℕ) (start index : ℕ) (h : index < weights.length) :
    (picking fallback weights start (start + index)).card = weights[index] := by
  induction weights generalizing start index with
  | nil => exact absurd h (Nat.not_lt_zero _)
  | cons weight rest ih =>
    cases index with
    | zero => rw [Nat.add_zero, picking_cons_self, Finset.card_range, List.getElem_cons_zero]
    | succ index =>
      have hindex : index < rest.length := by simpa using h
      have hstart : start + (index + 1) = start + 1 + index := by omega
      rw [picking_cons_of_ne (by omega), Finset.card_map, hstart, ih (start + 1) index hindex, List.getElem_cons_succ]

/-- `n ^ |index - center| * d ^ (maximum - |index - center|)`: a weight that decays by `n / d` a step. -/
def decaying (n d maximum center index : ℕ) : ℕ :=
  n ^ Nat.dist index center * d ^ (maximum - Nat.dist index center)

/-- The weights of all positions of a grid. -/
def grid (n d maximum center : ℕ) : List ℕ := (List.range (maximum + 1)).map (decaying n d maximum center)

variable {n d maximum center other steps : ℕ}

theorem decaying_pos (hn : 0 < n) (hd : 0 < d) (index : ℕ) : 0 < decaying n d maximum center index :=
  Nat.mul_pos (Nat.pow_pos hn) (Nat.pow_pos hd)

theorem decaying_mul_le (hle : n ≤ d) {index : ℕ} (hindex : index ≤ maximum) (hcenter : center ≤ maximum)
    (hother : other ≤ maximum) (hsteps : Nat.dist center other ≤ steps) :
    decaying n d maximum center index * n ^ steps ≤ decaying n d maximum other index * d ^ steps := by
  unfold decaying
  unfold Nat.dist at *
  generalize hfirst : index - center + (center - index) = first
  generalize hsecond : index - other + (other - index) = second
  have hfirst' : first ≤ maximum := by omega
  have hsecond' : second ≤ maximum := by omega
  have hnear : second ≤ first + steps := by omega
  obtain ⟨extra, hextra⟩ := Nat.exists_eq_add_of_le hnear
  have hpower : maximum - second + steps = maximum - first + extra := by omega
  calc
    _ = n ^ (first + steps) * d ^ (maximum - first) := by rw [Nat.pow_add]; ring
    _ = n ^ second * (n ^ extra * d ^ (maximum - first)) := by rw [hextra, Nat.pow_add]; ring
    _ ≤ n ^ second * (d ^ extra * d ^ (maximum - first)) := by gcongr
    _ = n ^ second * d ^ (maximum - second + steps) := by rw [hpower, Nat.pow_add, Nat.mul_comm (d ^ extra)]
    _ = _ := by rw [Nat.pow_add]; ring

theorem sum_grid_mul_le (hle : n ≤ d) (hcenter : center ≤ maximum) (hother : other ≤ maximum)
    (hsteps : Nat.dist center other ≤ steps) :
    (grid n d maximum center).sum * n ^ steps ≤ (grid n d maximum other).sum * d ^ steps := by
  unfold grid
  rw [← List.sum_map_mul_right, ← List.sum_map_mul_right]
  apply List.sum_le_sum
  intro index hindex
  rw [List.mem_range] at hindex
  exact decaying_mul_le hle (by omega) hcenter hother hsteps

theorem sum_grid_pos (hn : 0 < n) (hd : 0 < d) : 0 < (grid n d maximum center).sum := by
  have hmem : decaying n d maximum center 0 ∈ grid n d maximum center :=
    List.mem_map_of_mem (List.mem_range.mpr (Nat.succ_pos _))
  exact (decaying_pos hn hd 0).trans_le (List.single_le_sum (fun _ _ ↦ Nat.zero_le _) _ hmem)

theorem share_le (hn : 0 < n) (hle : n ≤ d) {index : ℕ} (hindex : index ≤ maximum) (hcenter : center ≤ maximum)
    (hother : other ≤ maximum) (hsteps : Nat.dist center other ≤ steps) :
    (decaying n d maximum center index : ℚ) / (grid n d maximum center).sum ≤ ((d : ℚ) / n) ^ (2 * steps) *
        ((decaying n d maximum other index : ℚ) / (grid n d maximum other).sum) := by
  have hd : 0 < d := hn.trans_le hle
  have hweight := decaying_mul_le hle hindex hcenter hother hsteps
  have htotal := sum_grid_mul_le hle hother hcenter ((Nat.dist_comm _ _).trans_le hsteps)
  have hcross := Nat.mul_le_mul hweight htotal
  have htotalPos : (0 : ℚ) < (grid n d maximum center).sum := by exact_mod_cast sum_grid_pos hn hd
  have hotherPos : (0 : ℚ) < (grid n d maximum other).sum := by exact_mod_cast sum_grid_pos hn hd
  have hnPos : (0 : ℚ) < (n : ℚ) ^ (2 * steps) := by positivity
  rw [div_pow, div_mul_div_comm, div_le_div_iff₀ htotalPos (mul_pos hnPos hotherPos)]
  have hcast : (decaying n d maximum center index : ℚ) * (n : ℚ) ^ steps *
      ((grid n d maximum other).sum * (n : ℚ) ^ steps) ≤
      (decaying n d maximum other index : ℚ) * (d : ℚ) ^ steps *
        ((grid n d maximum center).sum * (d : ℚ) ^ steps) := by exact_mod_cast hcross
  calc
    _ = (decaying n d maximum center index : ℚ) * (n : ℚ) ^ steps *
        ((grid n d maximum other).sum * (n : ℚ) ^ steps) := by rw [two_mul, pow_add]; ring
    _ ≤ _ := hcast
    _ = _ := by rw [two_mul, pow_add]; ring

theorem sum_beyond_mul_le (hle : n ≤ d) {tail : ℕ} (htail : tail ≤ maximum) (hcenter : center ≤ maximum) :
    ((∑ index ∈ (Finset.range (maximum + 1)).filter fun index ↦ tail < Nat.dist index center,
        decaying n d maximum center index : ℕ) : ℤ) * (d - n) ≤ 2 * (n ^ (tail + 1) * d ^ (maximum - tail)) := by
  let beyond := (Finset.range (maximum + 1)).filter fun index ↦ tail < Nat.dist index center
  let power (step : ℕ) : ℤ := n ^ (tail + 1) * (n ^ step * d ^ (maximum - tail - 1 - step))
  have hmaps : ∀ index ∈ beyond, Nat.dist index center - (tail + 1) ∈ Finset.range (maximum - tail) := by
    intro index hindex
    obtain ⟨hrange, hfar⟩ := Finset.mem_filter.mp hindex
    rw [Finset.mem_range] at hrange ⊢
    unfold Nat.dist at *
    omega
  have hfiber : ∀ step ∈ Finset.range (maximum - tail),
      ∑ index ∈ beyond with Nat.dist index center - (tail + 1) = step, (decaying n d maximum center index : ℤ) ≤
        2 * power step := by
    intro step hstep
    have hvalue : ∀ index ∈ beyond.filter (fun index ↦ Nat.dist index center - (tail + 1) = step),
        (decaying n d maximum center index : ℤ) = power step := by
      intro index hindex
      obtain ⟨hbeyond, rfl⟩ := Finset.mem_filter.mp hindex
      have hfar := (Finset.mem_filter.mp hbeyond).2
      have hfirst : tail + 1 + (Nat.dist index center - (tail + 1)) = Nat.dist index center := by omega
      have hsecond : maximum - tail - 1 - (Nat.dist index center - (tail + 1)) =
          maximum - Nat.dist index center := by omega
      dsimp only [power]
      rw [← mul_assoc, ← pow_add, hfirst, hsecond]
      push_cast [decaying]
      rfl
    have hpair : beyond.filter (fun index ↦ Nat.dist index center - (tail + 1) = step) ⊆
        {center - (tail + 1 + step), center + (tail + 1 + step)} := by
      intro index hindex
      obtain ⟨hbeyond, hdistance⟩ := Finset.mem_filter.mp hindex
      have hfar := (Finset.mem_filter.mp hbeyond).2
      rw [Finset.mem_insert, Finset.mem_singleton]
      unfold Nat.dist at *
      omega
    have hpower : 0 ≤ power step := by positivity
    calc
      _ = (beyond.filter fun index ↦ Nat.dist index center - (tail + 1) = step).card • power step :=
        Finset.sum_eq_card_nsmul hvalue
      _ ≤ 2 • power step := nsmul_le_nsmul_left hpower ((Finset.card_le_card hpair).trans Finset.card_le_two)
      _ = _ := by rw [nsmul_eq_mul, Nat.cast_ofNat]
  have hgap : (0 : ℤ) ≤ d - n := by omega
  have hsum : ∑ step ∈ Finset.range (maximum - tail), power step * (d - n) =
      n ^ (tail + 1) * ((d : ℤ) ^ (maximum - tail) - n ^ (maximum - tail)) := by
    rw [← Finset.sum_mul, ← Finset.mul_sum, mul_assoc, ← neg_sub (n : ℤ) d, mul_neg]
    have hgeometric := geom_sum₂_mul (n : ℤ) d (maximum - tail)
    simp only [Nat.sub_right_comm _ 1] at hgeometric ⊢
    rw [hgeometric]
    ring
  calc
    _ = (∑ step ∈ Finset.range (maximum - tail), ∑ index ∈ beyond with Nat.dist index center - (tail + 1) = step,
          (decaying n d maximum center index : ℤ)) * (d - n) := by
      rw [Finset.sum_fiberwise_of_maps_to hmaps, Nat.cast_sum]
    _ ≤ (∑ step ∈ Finset.range (maximum - tail), 2 * power step) * (d - n) :=
      mul_le_mul_of_nonneg_right (Finset.sum_le_sum hfiber) hgap
    _ = 2 * ∑ step ∈ Finset.range (maximum - tail), power step * (d - n) := by
      rw [← Finset.mul_sum, mul_assoc, Finset.sum_mul]
    _ ≤ _ := by
      rw [hsum]
      have hpow : (0 : ℤ) ≤ n ^ (tail + 1) * n ^ (maximum - tail) := by positivity
      linarith only [hpow, mul_sub ((n : ℤ) ^ (tail + 1)) (d ^ (maximum - tail)) (n ^ (maximum - tail))]

theorem pow_le_sum_grid (hcenter : center ≤ maximum) : d ^ maximum ≤ (grid n d maximum center).sum := by
  have hmem : decaying n d maximum center center ∈ grid n d maximum center :=
    List.mem_map_of_mem (List.mem_range.mpr (Nat.lt_succ_of_le hcenter))
  have hpeak : decaying n d maximum center center = d ^ maximum := by simp [decaying]
  exact hpeak ▸ List.single_le_sum (fun _ _ ↦ Nat.zero_le _) _ hmem

theorem beyond_le {tail bound level : ℕ} (hlt : n < d) (htail : tail < maximum) (hcenter : center ≤ maximum)
    (h : 2 * bound * n ^ (tail + 1) * d ≤ level * (d - n) * d ^ (tail + 1)) :
    bound * (∑ index ∈ (Finset.range (maximum + 1)).filter fun index ↦ tail < Nat.dist index center,
        decaying n d maximum center index) ≤ level * (grid n d maximum center).sum := by
  have hmass := @sum_beyond_mul_le n d maximum center hlt.le tail htail.le hcenter
  obtain ⟨rest, hrest⟩ := Nat.exists_eq_add_of_lt htail
  have hpower : maximum - tail = rest + 1 := by omega
  have hgap : (0 : ℤ) < d - n := by omega
  have hd : (0 : ℤ) ≤ d ^ rest := by positivity
  have htotal : (d : ℤ) ^ maximum ≤ (grid n d maximum center).sum := by exact_mod_cast pow_le_sum_grid hcenter
  zify [hlt.le] at h
  rw [hpower] at hmass
  rw [← Int.ofNat_le, Nat.cast_mul, Nat.cast_mul]
  refine le_of_mul_le_mul_right ?_ hgap
  generalize ((∑ index ∈ (Finset.range (maximum + 1)).filter fun index ↦ tail < Nat.dist index center,
    decaying n d maximum center index : ℕ) : ℤ) = mass at hmass ⊢
  calc
    _ = bound * (mass * (d - n)) := by ring
    _ ≤ bound * (2 * (n ^ (tail + 1) * d ^ (rest + 1))) := mul_le_mul_of_nonneg_left hmass (Int.natCast_nonneg _)
    _ = 2 * bound * n ^ (tail + 1) * d * d ^ rest := by ring
    _ ≤ level * (d - n) * d ^ (tail + 1) * d ^ rest := mul_le_mul_of_nonneg_right h hd
    _ = level * d ^ maximum * (d - n) := by rw [show maximum = tail + 1 + rest by omega, pow_add]; ring
    _ ≤ _ := mul_le_mul_of_nonneg_right (mul_le_mul_of_nonneg_left htotal (Int.natCast_nonneg _)) hgap.le

end UniMem.Library.Tickets
