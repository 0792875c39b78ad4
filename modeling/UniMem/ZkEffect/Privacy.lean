import UniMem.ZkEffect.Rounding

/-!
# The privacy ratio of noisy statements

One outcome moves the estimate by at most the declared sensitivity, hence the center of the grid by at most the
declared number of buckets, hence the probability of every released value by at most the declared factor.
-/

namespace UniMem.ZkEffect

open Library FrontierProtocol TransparencyLog

/-- Two row sets that differ in the outcome of one row only. -/
def OneOutcomeApart (rows other : List Observation) : Prop :=
  ∃ row rest outcome, rows.Perm (row :: rest) ∧ other.Perm ({ row with outcome } :: rest)

/-- The probability that a uniform draw below the total selects an index. -/
def share (plan : Plan) (fraction : Fraction) (value : ℤ) (index : ℕ) : ℚ :=
  (weight plan fraction value index : ℚ) / (weights plan fraction value).sum

/-- The draws below the total that select an index. -/
def draws (plan : Plan) (fraction : Fraction) (value : ℤ) (index : ℕ) : Finset ℕ :=
  (Finset.range (weights plan fraction value).sum).filter fun draw ↦
    selected (weights plan fraction value) draw = index

theorem le_ceil_mul (numerator : ℤ) {denominator : ℤ} (h : 0 < denominator) :
    numerator ≤ ceil numerator denominator * denominator := by
  have hfloor := Int.ediv_mul_le (-numerator) h.ne'
  unfold ceil
  linarith only [hfloor]

theorem abs_ediv_sub_le {first second steps divisor : ℤ} (hdivisor : 0 < divisor)
    (h : |first - second| ≤ steps * divisor) : |first / divisor - second / divisor| ≤ steps := by
  obtain ⟨hlow, hhigh⟩ := abs_le.mp h
  have hup : first / divisor ≤ second / divisor + steps := by
    calc
      first / divisor ≤ (second + steps * divisor) / divisor :=
        Int.ediv_le_ediv hdivisor (by linarith only [hhigh])
      _ = second / divisor + steps := Int.add_mul_ediv_right _ _ hdivisor.ne'
  have hdown : second / divisor ≤ first / divisor + steps := by
    calc
      second / divisor ≤ (first + steps * divisor) / divisor :=
        Int.ediv_le_ediv hdivisor (by linarith only [hlow])
      _ = first / divisor + steps := Int.add_mul_ediv_right _ _ hdivisor.ne'
  rw [abs_le]
  constructor <;> linarith only [hup, hdown]

theorem abs_sub_le_of_mem {first second bound : ℤ} (hfirst : 0 ≤ first ∧ first ≤ bound)
    (hsecond : 0 ≤ second ∧ second ≤ bound) : |first - second| ≤ bound := by
  rw [abs_le]
  constructor <;> linarith only [hfirst.1, hfirst.2, hsecond.1, hsecond.2]

section Sensitivity

variable {registered : Plan} {rows other : List Observation}

theorem scale_pos : 0 < scale := by decide

theorem quantum_pos : 0 < quantum := by decide

/-- The steps of the mean that one outcome can move, without the allowance. -/
def outcomeSteps (plan : Plan) : ℤ :=
  match plan.kind with
  | .harm => ceil scale plan.count
  | .effect => ceil (scale * scale) (plan.count * plan.propensityMin)

theorem outcomeSteps_le (plan : Plan) : outcomeSteps plan ≤ sensitivity plan := by
  unfold outcomeSteps sensitivity
  cases plan.kind <;> simp

theorem Accepted.count_pos (h : Accepted registered rows) : 0 < registered.count := by
  have htwo := h.two_le
  rw [h.count_eq]
  omega

theorem Accepted.propensityMin_pos (h : Accepted registered rows) : 0 < registered.propensityMin := by
  have hmin : 0 < minPropensity := by decide
  exact hmin.trans_le h.minPropensity_le

theorem Accepted.score_mem (h : Accepted registered rows) {row : Observation} (hrow : row ∈ rows) :
    0 ≤ score row ∧ score row ≤ scale * scale / registered.propensityMin := by
  have hpos := h.probability_pos hrow
  have houtcome := h.outcome row hrow
  have hscale := scale_pos
  have hminimum : registered.propensityMin ≤ probability row := by
    have hboth := h.minimum row hrow
    unfold probability
    split
    · exact hboth.1
    · exact hboth.2
  constructor
  · exact Int.ediv_nonneg (mul_nonneg houtcome.1 hscale.le) hpos.le
  · rw [Int.le_ediv_iff_mul_le h.propensityMin_pos]
    calc
      score row * registered.propensityMin ≤ score row * probability row :=
        mul_le_mul_of_nonneg_left hminimum (Int.ediv_nonneg (mul_nonneg houtcome.1 hscale.le) hpos.le)
      _ ≤ row.outcome * scale := Int.ediv_mul_le _ hpos.ne'
      _ ≤ scale * scale := mul_le_mul_of_nonneg_right houtcome.2 hscale.le

theorem abs_signedScore_sub_le (hrows : Accepted registered rows) (hother : Accepted registered other)
    {row changed : Observation} (hrow : row ∈ rows) (hchanged : changed ∈ other)
    (hassigned : changed.assigned = row.assigned) :
    |signedScore registered.kind row - signedScore registered.kind changed| ≤
      outcomeSteps registered * registered.count := by
  unfold outcomeSteps
  cases registered.kind with
  | harm =>
    exact (abs_sub_le_of_mem (hrows.outcome row hrow) (hother.outcome changed hchanged)).trans
      (le_ceil_mul _ hrows.count_pos)
  | effect =>
    have hscores := abs_sub_le_of_mem (hrows.score_mem hrow) (hother.score_mem hchanged)
    have hsteps : scale * scale / registered.propensityMin ≤
        ceil (scale * scale) (registered.count * registered.propensityMin) * registered.count := by
      rw [← Int.lt_add_one_iff]
      apply Int.ediv_lt_of_lt_mul hrows.propensityMin_pos
      have hceil := le_ceil_mul (scale * scale) (mul_pos hrows.count_pos hrows.propensityMin_pos)
      have hpos := hrows.propensityMin_pos
      calc
        scale * scale ≤ ceil (scale * scale) (registered.count * registered.propensityMin) *
            (registered.count * registered.propensityMin) := hceil
        _ < ceil (scale * scale) (registered.count * registered.propensityMin) *
            (registered.count * registered.propensityMin) + registered.propensityMin := by linarith only [hpos]
        _ = _ := by ring
    refine le_trans ?_ (hscores.trans hsteps)
    simp only [signedScore, hassigned]
    split
    · exact le_rfl
    · rw [neg_sub_neg, abs_sub_comm]

theorem Accepted.estimate_eq (h : Accepted registered rows) :
    estimate registered.kind rows = .ok ((rows.map (signedScore registered.kind)).sum / registered.count) := by
  have hbound : ∀ row ∈ rows, |signedScore registered.kind row| ≤ scale * scale := by
    intro row hrow
    cases hkind : registered.kind with
    | harm =>
      have houtcome := h.outcome row hrow
      have hlarge : scale ≤ scale * scale := by decide
      rw [signedScore, abs_of_nonneg houtcome.1]
      exact houtcome.2.trans hlarge
    | effect =>
      have hscore := h.score_mem hrow
      have hdiv : scale * scale / registered.propensityMin ≤ scale * scale :=
        Int.ediv_le_self _ (by decide)
      have habs : |signedScore .effect row| = |score row| := by
        unfold signedScore
        simp only
        split
        · rfl
        · exact abs_neg _
      rw [habs, abs_of_nonneg hscore.1]
      exact hscore.2.trans hdiv
  have hsum : |(rows.map (signedScore registered.kind)).sum| ≤ rows.length * (scale * scale) := by
    clear h
    induction rows with
    | nil => simp
    | cons row rest ih =>
      have hrest := ih fun row hrow ↦ hbound row (List.mem_cons_of_mem _ hrow)
      have hhead := hbound row List.mem_cons_self
      rw [List.map_cons, List.sum_cons, List.length_cons]
      refine (abs_add_le _ _).trans ((add_le_add hhead hrest).trans (le_of_eq ?_))
      push_cast
      ring
  have hlimit : (rows.length : ℤ) * (scale * scale) ≤ maxCohort * (scale * scale) :=
    mul_le_mul_of_nonneg_right h.length_le (by decide)
  have hmax : maxCohort * (scale * scale) ≤ maxI128 := by decide
  rw [estimate, scores_sumsOf, i128, if_neg (not_lt.mpr (hsum.trans (hlimit.trans hmax))), h.count_eq]
  rfl

theorem abs_estimate_sub_le (hrows : Accepted registered rows) (hother : Accepted registered other)
    (hapart : OneOutcomeApart rows other) {value moved : ℤ}
    (hvalue : estimate registered.kind rows = .ok value) (hmoved : estimate registered.kind other = .ok moved) :
    |value - moved| ≤ sensitivity registered := by
  obtain ⟨row, rest, outcome, hperm, hpermOther⟩ := hapart
  rw [hrows.estimate_eq, Except.ok.injEq] at hvalue
  rw [hother.estimate_eq, Except.ok.injEq] at hmoved
  rw [← hvalue, ← hmoved]
  refine (abs_ediv_sub_le hrows.count_pos ?_).trans (outcomeSteps_le registered)
  rw [(hperm.map _).sum_eq, (hpermOther.map _).sum_eq, List.map_cons, List.map_cons, List.sum_cons, List.sum_cons,
    add_sub_add_right_eq_sub]
  exact abs_signedScore_sub_le hrows hother (hperm.mem_iff.mpr List.mem_cons_self)
    (hpermOther.mem_iff.mpr List.mem_cons_self) rfl

end Sensitivity

section Grid

variable {registered : Plan}

theorem gridMaximum_eq (plan : Plan) : gridMaximum plan = maximum plan := by
  unfold gridMaximum maximum lowest
  cases plan.kind <;> rfl

theorem lowest_le_scale (plan : Plan) : lowest plan ≤ scale := by
  unfold lowest
  cases plan.kind <;> decide

theorem center_mem (plan : Plan) (value : ℤ) : 0 ≤ center plan value ∧ center plan value ≤ gridMaximum plan := by
  have hle := lowest_le_scale plan
  constructor
  · exact Int.ediv_nonneg (sub_nonneg.mpr (le_max_left _ _)) quantum_pos.le
  · apply Int.ediv_le_ediv quantum_pos
    have hmax : max (lowest plan) (min scale value) ≤ scale := max_le hle (min_le_left _ _)
    linarith only [hmax]

theorem abs_center_sub_le {value moved : ℤ} (h : |value - moved| ≤ sensitivity registered) :
    |center registered value - center registered moved| ≤ buckets registered := by
  have hfirst := center_mem registered value
  have hsecond := center_mem registered moved
  apply le_min
  · rw [← gridMaximum_eq]
    exact abs_sub_le_of_mem hfirst hsecond
  · apply abs_ediv_sub_le quantum_pos
    rw [sub_sub_sub_cancel_right]
    calc
      _ ≤ |min scale value - min scale moved| := by
        rw [max_comm (lowest registered), max_comm (lowest registered)]
        exact abs_max_sub_max_le_abs _ _ _
      _ ≤ |value - moved| := by
        rw [min_comm scale, min_comm scale]
        have hmin := abs_min_sub_min_le_max value scale moved scale
        rwa [sub_self, abs_zero, max_eq_left (abs_nonneg _)] at hmin
      _ ≤ sensitivity registered := h
      _ ≤ _ := le_ceil_mul _ quantum_pos

theorem weight_eq (plan : Plan) (fraction : Fraction) (value : ℤ) (index : ℕ) :
    weight plan fraction value index = Tickets.decaying fraction.numerator fraction.denominator
      (gridMaximum plan).toNat (center plan value).toNat index := by
  have hcenter := (center_mem plan value).1
  have hdistance : ((index : ℤ) - center plan value).natAbs = Nat.dist index (center plan value).toNat := by
    unfold Nat.dist
    omega
  rw [weight, hdistance, Tickets.decaying]

theorem weights_eq (plan : Plan) (fraction : Fraction) (value : ℤ) :
    weights plan fraction value = Tickets.grid fraction.numerator fraction.denominator
      (gridMaximum plan).toNat (center plan value).toNat := by
  unfold weights Tickets.grid
  apply List.map_congr_left
  intro index _
  exact weight_eq plan fraction value index

theorem card_draws (plan : Plan) (fraction : Fraction) (value : ℤ) {index : ℕ}
    (h : index ≤ (gridMaximum plan).toNat) :
    (draws plan fraction value index).card = weight plan fraction value index := by
  have hlength : index < (weights plan fraction value).length := by
    rw [weights, List.length_map, List.length_range]
    omega
  have hcard := Tickets.card_picking 0 (weights plan fraction value) 0 index hlength
  rw [Nat.zero_add] at hcard
  refine hcard.trans ?_
  simp [weights]

theorem share_le {fraction : Fraction} (hfraction : 0 < fraction.numerator ∧
    fraction.numerator ≤ fraction.denominator)
    {value moved : ℤ} (h : |value - moved| ≤ sensitivity registered) {index : ℕ}
    (hindex : index ≤ (gridMaximum registered).toNat) :
    share registered fraction value index ≤
      ((fraction.denominator : ℚ) / fraction.numerator) ^ (2 * (buckets registered).toNat) *
        share registered fraction moved index := by
  have hfirst := center_mem registered value
  have hsecond := center_mem registered moved
  have hsteps := abs_le.mp (abs_center_sub_le h)
  have hdistance : Nat.dist (center registered value).toNat (center registered moved).toNat ≤
      (buckets registered).toNat := by
    unfold Nat.dist
    omega
  unfold share
  rw [weight_eq, weight_eq, weights_eq, weights_eq]
  exact Tickets.share_le hfraction.1 hfraction.2 hindex (by omega) (by omega) hdistance

end Grid

theorem dpParameters_spec {plan : Plan} {parameters : NoiseParameters} (h : dpParameters plan = .ok parameters) :
    parameters.fraction ∈ dpLogUpper ∧ parameters.epsilon = 2 * buckets plan * parameters.fraction.logUpper := by
  unfold dpParameters at h
  split at h
  · obtain ⟨_, h⟩ := Py.of_rest h
    obtain ⟨numerator, -, h⟩ := Py.of_bind h
    obtain ⟨denominator, -, h⟩ := Py.of_bind h
    cases hfound : supportedFraction numerator denominator with
    | none => simp [hfound] at h
    | some fraction =>
      rw [hfound] at h
      obtain ⟨_, h⟩ := Py.of_rest h
      obtain ⟨_, h⟩ := Py.of_rest h
      obtain ⟨_, h⟩ := Py.of_rest h
      obtain rfl := Except.ok.inj h
      refine ⟨?_, rfl⟩
      unfold supportedFraction at hfound
      split at hfound
      · exact List.mem_of_find?_eq_some hfound
      · cases hfound
  · cases h

theorem numerator_le_denominator {fraction : Fraction} (h : fraction ∈ dpLogUpper) :
    0 < fraction.numerator ∧ fraction.numerator ≤ fraction.denominator := by
  simp only [dpLogUpper, List.mem_cons, List.not_mem_nil, or_false] at h
  obtain rfl | rfl | rfl := h <;> decide

/-- When one outcome differs, the probability of each index differs by the declared factor. -/
theorem noise_meets_privacy_ratio (setting : Setting) {witness other : Row} {registered : Plan}
    {observed changed : List Observation} {root root' : String}
    (h : rows setting witness = .ok (registered, observed, root))
    (hother : rows setting other = .ok (registered, changed, root')) (hnoise : registered.dp ≠ .null)
    (hapart : OneOutcomeApart observed changed) :
    ∃ parameters value moved, dpParameters registered = .ok parameters ∧
      parameters.epsilon = 2 * buckets registered * parameters.fraction.logUpper ∧
      estimate registered.kind observed = .ok value ∧ estimate registered.kind changed = .ok moved ∧
      |value - moved| ≤ sensitivity registered ∧ ∀ index ≤ (gridMaximum registered).toNat,
        share registered parameters.fraction value index ≤
          ((parameters.fraction.denominator : ℚ) / parameters.fraction.numerator) ^ (2 * (buckets registered).toNat) *
            share registered parameters.fraction moved index ∧ share registered parameters.fraction moved index ≤
          ((parameters.fraction.denominator : ℚ) / parameters.fraction.numerator) ^ (2 * (buckets registered).toNat) *
            share registered parameters.fraction value index ∧
        (draws registered parameters.fraction value index).card = weight registered parameters.fraction value index ∧
        (draws registered parameters.fraction moved index).card =
          weight registered parameters.fraction moved index := by
  obtain ⟨haccepted, -, hsupported⟩ := rows_spec h
  obtain ⟨haccepted', -, -⟩ := rows_spec hother
  obtain ⟨parameters, hparameters⟩ := hsupported hnoise
  obtain ⟨hmem, hepsilon⟩ := dpParameters_spec hparameters
  have hfraction := numerator_le_denominator hmem
  have hsensitive := abs_estimate_sub_le haccepted haccepted' hapart haccepted.estimate_eq haccepted'.estimate_eq
  refine ⟨parameters, _, _, hparameters, hepsilon, haccepted.estimate_eq, haccepted'.estimate_eq, hsensitive, ?_⟩
  intro index hindex
  exact ⟨share_le hfraction hsensitive hindex, share_le hfraction ((abs_sub_comm _ _).trans_le hsensitive) hindex,
    card_draws _ _ _ hindex, card_draws _ _ _ hindex⟩

namespace Sample

def noiseDigest : Bytes := ofNumber 0x31a1c2f64168c44a86c5ec43f00b2c498b1193f9f9b3affbd1d5f88977f1804c

def noisyDigest : Bytes := ofNumber 0xc2d4746fa77d89dd06d8028f9891bf115563ce853118e76141f400aabbeb339a

def profile : Row :=
  [("numerator", .int 99), ("denominator", .int 100), ("noise_key", .str (hexText noiseDigest))]

def noisyPlan : Plan := planOf .harm (some 100_000) (.obj profile)

def noisyWitness (second : ℤ) : Row :=
  witnessOf noisyPlan (hexText noisyDigest) (.str (hexText (List.replicate 32 0x34))) second

theorem dpParameters_noisyPlan : ∃ parameters, dpParameters noisyPlan = .ok parameters := by
  have hkeys : keysAre profile ["numerator", "denominator", "noise_key"] = true := by
    rw [keysAre_iff]
    exact List.Perm.refl _
  have hfraction : supportedFraction (.int 99) (.int 100) = some ⟨99, 100, 10_051⟩ := rfl
  exact ⟨_, dpParameters_eq rfl hkeys rfl rfl hfraction rfl (hex_hexText (length_ofNumber _)) (by decide)⟩

theorem facts_noisyPlan :
    (fits (.obj noisyPlan.fields) = true ∧ digestOf (canonicalBytes (.obj noisyPlan.fields)) = noisyDigest ∧
      digestOf (Json.utf8 "unimem-effect-noise-v1" ++ 0 :: List.replicate 32 0x34) = noiseDigest) ∧
    draw setting (Json.utf8 "unimem-effect-assignment-v1" ++ 0 :: List.replicate 32 0xab ++ noisyDigest ++
      identifier "a") 500_000 = some true ∧
    draw setting (Json.utf8 "unimem-effect-assignment-v1" ++ 0 :: List.replicate 32 0xab ++ noisyDigest ++
      identifier "bc") 250_000 = some false := by
  decide +kernel

theorem hashed_noisyPlan : Hashed noisyPlan noisyDigest := by
  obtain ⟨⟨hfits, hdigest, -⟩, -⟩ := facts_noisyPlan
  refine ⟨wirable_of_fits hfits, ?_, length_ofNumber _⟩
  rw [digest, (wirable_of_fits hfits).wire_eq, Py.map_ok]
  exact congrArg (fun bytes ↦ Except.ok (hexText bytes)) hdigest

theorem checkNoiseSeed_noisyPlan :
    checkNoiseSeed setting (.obj profile) (.str (hexText (List.replicate 32 0x34))) = .ok () := by
  have hkey : seedKey setting (.str (hexText (List.replicate 32 0x34))) true = .ok (hexText noiseDigest) := by
    rw [seedKey, hexBytes_hexText List.length_replicate, Py.bind_ok]
    exact congrArg (fun bytes ↦ Except.ok (hexText bytes)) facts_noisyPlan.1.2.2
  exact checkNoiseSeed_eq hkey rfl (Origin.isText_iff.mpr rfl)

theorem rows_noisyWitness {second : ℤ} (hsecond : 0 ≤ second ∧ second ≤ scale) :
    ∃ root, rows setting (noisyWitness second) = .ok (noisyPlan, observations second, root) :=
  rows_witnessOf (plan_entries rfl (Or.inr dpParameters_noisyPlan)) hashed_noisyPlan
    checkNoiseSeed_noisyPlan hsecond facts_noisyPlan.2.1 facts_noisyPlan.2.2

theorem observations_apart (first second : ℤ) : OneOutcomeApart (observations first) (observations second) :=
  ⟨⟨"bc", 250_000, false, first⟩, [⟨"a", 500_000, true, 400_000⟩], second, List.Perm.swap _ _ _, List.Perm.swap _ _ _⟩

end Sample

open Sample in
/-- Two witnesses with noise that differ in one outcome meet the declared ratio. -/
theorem noise_meets_privacy_ratio_two_rows : ∃ root root', rows setting (noisyWitness 300_000) =
      .ok (noisyPlan, observations 300_000, root) ∧
    rows setting (noisyWitness 700_000) = .ok (noisyPlan, observations 700_000, root') ∧
    ∃ parameters value moved, dpParameters noisyPlan = .ok parameters ∧
      parameters.epsilon = 2 * buckets noisyPlan * parameters.fraction.logUpper ∧
      estimate noisyPlan.kind (observations 300_000) = .ok value ∧
      estimate noisyPlan.kind (observations 700_000) = .ok moved ∧ |value - moved| ≤ sensitivity noisyPlan ∧
      ∀ index ≤ (gridMaximum noisyPlan).toNat, share noisyPlan parameters.fraction value index ≤
          ((parameters.fraction.denominator : ℚ) / parameters.fraction.numerator) ^ (2 * (buckets noisyPlan).toNat) *
            share noisyPlan parameters.fraction moved index ∧ share noisyPlan parameters.fraction moved index ≤
          ((parameters.fraction.denominator : ℚ) / parameters.fraction.numerator) ^ (2 * (buckets noisyPlan).toNat) *
            share noisyPlan parameters.fraction value index ∧
        (draws noisyPlan parameters.fraction value index).card = weight noisyPlan parameters.fraction value index ∧
        (draws noisyPlan parameters.fraction moved index).card =
          weight noisyPlan parameters.fraction moved index := by
  obtain ⟨root, h⟩ := @rows_noisyWitness 300_000 (by decide)
  obtain ⟨root', hother⟩ := @rows_noisyWitness 700_000 (by decide)
  have hnoise : noisyPlan.dp ≠ .null := Json.noConfusion
  exact ⟨root, root', h, hother, noise_meets_privacy_ratio setting h hother hnoise (observations_apart _ _)⟩

end UniMem.ZkEffect
