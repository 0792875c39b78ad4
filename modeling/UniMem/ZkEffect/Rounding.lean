import UniMem.Library.FloorError
import UniMem.ZkEffect.Acceptance
import UniMem.ZkEffect.Statements

/-!
# Rounding errors of effect statements

The estimate and the Hajek contrast of a statement against the rational numbers they stand for. Every division of
the source is a floor, of scores, of weights and of the mean.
-/

namespace UniMem.ZkEffect

open Library FrontierProtocol TransparencyLog

/-- The probability of the arm that a row was assigned to, in millionths. -/
def probability (row : Observation) : ℤ := if row.assigned then row.propensity else scale - row.propensity

/-- The rounded score of a row, without its sign. -/
def score (row : Observation) : ℤ := row.outcome * scale / probability row

/-- The rounded weight of a row. -/
def scoreWeight (row : Observation) : ℤ := scale * scale / probability row

/-- The score of a row in the estimate. -/
def signedScore (kind : Kind) (row : Observation) : ℤ :=
  match kind with
  | .harm => row.outcome
  | .effect => if row.assigned then score row else -score row

/-- The rows of one arm. -/
def arm (assigned : Bool) (rows : List Observation) : List Observation :=
  rows.filter fun row ↦ row.assigned = assigned

theorem foldl_accumulate_effect (rows : List Observation) (sums : Sums) :
    rows.foldl (accumulate .effect) sums =
      { treated := sums.treated + ((arm true rows).map score).sum
        control := sums.control + ((arm false rows).map score).sum
        treatedWeight := sums.treatedWeight + ((arm true rows).map scoreWeight).sum
        controlWeight := sums.controlWeight + ((arm false rows).map scoreWeight).sum
        scores := sums.scores ++ rows.map (signedScore .effect) } := by
  induction rows generalizing sums with
  | nil => simp [arm]
  | cons row rest ih =>
    rw [List.foldl_cons, ih]
    cases hassigned : row.assigned <;>
      simp [accumulate, arm, hassigned, score, scoreWeight, probability, signedScore, add_assoc]

theorem foldl_accumulate_harm (rows : List Observation) (sums : Sums) :
    rows.foldl (accumulate .harm) sums = { sums with scores := sums.scores ++ rows.map (signedScore .harm) } := by
  induction rows generalizing sums with
  | nil => simp
  | cons row rest ih =>
    rw [List.foldl_cons, ih]
    simp [accumulate, signedScore]

theorem scores_sumsOf (kind : Kind) (rows : List Observation) :
    (sumsOf kind rows).scores = rows.map (signedScore kind) := by
  cases kind with
  | harm => rw [sumsOf, foldl_accumulate_harm, List.nil_append]
  | effect => rw [sumsOf, foldl_accumulate_effect, List.nil_append]

/-- The contribution of a row to the estimate, before any rounding. -/
def exactScore (kind : Kind) (row : Observation) : ℚ :=
  match kind with
  | .harm => row.outcome
  | .effect =>
    if row.assigned then (row.outcome * scale : ℚ) / row.propensity
    else -((row.outcome * scale : ℚ) / ((scale : ℚ) - row.propensity))

/-- The mean of the outcomes or of the inverse-propensity scores, in millionths. -/
def exactMean (kind : Kind) (rows : List Observation) : ℚ := (rows.map (exactScore kind)).sum / rows.length

/-- The mean of an arm, weighted by inverse probabilities. -/
def armMean (assigned : Bool) (rows : List Observation) : ℚ :=
  ((arm assigned rows).map fun row ↦ (row.outcome : ℚ) / probability row).sum /
    ((arm assigned rows).map fun row ↦ 1 / (probability row : ℚ)).sum

/-- The Hajek contrast of the arms, in millionths. -/
def exactHajek (rows : List Observation) : ℚ := armMean true rows - armMean false rows

section Errors

variable {registered : Plan} {rows : List Observation}

variable {row : Observation} {kind : Kind}

section

variable (h : Accepted registered rows)
include h

theorem Accepted.probability_bounds (hrow : row ∈ rows) :
    minPropensity ≤ probability row ∧ probability row ≤ scale - minPropensity := by
  have hbounds := h.propensity row hrow
  unfold probability
  split
  · exact hbounds
  · constructor <;> linarith only [hbounds.1, hbounds.2]

theorem Accepted.probability_pos (hrow : row ∈ rows) :
    0 < probability row := by
  have hbound := (h.probability_bounds hrow).1
  have hmin : 0 < minPropensity := by decide
  exact hmin.trans_le hbound

theorem Accepted.abs_signedScore_le (hrow : row ∈ rows) :
    |(signedScore .effect row : ℚ) - exactScore .effect row| ≤ 1 := by
  have hfloor := FloorError.ediv_bounds (row.outcome * scale) (h.probability_pos hrow)
  push_cast at hfloor
  cases hassigned : row.assigned with
  | true =>
    simp only [signedScore, exactScore, score, probability, hassigned, if_true] at hfloor ⊢
    rw [abs_le]
    constructor <;> linarith only [hfloor.1, hfloor.2]
  | false =>
    simp only [signedScore, exactScore, score, probability, hassigned, Bool.false_eq_true, if_false] at hfloor ⊢
    push_cast at hfloor ⊢
    rw [abs_le]
    constructor <;> linarith only [hfloor.1, hfloor.2]

theorem Accepted.abs_estimate_le {value : ℤ}
    (hvalue : estimate kind rows = .ok value) : |(value : ℚ) - exactMean kind rows| ≤ rounding kind := by
  obtain ⟨total, htotal, hvalue⟩ := Py.of_bind hvalue
  obtain rfl := Except.ok.inj hvalue
  have hsum : total = (rows.map (signedScore kind)).sum := by
    unfold i128 at htotal
    split_ifs at htotal
    rw [← Except.ok.inj htotal, scores_sumsOf]
  have hcount : (0 : ℤ) < rows.length := by
    have htwo := h.two_le
    omega
  unfold exactMean
  cases kind with
  | harm =>
    have hexact : (rows.map (exactScore .harm)).sum = ((total : ℤ) : ℚ) := by
      rw [hsum, Int.cast_list_sum, List.map_map]
      rfl
    rw [hexact]
    simpa [rounding] using FloorError.abs_exact_mean_le total hcount
  | effect =>
    have herror := FloorError.abs_sum_le fun row (hrow : row ∈ rows) ↦ h.abs_signedScore_le hrow
    rw [← hsum] at herror
    simpa [rounding] using FloorError.abs_mean_le hcount (by simpa using herror)

theorem Accepted.scale_le_scoreWeight (hrow : row ∈ rows) :
    scale ≤ scoreWeight row := by
  have hbound := (h.probability_bounds hrow).2
  have hmin : 0 ≤ minPropensity := by decide
  have hscale : 0 ≤ scale := by decide
  unfold scoreWeight
  rw [Int.le_ediv_iff_mul_le (h.probability_pos hrow)]
  exact mul_le_mul_of_nonneg_left (by linarith only [hbound, hmin]) hscale

theorem Accepted.abs_armMean_le (assigned : Bool)
    (hweight : ((arm assigned rows).map scoreWeight).sum ≠ 0) :
    |((scale * ((arm assigned rows).map score).sum / ((arm assigned rows).map scoreWeight).sum : ℤ) : ℚ) -
      armMean assigned rows| ≤ 2 := by
  have hmem : ∀ row ∈ arm assigned rows, row ∈ rows := fun row hrow ↦ List.mem_of_mem_filter hrow
  have hscale : (0 : ℚ) < scale := by norm_num [scale]
  have hscaleInt : 0 < scale := by decide
  have hterms : (scale * (arm assigned rows).length : ℤ) ≤ ((arm assigned rows).map scoreWeight).sum := by
    have hconstant : (((arm assigned rows).map fun _ ↦ scale).sum : ℤ) = scale * (arm assigned rows).length := by
      rw [List.map_const', List.sum_replicate, nsmul_eq_mul, mul_comm]
    rw [← hconstant]
    exact List.sum_le_sum fun row hrow ↦ h.scale_le_scoreWeight (hmem row hrow)
  have hnonneg : (0 : ℤ) ≤ ((arm assigned rows).map scoreWeight).sum :=
    (mul_nonneg hscaleInt.le (Int.natCast_nonneg _)).trans hterms
  have hscores := @FloorError.sum_bounds _ (arm assigned rows) score
    (fun row ↦ (row.outcome * scale : ℚ) / probability row) (by
      intro row hrow
      have hfloor := FloorError.ediv_bounds (row.outcome * scale) (h.probability_pos (hmem row hrow))
      push_cast at hfloor
      exact hfloor)
  have hweights := @FloorError.sum_bounds _ (arm assigned rows) scoreWeight
    (fun row ↦ (scale * scale : ℚ) / probability row) (by
      intro row hrow
      have hfloor := FloorError.ediv_bounds (scale * scale) (h.probability_pos (hmem row hrow))
      push_cast at hfloor
      exact hfloor)
  have hscorePos : (0 : ℤ) ≤ ((arm assigned rows).map score).sum := by
    apply List.sum_nonneg
    intro value hvalue
    obtain ⟨row, hrow, rfl⟩ := List.mem_map.mp hvalue
    exact Int.ediv_nonneg (mul_nonneg (h.outcome row (hmem row hrow)).1 hscaleInt.le)
      (h.probability_pos (hmem row hrow)).le
  have hratio : ((arm assigned rows).map fun row ↦ (row.outcome * scale : ℚ) / probability row).sum ≤
      ((arm assigned rows).map fun row ↦ (scale * scale : ℚ) / probability row).sum := by
    apply List.sum_le_sum
    intro row hrow
    have hprobability : (0 : ℚ) < probability row := by exact_mod_cast h.probability_pos (hmem row hrow)
    have houtcome : (row.outcome : ℚ) ≤ scale := by exact_mod_cast (h.outcome row (hmem row hrow)).2
    gcongr
  have herror := FloorError.abs_ratio_le hscaleInt (lt_of_le_of_ne hnonneg (Ne.symm hweight)) hscorePos hscores.2
    hscores.1 hweights.2 hweights.1 hterms hratio (Int.natCast_nonneg _)
  have hmean : (scale : ℚ) * ((arm assigned rows).map fun row ↦ (row.outcome * scale : ℚ) / probability row).sum /
      ((arm assigned rows).map fun row ↦ (scale * scale : ℚ) / probability row).sum = armMean assigned rows := by
    have hnumerator : ((arm assigned rows).map fun row ↦ (row.outcome * scale : ℚ) / probability row).sum =
        scale * ((arm assigned rows).map fun row ↦ (row.outcome : ℚ) / probability row).sum := by
      rw [← List.sum_map_mul_left]
      congr 1
      apply List.map_congr_left
      intro row _
      ring
    have hdenominator : ((arm assigned rows).map fun row ↦ (scale * scale : ℚ) / probability row).sum =
        scale * scale * ((arm assigned rows).map fun row ↦ 1 / (probability row : ℚ)).sum := by
      rw [← List.sum_map_mul_left]
      congr 1
      apply List.map_congr_left
      intro row _
      ring
    rw [armMean, hnumerator, hdenominator, ← mul_assoc]
    exact mul_div_mul_left _ _ (mul_pos hscale hscale).ne'
  rwa [hmean] at herror

theorem Accepted.abs_hajek_le {contrast : ℤ}
    (hcontrast : hajek kind rows = some contrast) : |(contrast : ℚ) - exactHajek rows| ≤ 6 := by
  cases kind with
  | harm => simp [hajek, sumsOf, foldl_accumulate_harm] at hcontrast
  | effect =>
    unfold hajek at hcontrast
    rw [sumsOf, foldl_accumulate_effect] at hcontrast
    simp only [zero_add] at hcontrast
    split_ifs at hcontrast with hweights
    have htreated := abs_le.mp (h.abs_armMean_le true hweights.1)
    have hcontrol := abs_le.mp (h.abs_armMean_le false hweights.2)
    rw [← Option.some.inj hcontrast, exactHajek, Int.cast_sub, abs_le]
    constructor
    · linarith only [htreated.1, hcontrol.2]
    · linarith only [htreated.2, hcontrol.1]

end

end Errors

/-- Released estimates and contrasts are within their rounding errors of the exact ones. -/
theorem statement_within_rounding_errors (setting : Setting) {witness : Row} {result : Statement}
    (hnoise : submittedNoise witness = some .null) (h : statement setting witness = .ok result) :
    ∃ registered observed root, rows setting witness = .ok (registered, observed, root) ∧
      |(result.estimate : ℚ) - exactMean result.kind observed| ≤ result.roundingError ∧
      ∀ contrast, result.hajek = some contrast → ∃ bound, result.hajekRoundingError = some bound ∧
        |(contrast : ℚ) - exactHajek observed| ≤ bound := by
  obtain ⟨⟨registered, observed, root⟩, hrows, h⟩ := Py.of_bind h
  obtain ⟨value, hvalue, h⟩ := Py.of_bind h
  obtain ⟨seed, -, h⟩ := Py.of_bind h
  obtain ⟨published, hpublished, h⟩ := Py.of_bind h
  obtain ⟨_, h⟩ := Py.of_rest h
  obtain ⟨_, h⟩ := Py.of_rest h
  obtain ⟨_, h⟩ := Py.of_rest h
  obtain rfl := Except.ok.inj h
  obtain ⟨haccepted, hdp, -⟩ := rows_spec hrows
  have hnull : registered.dp = .null := Option.some.inj (hdp.symm.trans hnoise)
  obtain ⟨exactRadius, -, hpublished⟩ := Py.of_bind hpublished
  rw [hnull] at hpublished
  obtain rfl := Except.ok.inj hpublished
  refine ⟨registered, observed, root, hrows, haccepted.abs_estimate_le hvalue, ?_⟩
  intro contrast hcontrast
  refine ⟨6, congrArg (Option.map fun _ ↦ 6) hcontrast, ?_⟩
  exact_mod_cast haccepted.abs_hajek_le hcontrast

namespace Sample

def known : List ((ℕ × ℕ) × ℕ) :=
  [((8, 300), 0x2837636ee4863b62a4a8e52ad3827b7bee6e622a642f1f3372475e120b142471),
    ((9, 556), 0x7d6c77d7742d3c471d3a4d41a010054875383544d1429e5ef85755a2ac1f5317),
    ((65, 6261), 0x41dc3eea32d93253689676ec586ed18904659f040bc1c388b6e1e22d083df811),
    ((56, 2777), 0x5b50ab2ecc7489a16cb208bee658ba5d36832d5234dd33c2f03ffd708488e13b),
    ((331, 25833), 0xb791e2bc7a3e57f615026a67cd8fc6d03fd35b844f4fab42a3a64cc4aa3877d0),
    ((155, 13014), 0x744694173254d9afb9b7560e7e163c2e28f5728526ee587025e4292d469cda07),
    ((99, 12516), 0xe9caa00a945d331a1bd3ae39a4f41ca49a78015663b5519498f2e102bec73e7e),
    ((49, 1035), 0x218993402468bb493c7099858f766d61d83d9aa57c17d6a7adab083c613bda59),
    ((100, 12617), 0x90331d29a8534361d69b48a6acd1b94c2b22e78fa494df9cac8fcbfc80d4a0d7),
    ((50, 1506), 0x31ecfdab85c48a64533ffe323d317a5700cb5ffa8691d39dfa1012260d32cde0),
    ((65, 7760), 0xa8f17f40cd08e10cfb48566191f3b31224118e0a667736a874cfeb657d5bba71),
    ((55, 3780), 0x31a1c2f64168c44a86c5ec43f00b2c498b1193f9f9b3affbd1d5f88977f1804c),
    ((440, 33715), 0xc2d4746fa77d89dd06d8028f9891bf115563ce853118e76141f400aabbeb339a),
    ((155, 12788), 0x72a73fc99079e3701011716615211209462b5024a0c2338ec740a19a1eef7961),
    ((99, 12410), 0x6169c043b9b33c8951321e017f3f081af9445e5d40c55123d064ec695118046f),
    ((100, 12511), 0x16be01993a7b396875e597fd6795a0513e07eeccad3a26bbda9c26e435857321),
    ((50, 1411), 0x44e65c7aaafe1b37074c07ab986c28947932d40b3f3bc675a1eee06437d997ea),
    ((65, 7644), 0xd4c9f1f960c7a7e1a31925f29f0c4cc887d7281a0154800a35a40788c3a93e4c)]

def ofNumber (number : ℕ) : Bytes := (littleEndian 32 number).reverse

theorem length_ofNumber (number : ℕ) : (ofNumber number).length = 32 := by
  rw [ofNumber, List.length_reverse, length_littleEndian]

def digestOf (message : Bytes) : Bytes :=
  ofNumber ((known.lookup (message.length, (message.map UInt8.toNat).sum)).getD 0)

theorem length_digestOf (message : Bytes) : (digestOf message).length = 32 := length_ofNumber _

def cohortDigest : Bytes := ofNumber 0x41dc3eea32d93253689676ec586ed18904659f040bc1c388b6e1e22d083df811

def seedDigest : Bytes := ofNumber 0x5b50ab2ecc7489a16cb208bee658ba5d36832d5234dd33c2f03ffd708488e13b

def isDigest (text : String) : Bool :=
  text.length = 64 && text.toList.all fun char ↦ ('a' ≤ char && char ≤ 'f') || ('0' ≤ char && char ≤ '9')

theorem isDigest_hexText {bytes : Bytes} (h : bytes.length = 32) : isDigest (hexText bytes) = true := by
  have hdigits : ∀ value < 16, (fun char ↦ ('a' ≤ char && char ≤ 'f') || ('0' ≤ char && char ≤ '9'))
      (Nat.digitChar value) = true := by decide
  rw [isDigest, length_hexText, h, hexText, String.toList_ofList]
  simp only [decide_true, Bool.true_and, List.all_eq_true, List.mem_flatMap, List.mem_cons, List.not_mem_nil,
    or_false]
  rintro char ⟨byte, _, hchar⟩
  have hbyte := byte.toNat_lt
  obtain rfl | rfl := hchar
  · exact hdigits _ (by omega)
  · exact hdigits _ (by omega)

def suite : HashSuite String where
  canonical := isDigest
  combine left right := hexText (digestOf (1 :: (fromHex left).getD [] ++ (fromHex right).getD []))
  emptyHash := hexText (ofNumber 0xe3b0c44298fc1c149afbf4c8996fb92427ae41e4649b934ca495991b7852b855)
  blank := ""
  canonical_combine _ _ := isDigest_hexText (length_digestOf _)
  canonical_emptyHash := isDigest_hexText (length_ofNumber _)
  canonical_blank := by decide +kernel

def setting : Setting where
  runtime := { Runtime.hashing [] with sha256 := fun message ↦ hexText (digestOf message) }
  sha256Digest := digestOf
  hexdigest _ := rfl
  suite := suite

theorem treeHash_pair {left right : String} (hleft : isDigest left) (hright : isDigest right) :
    treeHash suite [left, right] = .ok (suite.combine left right) := by
  have hsingle : ∀ text, isDigest text → treeHash suite [text] = .ok text := by
    intro text htext
    have hcanonical : ∀ leaf ∈ [text], suite.canonical leaf := by
      rw [List.forall_mem_singleton]
      exact htext
    rw [treeHash_eq_root _ hcanonical one_le_maxTreeLeaves]
    exact congrArg Except.ok (Library.BalancedTree.root_singleton _ _ _)
  have htwo : 2 ≤ maxTreeLeaves := le_trans (by decide) two_pow_le_maxTreeLeaves
  rw [treeHash_cut [left, right] (by simp) (by simpa using htwo)]
  have hpivot : Library.BalancedTree.pivot 2 = 1 := by decide
  rw [List.length_cons, List.length_singleton, hpivot]
  simp only [List.take_succ_cons, List.take_zero, List.drop_succ_cons, List.drop_zero, hsingle left hleft,
    hsingle right hright, Py.bind_ok]
  exact nodeHash_eq_ok hleft hright

def seed : String := hexText (List.replicate 32 0x12)

def nonce : String := hexText (List.replicate 32 0xab)

def entries : List Entry := [⟨"a", 500_000⟩, ⟨"bc", 250_000⟩]

def observations (second : ℤ) : List Observation := [⟨"a", 500_000, true, 400_000⟩, ⟨"bc", 250_000, false, second⟩]

def rowFields (row : Observation) : Row :=
  [("episode", .str row.episode), ("propensity", .int row.propensity), ("assigned", .bool row.assigned),
    ("outcome", .int row.outcome)]

def planOf (kind : Kind) (harmLimit : Option ℤ) (dp : Json) : Plan where
  study := "study"
  count := 2
  cohortRoot := hexText cohortDigest
  propensityMin := 250_000
  alpha := 50_000
  kind := kind
  harmLimit := harmLimit
  commitmentKey := hexText seedDigest
  dp := dp

def challengeOf (planHash : String) : Row := [("plan_hash", .str planHash), ("nonce", .str nonce)]

def witnessOf (plan : Plan) (planHash : String) (noiseSeed : Json) (second : ℤ) : Row :=
  [("plan", .obj plan.fields), ("challenge", .obj (challengeOf planHash)),
    ("rows", .arr ((observations second).map fun row ↦ .obj (rowFields row))), ("commitment_seed", .str seed),
    ("noise_seed", noiseSeed)]

def arguments (kind : Kind) (harmLimit : Option ℤ) (dp : Json) : PlanArguments where
  study := .str "study"
  commitmentKey := .str (hexText seedDigest)
  alpha := .int 50_000
  kind := .str kind.text
  harmLimit := optional .int harmLimit
  dp := dp

theorem cohort_entries : cohort (entries.map Entry.fields) = .ok entries := by decide

theorem cohortRoot_entries : cohortRoot setting (entries.map Entry.fields) = .ok (hexText cohortDigest) := by
  rw [cohortRoot, cohort_entries, Py.bind_ok]
  have hfirst : isDigest (setting.runtime.sha256 (2 :: identifier "a" ++ littleEndian 4 500_000)) :=
    isDigest_hexText (length_digestOf _)
  have hsecond : isDigest (setting.runtime.sha256 (2 :: identifier "bc" ++ littleEndian 4 250_000)) :=
    isDigest_hexText (length_digestOf _)
  refine (treeHash_pair hfirst hsecond).trans (congrArg (fun bytes ↦ Except.ok (hexText bytes)) ?_)
  rw [setting, fromHex_hexText, fromHex_hexText]
  decide +kernel

variable {harmLimit : Option ℤ} {dp : Json} {stem : Bytes}

theorem plan_entries {kind : Kind} (hlimit : planLimit kind (optional .int harmLimit) = .ok harmLimit)
    (hdp : dp = .null ∨ ∃ parameters, dpParameters (planOf kind harmLimit dp) = .ok parameters) :
    plan setting (entries.map Entry.fields) (arguments kind harmLimit dp) = .ok (planOf kind harmLimit dp) := by
  have hkind : planKind (.int 50_000) (.str kind.text) = .ok (50_000, kind) := by cases kind <;> rfl
  have hidentity : identity (.str "study") = .ok "study" := by decide
  have hleast : propensityMin entries = .ok 250_000 := by decide
  have hhex : hex (.str (hexText seedDigest)) = .ok (hexText seedDigest) := hex_hexText (length_ofNumber _)
  unfold plan arguments
  simp only [cohort_entries, hkind, hlimit, hidentity, cohortRoot_entries, hleast, hhex, Py.bind_ok]
  obtain rfl | ⟨parameters, hparameters⟩ := hdp
  · rfl
  · have hsame : dpParameters ⟨"study", entries.length, (hexText cohortDigest), 250_000, 50_000, kind, harmLimit,
        (hexText seedDigest), dp⟩ = .ok parameters := hparameters
    split
    · rfl
    · rw [hsame]
      rfl

/-- The digest of a plan. -/
structure Hashed (plan : Plan) (stem : Bytes) : Prop where
  wirable : Wirable (.obj plan.fields)
  digest_eq : digest setting.runtime (.obj plan.fields) = .ok (hexText stem)
  length_eq : stem.length = 32

theorem Hashed.hexBytes_eq {plan : Plan} (h : Hashed plan stem) :
    hexBytes (.str (hexText stem)) = .ok stem := hexBytes_hexText h.length_eq

theorem observe_row {plan : Plan} {row : Observation} (hhashed : Hashed plan stem)
    (hepisode : identity (.str row.episode) = .ok row.episode)
    (hpropensity : minPropensity ≤ row.propensity ∧ row.propensity ≤ scale - minPropensity)
    (houtcome : 0 ≤ row.outcome ∧ row.outcome ≤ scale)
    (hdraw : draw setting (Json.utf8 "unimem-effect-assignment-v1" ++ 0 :: List.replicate 32 0xab ++ stem ++
      identifier row.episode) row.propensity = some row.assigned) :
    observe setting plan.fields (challengeOf (hexText stem)) (rowFields row) = .ok row := by
  have hkeys : keysAre (rowFields row) ["episode", "propensity", "assigned", "outcome"] = true := by
    rw [keysAre_iff]
    exact List.Perm.refl _
  have hchallengeKeys : keysAre (challengeOf (hexText stem)) ["plan_hash", "nonce"] = true := by
    rw [keysAre_iff]
    exact List.Perm.refl _
  have hcount : countArgument (.int row.propensity) minPropensity (scale - minPropensity) "count" =
      .ok row.propensity := countArgument_eq_ok_iff.mpr ⟨rfl, hpropensity⟩
  have hassignment := assignment_eq hhashed.digest_eq hchallengeKeys (Origin.isText_iff.mpr rfl) hcount rfl
    (hexBytes_hexText List.length_replicate) hhashed.hexBytes_eq hepisode hdraw
  have houtcomeField : field (rowFields row) "outcome" = .ok (.int row.outcome) := rfl
  have hepisodeField : field (rowFields row) "episode" = .ok (.str row.episode) := rfl
  have hpropensityField : field (rowFields row) "propensity" = .ok (.int row.propensity) := rfl
  have hassignedField : assignedOf (rowFields row) = .ok row.assigned := rfl
  have hcountOutcome : countArgument (.int row.outcome) 0 scale "fixed-point outcome" = .ok row.outcome :=
    countArgument_eq_ok_iff.mpr ⟨rfl, houtcome⟩
  simp only [observe, hkeys, hassignedField, houtcomeField, hepisodeField, hpropensityField, hcountOutcome,
    hassignment, hepisode, hcount, decide_true, Py.require_true, Py.bind_ok]
  rfl

theorem rows_witnessOf {kind : Kind} {noiseSeed : Json} {second : ℤ}
    (hplan : plan setting (entries.map Entry.fields) (arguments kind harmLimit dp) = .ok (planOf kind harmLimit dp))
    (hhashed : Hashed (planOf kind harmLimit dp) stem) (hnoise : checkNoiseSeed setting dp noiseSeed = .ok ())
    (hsecond : 0 ≤ second ∧ second ≤ scale)
    (hdraw : draw setting (Json.utf8 "unimem-effect-assignment-v1" ++ 0 :: List.replicate 32 0xab ++ stem ++
      identifier "a") 500_000 = some true)
    (hdraw' : draw setting (Json.utf8 "unimem-effect-assignment-v1" ++ 0 :: List.replicate 32 0xab ++ stem ++
      identifier "bc") 250_000 = some false) :
    ∃ root, rows setting (witnessOf (planOf kind harmLimit dp) (hexText stem) noiseSeed second) =
      .ok (planOf kind harmLimit dp, observations second, root) := by
  have hkeys : keysAre (witnessOf (planOf kind harmLimit dp) (hexText stem) noiseSeed second)
      ["plan", "challenge", "rows", "commitment_seed", "noise_seed"] = true := by
    rw [keysAre_iff]
    exact List.Perm.refl _
  have hsubmission : submission (witnessOf (planOf kind harmLimit dp) (hexText stem) noiseSeed second) =
      .ok ((planOf kind harmLimit dp).fields, (observations second).map fun row ↦ .obj (rowFields row)) := by
    rw [submission, hkeys, Py.require_true, Py.bind_ok]
    rfl
  have hcohort : Py.collect (Py.always cohortFields) ((observations second).map fun row ↦ .obj (rowFields row)) =
      .ok (entries.map Entry.fields) := rfl
  have harguments : argumentsOf (planOf kind harmLimit dp).fields = .ok (arguments kind harmLimit dp) := rfl
  have hcount : count ((observations second).map fun row ↦ Json.obj (rowFields row)).length 2 maxCohort
      "proof witness row count" = .ok 2 := by
    rw [List.length_map]
    exact @count_of_mem 2 _ _ _ (by decide) (by decide)
  have hrebuild := rebuild_eq hcount hcohort cohort_entries harguments hplan hhashed.wirable
  have hkey : seedKey setting (.str seed) false = .ok (hexText seedDigest) := by
    rw [seedKey, seed, hexBytes_hexText List.length_replicate, Py.bind_ok]
    refine congrArg (fun bytes ↦ Except.ok (hexText bytes)) ?_
    decide +kernel
  have hsorted : sortBy episodeOf ((observations second).map rowFields) = (observations second).map rowFields := by
    have hepisodes : (fun row ↦ episodeOf (rowFields row)) = Observation.episode := rfl
    rw [sortBy_map, hepisodes]
    have hle : "a" ≤ "bc" := by decide
    have hpair : sortBy Observation.episode (observations second) = observations second := by
      simp [sortBy, observations, List.insertionSort, hle]
    rw [hpair]
  have hidentity : identity (.str "a") = .ok "a" := by decide
  have hidentity' : identity (.str "bc") = .ok "bc" := by decide
  have hobserved : Py.collect
      (Py.always (observe setting (planOf kind harmLimit dp).fields (challengeOf (hexText stem))))
      (sortBy episodeOf ((observations second).map rowFields)) = .ok (observations second) := by
    rw [hsorted, Py.collect_always_eq_ok_iff, List.forall₂_map_left_iff, List.forall₂_same]
    intro row hrow
    simp only [observations, List.mem_cons, List.not_mem_nil, or_false] at hrow
    obtain rfl | rfl := hrow
    · exact observe_row hhashed hidentity (by decide) (by decide) hdraw
    · have hbounds : minPropensity ≤ 250_000 ∧ 250_000 ≤ scale - minPropensity := by decide
      exact observe_row hhashed hidentity' hbounds hsecond hdraw'
  exact ⟨_, rows_eq hsubmission hrebuild rfl (hexBytes_hexText List.length_replicate) hkey
    (Origin.isText_iff.mpr rfl) rfl rfl hnoise rfl rfl hobserved
    (treeHash_pair (isDigest_hexText (length_digestOf _)) (isDigest_hexText (length_digestOf _)))⟩

def exactPlan : Plan := planOf .effect none .null

def exactDigest : Bytes := ofNumber 0xb791e2bc7a3e57f615026a67cd8fc6d03fd35b844f4fab42a3a64cc4aa3877d0

theorem facts_exactPlan :
    (fits (.obj exactPlan.fields) = true ∧ fits (.obj (challengeOf (hexText exactDigest))) = true ∧
      digestOf (canonicalBytes (.obj exactPlan.fields)) = exactDigest) ∧
    draw setting (Json.utf8 "unimem-effect-assignment-v1" ++ 0 :: List.replicate 32 0xab ++ exactDigest ++
      identifier "a") 500_000 = some true ∧
    draw setting (Json.utf8 "unimem-effect-assignment-v1" ++ 0 :: List.replicate 32 0xab ++ exactDigest ++
      identifier "bc") 250_000 = some false := by
  decide +kernel

theorem hashed_exactPlan : Hashed exactPlan exactDigest := by
  obtain ⟨⟨hfits, -, hdigest⟩, -⟩ := facts_exactPlan
  refine ⟨wirable_of_fits hfits, ?_, length_ofNumber _⟩
  rw [digest, (wirable_of_fits hfits).wire_eq, Py.map_ok]
  exact congrArg (fun bytes ↦ Except.ok (hexText bytes)) hdigest

def exactWitness : Row := witnessOf exactPlan (hexText exactDigest) .null 300_000

theorem rows_exactWitness : ∃ root, rows setting exactWitness = .ok (exactPlan, observations 300_000, root) :=
  rows_witnessOf (plan_entries rfl (Or.inl rfl)) hashed_exactPlan rfl (by decide) facts_exactPlan.2.1
    facts_exactPlan.2.2

theorem statement_exactWitness : ∃ root width challengeHash, statement setting exactWitness =
    .ok (report exactPlan ⟨200_000, width, some 100_000, none⟩ 2 root (hexText exactDigest) challengeHash) := by
  obtain ⟨root, hrows⟩ := rows_exactWitness
  have hvalue : estimate exactPlan.kind (observations 300_000) = .ok 200_000 := by decide
  have hratio : hajek exactPlan.kind (observations 300_000) = some 100_000 := by decide
  obtain ⟨width, hwidth⟩ : ∃ width, radius exactPlan false = .ok width := ⟨_, rfl⟩
  have hchallenge : Wirable (.obj (challengeOf (hexText exactDigest))) := wirable_of_fits facts_exactPlan.1.2.1
  have hseed : field exactWitness "noise_seed" = .ok .null := rfl
  have hfield : field exactWitness "challenge" = .ok (.obj (challengeOf (hexText exactDigest))) := rfl
  have hpublish : publish setting exactPlan 200_000 (some 100_000) .null =
      .ok ⟨200_000, width, some 100_000, none⟩ := by
    rw [publish, hwidth]
    rfl
  obtain ⟨challengeHash, hhash⟩ : ∃ text, digest setting.runtime (.obj (challengeOf (hexText exactDigest))) =
      .ok text := ⟨_, digest_eq_ok_iff.mpr ⟨hchallenge, rfl⟩⟩
  refine ⟨root, width, challengeHash, ?_⟩
  simp only [statement, hrows, hvalue, hratio, hseed, hfield, hpublish, hashed_exactPlan.digest_eq, hhash, Py.bind_ok]
  rfl

end Sample

open Sample in
/-- A statement over two rows has a Hajek contrast, within its error of the exact one. -/
theorem statement_within_rounding_errors_two_rows : ∃ result, statement setting exactWitness = .ok result ∧
    result.hajek = some 100_000 ∧
    ∃ registered observed root, rows setting exactWitness = .ok (registered, observed, root) ∧
      |(result.estimate : ℚ) - exactMean result.kind observed| ≤ result.roundingError ∧
      ∀ contrast, result.hajek = some contrast → ∃ bound, result.hajekRoundingError = some bound ∧
        |(contrast : ℚ) - exactHajek observed| ≤ bound := by
  obtain ⟨root, width, challengeHash, h⟩ := statement_exactWitness
  exact ⟨_, h, rfl, statement_within_rounding_errors setting rfl h⟩

end UniMem.ZkEffect
