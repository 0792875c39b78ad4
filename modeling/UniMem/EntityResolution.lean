import UniMem.Library.Banding
import UniMem.Library.Grouping
import UniMem.Python

/-!
# The MinHash tier of entity resolution

`_tiered_minhash_pairs` and the second tier of `tiered_candidates` find with bands what a comparison of all pairs
finds. Entropies and shares are exact; what other modules compute of a text is a parameter.
-/

namespace UniMem.EntityResolution

open Library Banding

/-- `DEFAULT_NUM_PERM`. -/
def defaultNumPerm : ℕ := 128

/-- `_MERSENNE_61`. -/
def mersenne61 : ℕ := 2 ^ 61 - 1

/-- What other modules compute. -/
structure Setting (𝕜 : Type) where
  /-- `kg_similarity.normalize`. -/
  normalize : String → String
  /-- `kg_similarity.ngrams`. -/
  ngrams : String → Finset String
  /-- `overlap._tokens`. -/
  tokens : String → Finset String
  stableHash : String → ℕ
  permutations : Fin defaultNumPerm → ℕ × ℕ
  log2 : 𝕜 → 𝕜
  /-- `ontology.ancestors`. -/
  ancestors : String → List String

/-- `_TieredSurface`. -/
structure Surface (𝕜 : Type) where
  forms : Finset String
  grams : Finset String
  entropy : 𝕜
  signature : List ℕ

variable {𝕜 : Type} [Field 𝕜] [LinearOrder 𝕜]

/-- `minhash`, with what the randomness of the system gives for an empty text. -/
def minhash (setting : Setting 𝕜) (draws : Fin defaultNumPerm → ℕ) (text : String) : List ℕ :=
  if setting.tokens text = ∅ then List.ofFn draws
  else List.ofFn fun place ↦
    (((setting.tokens text).image fun token ↦
      ((setting.permutations place).1 * setting.stableHash token + (setting.permutations place).2) %
        mersenne61).min).untopD 0

/-- The share of a character in a text. -/
def shareOf (text : List Char) (char : Char) : 𝕜 := (text.count char : 𝕜) / max 1 (text.length : 𝕜)

/-- The entropy of the characters of a text. -/
def entropyOf (log2 : 𝕜 → 𝕜) (text : List Char) : 𝕜 :=
  -∑ char ∈ text.toFinset, shareOf text char * log2 (shareOf text char)

/-- `_tiered_surface`. -/
def tieredSurface (setting : Setting 𝕜) (draws : Fin defaultNumPerm → ℕ) (forms : List String) : Surface 𝕜 :=
  let normalized := (forms.map setting.normalize).toFinset.filter (· ≠ "")
  let grams := normalized.biUnion setting.ngrams
  let text := " ".intercalate (normalized.sort (· ≤ ·))
  let signatureText := " ".intercalate ((grams.sort (· ≤ ·)).map fun gram ↦ gram.map fun char ↦
    if char = ' ' then '_' else char)
  { forms := normalized
    grams := grams
    entropy := entropyOf setting.log2 text.toList
    signature := if grams = ∅ then [] else minhash setting draws signatureText }

/-- `estimate_jaccard`. -/
def estimateJaccard (first second : List ℕ) : Py 𝕜 :=
  if first = [] ∨ second = [] ∨ first.length ≠ second.length then
    .error (.valueError "signatures must be non-empty and the same length")
  else .ok ((agreements first second : 𝕜) / first.length)

/-- The surfaces that reach the entropy threshold, with their places. -/
def eligible (surfaces : List (Surface 𝕜)) (entropyThreshold : 𝕜) : List (Surface 𝕜 × ℕ) :=
  surfaces.zipIdx.filter fun item ↦ entropyThreshold ≤ item.1.entropy

/-- The number of positions of a band. -/
def bandSize : ℕ := 4

/-- The number of bands of a signature. -/
def bandCount : ℕ := defaultNumPerm / bandSize

/-- The buckets of the bands, and the pairs found so far. -/
structure Scan where
  buckets : ℕ × List ℕ → List ℕ
  pairs : List (ℕ × ℕ)

/-- One band of a signature: its place is paired with those in its bucket, and put in. -/
def Scan.visit (signature : List ℕ) (index : ℕ) (scan : Scan) (bandIndex : ℕ) : Scan :=
  let key := (bandIndex, band bandSize bandIndex signature)
  ⟨Function.update scan.buckets key (scan.buckets key ++ [index]),
    scan.pairs ++ (scan.buckets key).map fun other ↦ (other, index)⟩

/-- The bands of one surface. -/
def Scan.visitAll (scan : Scan) (item : Surface 𝕜 × ℕ) : Scan :=
  (List.range bandCount).foldl (Scan.visit item.1.signature item.2) scan

/-- `_tiered_minhash_pairs`. -/
def tieredMinhashPairs (surfaces : List (Surface 𝕜)) (entropyThreshold minhashThreshold : 𝕜) : Finset (ℕ × ℕ) :=
  let eligible := eligible surfaces entropyThreshold
  if eligible.length < 2 then ∅
  else if minhashThreshold ≤ 3 / 4 ∨ ¬eligible.all fun item ↦ item.1.signature.length = defaultNumPerm then
    (orderedPairs (eligible.map Prod.snd)).toFinset
  else (eligible.foldl Scan.visitAll ⟨fun _ ↦ [], []⟩).pairs.toFinset

/-- A node and its surface. -/
structure Entity (𝕜 : Type) where
  entityType : String
  surface : Surface 𝕜

/-- `FALLBACK_TYPE`. -/
def fallbackType : String := "concept"

/-- `compatible`. -/
def compatible (setting : Setting 𝕜) (first second : String) : Bool :=
  first = fallbackType || second = fallbackType || first ∈ setting.ancestors second || second ∈ setting.ancestors
    first

/-- `kg_similarity.jaccard`. -/
def jaccard (first second : Finset String) : 𝕜 :=
  if (first ∪ second).card = 0 then 0 else ((first ∩ second).card : 𝕜) / (first ∪ second).card

/-- The similarity of two signatures, zero where one is empty. -/
def similarity (first second : Surface 𝕜) : Py 𝕜 :=
  if first.signature ≠ [] ∧ second.signature ≠ [] then estimateJaccard first.signature second.signature else .ok 0

/-- The thresholds of the second tier. -/
structure Thresholds (𝕜 : Type) where
  entropy : 𝕜
  minhash : 𝕜
  jaccard : 𝕜

/-- The pairs that were found, with their tier and score. -/
abbrev Found (𝕜 : Type) := List ((ℕ × ℕ) × (String × 𝕜))

/-- `found.get(pair)`. -/
def Found.get? (found : Found 𝕜) (pair : ℕ × ℕ) : Option (String × 𝕜) :=
  @List.lookup _ _ instBEqOfDecidableEq pair found

/-- `values[index]`. -/
def item {α : Type} (values : List α) (index : ℕ) : Py α :=
  match values[index]? with
  | some value => .ok value
  | none => .error (.indexError "list index out of range")

/-- One pair of the second tier. -/
def tierStep (setting : Setting 𝕜) (thresholds : Thresholds 𝕜) (entities : List (Entity 𝕜)) (found : Found 𝕜)
    (pair : ℕ × ℕ) : Py (Found 𝕜) := do
  let first ← item entities pair.1
  let second ← item entities pair.2
  if (Found.get? found pair).isSome ∨ !compatible setting first.entityType second.entityType then return found
  else
    let score ← similarity first.surface second.surface
    if thresholds.minhash ≤ score ∧ thresholds.jaccard ≤ jaccard first.surface.grams second.surface.grams then
      return assign pair ("minhash", score) found
    else return found

/-- The second tier of `tiered_candidates`, over the pairs in the order of a set. -/
def secondTier (setting : Setting 𝕜) (thresholds : Thresholds 𝕜) (entities : List (Entity 𝕜)) (found : Found 𝕜)
    (order : List (ℕ × ℕ)) : Py (Found 𝕜) :=
  order.foldlM (tierStep setting thresholds entities) found

/-- One pair of the comparison of all pairs; both surfaces must reach the entropy threshold. -/
def exhaustiveStep (setting : Setting 𝕜) (thresholds : Thresholds 𝕜) (entities : List (Entity 𝕜)) (found : Found 𝕜)
    (pair : ℕ × ℕ) : Py (Found 𝕜) := do
  let first ← item entities pair.1
  let second ← item entities pair.2
  if min first.surface.entropy second.surface.entropy < thresholds.entropy then return found
  else tierStep setting thresholds entities found pair

/-- A comparison of all pairs of entities. -/
def exhaustiveTier (setting : Setting 𝕜) (thresholds : Thresholds 𝕜) (entities : List (Entity 𝕜)) (found : Found 𝕜) :
    Py (Found 𝕜) :=
  (orderedPairs (List.range entities.length)).foldlM (exhaustiveStep setting thresholds entities) found

section Scan

omit [Field 𝕜] [LinearOrder 𝕜]

/-- Two signatures share a band. -/
def SharesBand (first second : List ℕ) : Prop :=
  ∃ index < bandCount, band bandSize index first = band bandSize index second

theorem visits_eq (signature : List ℕ) (index : ℕ) (scan : Scan) (count : ℕ) :
    (∀ key, ((List.range count).foldl (Scan.visit signature index) scan).buckets key =
        if key.1 < count ∧ key.2 = band bandSize key.1 signature then scan.buckets key ++ [index]
        else scan.buckets key) ∧ ∀ pair, pair ∈ ((List.range count).foldl (Scan.visit signature index) scan).pairs ↔
        pair ∈ scan.pairs ∨
          pair.2 = index ∧ ∃ place < count, pair.1 ∈ scan.buckets (place, band bandSize place signature) := by
  induction count with
  | zero => simp
  | succ count ih =>
    obtain ⟨hbuckets, hpairs⟩ := ih
    have hown : ((List.range count).foldl (Scan.visit signature index) scan).buckets
        (count, band bandSize count signature) = scan.buckets (count, band bandSize count signature) := by
      rw [hbuckets, if_neg fun h ↦ absurd h.1 (lt_irrefl _)]
    rw [List.range_succ, List.foldl_append, List.foldl_cons, List.foldl_nil]
    constructor
    · rintro ⟨place, values⟩
      dsimp only [Scan.visit]
      rw [hown]
      by_cases hkey : (place, values) = (count, band bandSize count signature)
      · obtain ⟨rfl, rfl⟩ := Prod.mk.inj hkey
        rw [Function.update_self, if_pos ⟨Nat.lt_succ_self _, rfl⟩]
      · rw [Function.update_of_ne hkey, hbuckets]
        refine if_congr ?_ rfl rfl
        constructor
        · exact fun h ↦ ⟨Nat.lt_succ_of_lt h.1, h.2⟩
        · rintro ⟨hplace, hvalues⟩
          refine ⟨lt_of_le_of_ne (Nat.lt_succ_iff.mp hplace) ?_, hvalues⟩
          rintro rfl
          exact hkey (by rw [hvalues])
    · rintro ⟨first, second⟩
      dsimp only [Scan.visit]
      rw [hown, List.mem_append, hpairs, or_assoc]
      refine or_congr_right ?_
      constructor
      · rintro (⟨hsecond, place, hplace, hmem⟩ | hmem)
        · exact ⟨hsecond, place, Nat.lt_succ_of_lt hplace, hmem⟩
        · obtain ⟨other, hother, heq⟩ := List.mem_map.mp hmem
          obtain ⟨rfl, rfl⟩ := Prod.mk.inj heq
          exact ⟨rfl, count, Nat.lt_succ_self _, hother⟩
      · rintro ⟨hsecond, place, hplace, hmem⟩
        obtain hlt | rfl := Nat.lt_succ_iff_lt_or_eq.mp hplace
        · exact Or.inl ⟨hsecond, place, hlt, hmem⟩
        · subst hsecond
          exact Or.inr (List.mem_map_of_mem hmem)

theorem scan_eq (items : List (Surface 𝕜 × ℕ)) :
    (∀ key, (items.foldl Scan.visitAll ⟨fun _ ↦ [], []⟩).buckets key =
        (items.filter fun item ↦ key.1 < bandCount ∧ key.2 = band bandSize key.1 item.1.signature).map Prod.snd) ∧
      ∀ pair, pair ∈ (items.foldl Scan.visitAll ⟨fun _ ↦ [], []⟩).pairs ↔
        ∃ first second, [first, second].Sublist items ∧ (first.2, second.2) = pair ∧
          SharesBand first.1.signature second.1.signature := by
  induction items using List.reverseRecOn with
  | nil => simp
  | append_singleton items last ih =>
    obtain ⟨hbuckets, hpairs⟩ := ih
    rw [List.foldl_append, List.foldl_cons, List.foldl_nil]
    obtain ⟨hvisit, hvisited⟩ := visits_eq last.1.signature last.2 (items.foldl Scan.visitAll ⟨fun _ ↦ [], []⟩)
      bandCount
    constructor
    · intro key
      rw [Scan.visitAll, hvisit, hbuckets, List.filter_append, List.map_append, List.filter_singleton]
      by_cases hkey : key.1 < bandCount ∧ key.2 = band bandSize key.1 last.1.signature
      · simp [hkey]
      · simp [hkey]
    · rintro ⟨first, second⟩
      rw [Scan.visitAll, hvisited, hpairs]
      constructor
      · rintro (⟨left, right, hsublist, hrest⟩ | ⟨hsecond, place, hplace, hmem⟩)
        · exact ⟨left, right, pair_sublist_concat.mpr (Or.inl hsublist), hrest⟩
        · rw [hbuckets] at hmem
          obtain ⟨left, hleft, hfirst⟩ := List.mem_map.mp hmem
          obtain ⟨hitem, hshares⟩ := List.mem_filter.mp hleft
          refine ⟨left, last, pair_sublist_concat.mpr (Or.inr ⟨hitem, rfl⟩), ?_, place, hplace, ?_⟩
          · exact Prod.ext hfirst hsecond.symm
          · exact (of_decide_eq_true hshares).2.symm
      · rintro ⟨left, right, hsublist, heq, place, hplace, hband⟩
        obtain hsublist | ⟨hleft, rfl⟩ := pair_sublist_concat.mp hsublist
        · exact Or.inl ⟨left, right, hsublist, heq, place, hplace, hband⟩
        · obtain ⟨rfl, rfl⟩ := Prod.mk.inj heq
          refine Or.inr ⟨rfl, place, hplace, ?_⟩
          rw [hbuckets]
          exact List.mem_map_of_mem (List.mem_filter.mpr ⟨hleft, decide_eq_true ⟨hplace, hband.symm⟩⟩)

end Scan

section Pairs

variable {surfaces : List (Surface 𝕜)} {entropyThreshold minhashThreshold : 𝕜} {first second : Surface 𝕜} {a b : ℕ}

omit [Field 𝕜] in
theorem mem_eligible {item : Surface 𝕜 × ℕ} :
    item ∈ eligible surfaces entropyThreshold ↔
      surfaces[item.2]? = some item.1 ∧ entropyThreshold ≤ item.1.entropy := by
  rw [eligible, List.mem_filter, List.mem_zipIdx_iff_getElem?, decide_eq_true_eq]

omit [Field 𝕜] in
theorem pairwise_eligible (surfaces : List (Surface 𝕜)) (entropyThreshold : 𝕜) :
    (eligible surfaces entropyThreshold).Pairwise (·.2 < ·.2) := by
  apply List.Pairwise.filter
  rw [← List.pairwise_map (f := Prod.snd), List.zipIdx_map_snd]
  exact List.pairwise_lt_range'

theorem mem_tieredMinhashPairs_iff :
    (a, b) ∈ tieredMinhashPairs surfaces entropyThreshold minhashThreshold ↔
      ∃ first second, [(first, a), (second, b)].Sublist (eligible surfaces entropyThreshold) ∧
        (3 / 4 < minhashThreshold →
          (∀ item ∈ eligible surfaces entropyThreshold, item.1.signature.length = defaultNumPerm) →
          SharesBand first.signature second.signature) := by
  unfold tieredMinhashPairs
  dsimp only
  split_ifs with hshort hall
  · simp only [Finset.notMem_empty, false_iff, not_exists, not_and]
    intro first second hsublist
    have hlength := hsublist.length_le
    simp only [List.length_cons, List.length_nil] at hlength
    omega
  · rw [List.mem_toFinset, mem_orderedPairs]
    constructor
    · intro hsublist
      obtain ⟨items, hitems, hmap⟩ := List.sublist_map_iff.mp hsublist
      match items, hmap with
      | [(first, _), (second, _)], hmap =>
        obtain ⟨rfl, hrest⟩ := List.cons.inj hmap
        obtain rfl := (List.cons.inj hrest).1
        refine ⟨first, second, hitems, fun hthreshold hlengths ↦ ?_⟩
        obtain hle | hsome := hall
        · exact absurd hthreshold (not_lt.mpr hle)
        · exact absurd (List.all_eq_true.mpr fun item hitem ↦ decide_eq_true (hlengths item hitem)) hsome
    · rintro ⟨first, second, hsublist, -⟩
      exact hsublist.map Prod.snd
  · rw [List.mem_toFinset, (scan_eq _).2]
    obtain ⟨hthreshold, hlengths⟩ := not_or.mp hall
    rw [not_not, List.all_eq_true] at hlengths
    constructor
    · rintro ⟨⟨first, _⟩, ⟨second, _⟩, hsublist, heq, hshares⟩
      obtain ⟨rfl, rfl⟩ := Prod.mk.inj heq
      exact ⟨first, second, hsublist, fun _ _ ↦ hshares⟩
    · rintro ⟨first, second, hsublist, hshares⟩
      exact ⟨_, _, hsublist, rfl, hshares (not_le.mp hthreshold) fun item hitem ↦
        of_decide_eq_true (hlengths item hitem)⟩

theorem sound_of_mem_tieredMinhashPairs (h : (a, b) ∈ tieredMinhashPairs surfaces entropyThreshold minhashThreshold) :
    a < b ∧ ∃ first second, surfaces[a]? = some first ∧ surfaces[b]? = some second ∧
      entropyThreshold ≤ first.entropy ∧ entropyThreshold ≤ second.entropy := by
  obtain ⟨first, second, hsublist, -⟩ := mem_tieredMinhashPairs_iff.mp h
  obtain ⟨hfirst, hsecond, hlt⟩ := (pair_sublist_iff (pairwise_eligible surfaces entropyThreshold)).mp hsublist
  obtain ⟨ha, hentropy⟩ := mem_eligible.mp hfirst
  obtain ⟨hb, hentropy'⟩ := mem_eligible.mp hsecond
  exact ⟨hlt, first, second, ha, hb, hentropy, hentropy'⟩

/-- The signatures agree in a share of their positions, if neither is empty. -/
def Agree (threshold : 𝕜) (first second : List ℕ) : Prop :=
  first ≠ [] → second ≠ [] → ∀ share, estimateJaccard first second = .ok share → threshold ≤ share

variable [IsStrictOrderedRing 𝕜]

theorem sharesBand_of_agree {first second : List ℕ} (hthreshold : 3 / 4 < minhashThreshold)
    (hfirst : first.length = defaultNumPerm) (hsecond : second.length = defaultNumPerm)
    (h : Agree minhashThreshold first second) : SharesBand first second := by
  have hne : first ≠ [] := by
    rintro rfl
    cases hfirst
  have hne' : second ≠ [] := by
    rintro rfl
    cases hsecond
  have hestimate : estimateJaccard first second = .ok ((agreements first second : 𝕜) / first.length) := by
    apply if_neg
    rw [not_or, not_or, not_not]
    exact ⟨hne, hne', hfirst.trans hsecond.symm⟩
  have hshare : 3 / 4 < (agreements first second : 𝕜) / first.length :=
    hthreshold.trans_le (h hne hne' _ hestimate)
  have hcast : (first.length : 𝕜) = 128 := by
    rw [hfirst]
    norm_num [defaultNumPerm]
  rw [hcast, lt_div_iff₀ (by norm_num)] at hshare
  have hcount : 96 < agreements first second := by
    have hreal : ((96 : ℕ) : 𝕜) < agreements first second := by
      refine lt_of_eq_of_lt ?_ hshare
      norm_num
    exact_mod_cast hreal
  have hbands : bandCount = 32 := rfl
  apply exists_band_eq (hfirst.trans (by decide)) (hsecond.trans (by decide))
  rw [hbands, bandSize]
  omega

theorem mem_tieredMinhashPairs (hlt : a < b) (ha : surfaces[a]? = some first) (hb : surfaces[b]? = some second)
    (hfirst : entropyThreshold ≤ first.entropy) (hsecond : entropyThreshold ≤ second.entropy)
    (h : Agree minhashThreshold first.signature second.signature) :
    (a, b) ∈ tieredMinhashPairs surfaces entropyThreshold minhashThreshold := by
  have hmem : (first, a) ∈ eligible surfaces entropyThreshold := mem_eligible.mpr ⟨ha, hfirst⟩
  have hmem' : (second, b) ∈ eligible surfaces entropyThreshold := mem_eligible.mpr ⟨hb, hsecond⟩
  refine mem_tieredMinhashPairs_iff.mpr ⟨first, second,
    (pair_sublist_iff (pairwise_eligible surfaces entropyThreshold)).mpr ⟨hmem, hmem', hlt⟩, ?_⟩
  intro hthreshold hlengths
  exact sharesBand_of_agree hthreshold (hlengths _ hmem) (hlengths _ hmem') h

end Pairs

section Tier

/-- A step adds what is accepted of one pair, where nothing is found of it. -/
def Adds (accepts : ℕ × ℕ → String × 𝕜 → Prop) (step : Found 𝕜 → ℕ × ℕ → Py (Found 𝕜)) (pair : ℕ × ℕ) : Prop :=
  ∀ found, ∃ next, step found pair = .ok next ∧ ∀ wanted value, Found.get? next wanted = some value ↔
    Found.get? found wanted = some value ∨ Found.get? found wanted = none ∧ wanted = pair ∧ accepts wanted value

omit [Field 𝕜] [LinearOrder 𝕜] in
theorem exists_foldlM_of_adds {accepts : ℕ × ℕ → String × 𝕜 → Prop} {step : Found 𝕜 → ℕ × ℕ → Py (Found 𝕜)}
    (hunique : ∀ pair value other, accepts pair value → accepts pair other → value = other) {order : List (ℕ × ℕ)}
    (hadds : ∀ pair ∈ order, Adds accepts step pair) (found : Found 𝕜) :
    ∃ final, order.foldlM step found = .ok final ∧ ∀ wanted value, Found.get? final wanted = some value ↔
      Found.get? found wanted = some value ∨ Found.get? found wanted = none ∧ wanted ∈ order ∧
        accepts wanted value := by
  induction order generalizing found with
  | nil => exact ⟨found, rfl, by simp⟩
  | cons pair order ih =>
    obtain ⟨hpair, horder⟩ := List.forall_mem_cons.mp hadds
    obtain ⟨next, hnext, hstep⟩ := hpair found
    obtain ⟨final, hfinal, hrest⟩ := ih horder next
    refine ⟨final, ?_, ?_⟩
    · rw [List.foldlM_cons, hnext]
      exact hfinal
    · intro wanted value
      rw [hrest, hstep, List.mem_cons]
      constructor
      · rintro ((hfound | ⟨hnone, hwanted, haccepts⟩) | ⟨hnone, hwanted, haccepts⟩)
        · exact Or.inl hfound
        · exact Or.inr ⟨hnone, Or.inl hwanted, haccepts⟩
        · refine Or.inr ⟨?_, Or.inr hwanted, haccepts⟩
          cases hfound : Found.get? found wanted with
          | none => rfl
          | some old =>
            rw [(hstep wanted old).mpr (Or.inl hfound)] at hnone
            cases hnone
      · rintro (hfound | ⟨hnone, hwanted, haccepts⟩)
        · exact Or.inl (Or.inl hfound)
        · cases hlookup : Found.get? next wanted with
          | none =>
            obtain hwanted | hwanted := hwanted
            · exact Or.inl (Or.inr ⟨hnone, hwanted, haccepts⟩)
            · exact Or.inr ⟨rfl, hwanted, haccepts⟩
          | some other =>
            obtain hfound | ⟨-, hpair, hother⟩ := (hstep wanted other).mp hlookup
            · rw [hfound] at hnone
              cases hnone
            · rw [hunique wanted value other haccepts hother]
              exact Or.inl (Or.inr ⟨hnone, hpair, hother⟩)

variable {setting : Setting 𝕜} {thresholds : Thresholds 𝕜} {entities : List (Entity 𝕜)} {pair : ℕ × ℕ}

/-- A signature has no position or all of them. -/
def Uniform (entities : List (Entity 𝕜)) : Prop :=
  ∀ entity ∈ entities, entity.surface.signature = [] ∨ entity.surface.signature.length = defaultNumPerm

/-- What the second tier accepts of a pair. -/
def Accepts (setting : Setting 𝕜) (thresholds : Thresholds 𝕜) (entities : List (Entity 𝕜)) (pair : ℕ × ℕ)
    (value : String × 𝕜) : Prop :=
  ∃ first second score, entities[pair.1]? = some first ∧ entities[pair.2]? = some second ∧
    compatible setting first.entityType second.entityType = true ∧ similarity first.surface second.surface =
      .ok score ∧
    thresholds.minhash ≤ score ∧ thresholds.jaccard ≤ jaccard first.surface.grams second.surface.grams ∧
    value = ("minhash", score)

theorem Accepts.unique {value other : String × 𝕜} (h : Accepts setting thresholds entities pair value)
    (h' : Accepts setting thresholds entities pair other) : value = other := by
  obtain ⟨first, second, score, hfirst, hsecond, -, hscore, -, -, rfl⟩ := h
  obtain ⟨first', second', score', hfirst', hsecond', -, hscore', -, -, rfl⟩ := h'
  obtain rfl := Option.some.inj (hfirst.symm.trans hfirst')
  obtain rfl := Option.some.inj (hsecond.symm.trans hsecond')
  rw [Except.ok.inj (hscore.symm.trans hscore')]

omit [LinearOrder 𝕜] in
theorem exists_similarity (h : Uniform entities) {first second : Entity 𝕜} (hfirst : first ∈ entities)
    (hsecond : second ∈ entities) : ∃ score, similarity first.surface second.surface = .ok score := by
  unfold similarity
  split_ifs with hne
  · have hlength := (h first hfirst).resolve_left hne.1
    have hlength' := (h second hsecond).resolve_left hne.2
    refine ⟨_, if_neg ?_⟩
    rw [not_or, not_or, not_not]
    exact ⟨hne.1, hne.2, hlength.trans hlength'.symm⟩
  · exact ⟨0, rfl⟩

theorem item_eq_ok {α : Type} {values : List α} {index : ℕ} {value : α} (h : values[index]? = some value) :
    item values index = .ok value := by
  rw [item, h]

omit [Field 𝕜] [LinearOrder 𝕜] in
theorem get?_assign (found : Found 𝕜) (wanted : ℕ × ℕ) (value : String × 𝕜) :
    Found.get? (assign pair value found) wanted = if wanted = pair then some value else Found.get? found wanted :=
  lookup_assign pair wanted value found

theorem adds_tierStep (h : Uniform entities) {first second : Entity 𝕜} (hfirst : entities[pair.1]? = some first)
    (hsecond : entities[pair.2]? = some second) :
    Adds (Accepts setting thresholds entities) (tierStep setting thresholds entities) pair := by
  intro found
  obtain ⟨score, hscore⟩ := exists_similarity h (List.mem_of_getElem? hfirst) (List.mem_of_getElem? hsecond)
  unfold tierStep
  rw [item_eq_ok hfirst, item_eq_ok hsecond, Py.bind_ok, Py.bind_ok]
  split_ifs with hskip
  · refine ⟨found, rfl, fun wanted value ↦ ⟨Or.inl, ?_⟩⟩
    rintro (hfound | ⟨hnone, rfl, first', second', -, hfirst', hsecond', hcompatible, -⟩)
    · exact hfound
    · obtain rfl := Option.some.inj (hfirst.symm.trans hfirst')
      obtain rfl := Option.some.inj (hsecond.symm.trans hsecond')
      rw [hnone, hcompatible] at hskip
      simp at hskip
  · rw [hscore, Py.bind_ok]
    rw [not_or, Bool.not_eq_true, Option.isSome_eq_false_iff, Option.isNone_iff_eq_none, Bool.not_eq_true,
      Bool.not_eq_false'] at hskip
    obtain ⟨hnone, hcompatible⟩ := hskip
    split_ifs with hscores
    · refine ⟨_, rfl, fun wanted value ↦ ?_⟩
      rw [get?_assign]
      by_cases hwanted : wanted = pair
      · subst hwanted
        rw [if_pos rfl, hnone]
        constructor
        · intro hvalue
          obtain rfl := Option.some.inj hvalue
          exact Or.inr ⟨rfl, rfl, first, second, score, hfirst, hsecond, hcompatible, hscore, hscores.1, hscores.2,
            rfl⟩
        · rintro (hfound | ⟨-, -, haccepts⟩)
          · cases hfound
          · rw [haccepts.unique ⟨first, second, score, hfirst, hsecond, hcompatible, hscore, hscores.1, hscores.2,
              rfl⟩]
      · rw [if_neg hwanted]
        exact ⟨Or.inl, fun hor ↦ hor.resolve_right fun hright ↦ hwanted hright.2.1⟩
    · refine ⟨found, rfl, fun wanted value ↦ ⟨Or.inl, ?_⟩⟩
      rintro (hfound | ⟨-, rfl, first', second', score', hfirst', hsecond', -, hscore', hminhash, hjaccard, -⟩)
      · exact hfound
      · obtain rfl := Option.some.inj (hfirst.symm.trans hfirst')
        obtain rfl := Option.some.inj (hsecond.symm.trans hsecond')
        obtain rfl := Except.ok.inj (hscore.symm.trans hscore')
        exact absurd ⟨hminhash, hjaccard⟩ hscores

/-- What the comparison of all pairs accepts of a pair. -/
def AcceptsAll (setting : Setting 𝕜) (thresholds : Thresholds 𝕜) (entities : List (Entity 𝕜)) (pair : ℕ × ℕ)
    (value : String × 𝕜) : Prop :=
  Accepts setting thresholds entities pair value ∧ ∀ first second, entities[pair.1]? = some first →
    entities[pair.2]? = some second → thresholds.entropy ≤ min first.surface.entropy second.surface.entropy

theorem adds_exhaustiveStep (h : Uniform entities) {first second : Entity 𝕜} (hfirst : entities[pair.1]? = some first)
    (hsecond : entities[pair.2]? = some second) :
    Adds (AcceptsAll setting thresholds entities) (exhaustiveStep setting thresholds entities) pair := by
  intro found
  unfold exhaustiveStep
  rw [item_eq_ok hfirst, item_eq_ok hsecond, Py.bind_ok, Py.bind_ok]
  split_ifs with hentropy
  · refine ⟨found, rfl, fun wanted value ↦ ⟨Or.inl, ?_⟩⟩
    rintro (hfound | ⟨-, rfl, -, hreaches⟩)
    · exact hfound
    · exact absurd hentropy (not_lt.mpr (hreaches first second hfirst hsecond))
  · obtain ⟨next, hnext, hadds⟩ := @adds_tierStep _ _ _ setting thresholds _ _ h _ _ hfirst hsecond found
    refine ⟨next, hnext, fun wanted value ↦ ?_⟩
    rw [hadds]
    refine or_congr_right (and_congr_right fun _ ↦ and_congr_right ?_)
    rintro rfl
    refine ⟨fun haccepts ↦ ⟨haccepts, fun first' second' hfirst' hsecond' ↦ ?_⟩, And.left⟩
    obtain rfl := Option.some.inj (hfirst.symm.trans hfirst')
    obtain rfl := Option.some.inj (hsecond.symm.trans hsecond')
    exact not_lt.mp hentropy

theorem mem_orderedPairs_range {count : ℕ} : pair ∈ orderedPairs (List.range count) ↔ pair.1 < pair.2 ∧
    pair.2 < count := by
  obtain ⟨a, b⟩ := pair
  rw [mem_orderedPairs, @pair_sublist_iff ℕ id _ List.pairwise_lt_range, List.mem_range, List.mem_range]
  dsimp only [id]
  omega

variable [IsStrictOrderedRing 𝕜]

theorem secondTier_eq_exhaustiveTier (h : Uniform entities) (found : Found 𝕜) {order : List (ℕ × ℕ)}
    (horder : ∀ pair, pair ∈ order ↔
      pair ∈ tieredMinhashPairs (entities.map Entity.surface) thresholds.entropy thresholds.minhash) :
    ∃ tiered exhaustive, secondTier setting thresholds entities found order = .ok tiered ∧
      exhaustiveTier setting thresholds entities found = .ok exhaustive ∧
      ∀ pair, Found.get? tiered pair = Found.get? exhaustive pair := by
  have hsurface : ∀ {index : ℕ} {surface : Surface 𝕜}, (entities.map Entity.surface)[index]? = some surface →
      ∃ entity, entities[index]? = some entity ∧ entity.surface = surface := by
    intro index surface hindex
    rw [List.getElem?_map] at hindex
    exact Option.map_eq_some_iff.mp hindex
  have hpairs : ∀ pair ∈ order, Adds (Accepts setting thresholds entities) (tierStep setting thresholds entities)
    pair := by
    intro pair hpair
    obtain ⟨-, _, _, hplace, hplace', -⟩ := sound_of_mem_tieredMinhashPairs ((horder pair).mp hpair)
    obtain ⟨first, hfirst, -⟩ := hsurface hplace
    obtain ⟨second, hsecond, -⟩ := hsurface hplace'
    exact adds_tierStep h hfirst hsecond
  obtain ⟨tiered, htiered, hlookup⟩ := exists_foldlM_of_adds (fun _ _ _ h h' ↦ h.unique h') hpairs found
  have hall : ∀ pair ∈ orderedPairs (List.range entities.length),
      Adds (AcceptsAll setting thresholds entities) (exhaustiveStep setting thresholds entities) pair := by
    intro pair hpair
    obtain ⟨hlt, hlength⟩ := mem_orderedPairs_range.mp hpair
    exact @adds_exhaustiveStep _ _ _ setting thresholds _ _ h _ _ (List.getElem?_eq_getElem (hlt.trans hlength))
      (List.getElem?_eq_getElem hlength)
  obtain ⟨exhaustive, hexhaustive, hlookup'⟩ := exists_foldlM_of_adds (fun _ _ _ h h' ↦ h.1.unique h'.1) hall found
  refine ⟨tiered, exhaustive, htiered, hexhaustive, fun pair ↦ Option.ext fun value ↦ ?_⟩
  rw [hlookup, hlookup']
  refine or_congr_right (and_congr_right fun _ ↦ ?_)
  constructor
  · rintro ⟨hmem, haccepts⟩
    obtain ⟨hlt, _, _, hplace, hplace', hentropy, hentropy'⟩ :=
      sound_of_mem_tieredMinhashPairs ((horder pair).mp hmem)
    obtain ⟨first, hfirst, rfl⟩ := hsurface hplace
    obtain ⟨second, hsecond, rfl⟩ := hsurface hplace'
    refine ⟨mem_orderedPairs_range.mpr ⟨hlt, (List.getElem?_eq_some_iff.mp hsecond).1⟩, haccepts, ?_⟩
    intro first' second' hfirst' hsecond'
    obtain rfl := Option.some.inj (hfirst.symm.trans hfirst')
    obtain rfl := Option.some.inj (hsecond.symm.trans hsecond')
    exact le_min hentropy hentropy'
  · rintro ⟨hmem, haccepts, hreaches⟩
    obtain ⟨first, second, score, hfirst, hsecond, -, hscore, hminhash, -⟩ := id haccepts
    have hentropy := hreaches first second hfirst hsecond
    refine ⟨(horder pair).mpr (mem_tieredMinhashPairs (mem_orderedPairs_range.mp hmem).1 ?_ ?_
      (hentropy.trans (min_le_left _ _)) (hentropy.trans (min_le_right _ _)) ?_), haccepts⟩
    · rw [List.getElem?_map, hfirst]
      rfl
    · rw [List.getElem?_map, hsecond]
      rfl
    · intro hne hne' share hshare
      rw [similarity, if_pos ⟨hne, hne'⟩, hshare] at hscore
      rw [Except.ok.inj hscore]
      exact hminhash

end Tier

/-- A node: its type, its forms and what the system's randomness gives for them. -/
structure Candidate where
  entityType : String
  forms : List String
  draws : Fin defaultNumPerm → ℕ

/-- The nodes with their surfaces. -/
def entitiesOf (setting : Setting 𝕜) (nodes : List Candidate) : List (Entity 𝕜) :=
  nodes.map fun node ↦ ⟨node.entityType, tieredSurface setting node.draws node.forms⟩

theorem uniform_entitiesOf (setting : Setting 𝕜) (nodes : List Candidate) : Uniform (entitiesOf setting nodes) := by
  intro entity hentity
  obtain ⟨node, -, rfl⟩ := List.mem_map.mp hentity
  dsimp only [tieredSurface, minhash]
  split_ifs
  · exact Or.inl rfl
  · exact Or.inr List.length_ofFn
  · exact Or.inr List.length_ofFn

/-- A surface with a full signature. -/
def Sample.surface : Surface ℚ := ⟨∅, ∅, 3, List.replicate defaultNumPerm 7⟩

end UniMem.EntityResolution
