import UniMem.ZkEffect.Witnesses

/-!
# What accepted witnesses look like

The rows of an accepted witness have outcomes and propensities within their bounds, and the plan states their number
and a lower bound on the probability of each arm.
-/

namespace UniMem.ZkEffect

open Library FrontierProtocol TransparencyLog

/-- Rows that a plan describes. -/
structure Accepted (plan : Plan) (rows : List Observation) : Prop where
  count_eq : plan.count = rows.length
  two_le : 2 ≤ rows.length
  length_le : (rows.length : ℤ) ≤ maxCohort
  outcome : ∀ row ∈ rows, 0 ≤ row.outcome ∧ row.outcome ≤ scale
  propensity : ∀ row ∈ rows, minPropensity ≤ row.propensity ∧ row.propensity ≤ scale - minPropensity
  minimum : ∀ row ∈ rows, plan.propensityMin ≤ row.propensity ∧ plan.propensityMin ≤ scale - row.propensity
  minPropensity_le : minPropensity ≤ plan.propensityMin

/-- The noise profile of the plan of a witness. -/
def submittedNoise (witness : Row) : Option Json :=
  match witness.lookup "plan" with
  | some (.obj submitted) => submitted.lookup "dp"
  | _ => none

variable {value noiseKey : Json} {fields row submitted witness dp : Row} {entry : Entry} {entries : List Row}
  {arguments : PlanArguments} {result : Plan} {supplied : List Json} {observed : List Observation}
  {root key : String} {bytes : Bytes}

theorem identity_eq_ok {text : String} (h : identity value = .ok text) : value = .str text := by
  cases value with
  | str found =>
    simp only [identity] at h
    split_ifs at h
    rw [Except.ok.inj h]
  | _ => cases h

theorem mapping_eq_ok_iff : mapping value = .ok fields ↔ value = .obj fields := by
  cases value <;> simp [mapping]

/-- What a row of a cohort says. -/
structure Describes (row : Row) (entry : Entry) : Prop where
  episode : row.lookup "episode" = some (.str entry.episode)
  propensity : row.lookup "propensity" = some (.int entry.propensity)

theorem Describes.eq_of_fields {other : Entry} (h : Describes entry.fields other) : entry = other := by
  have hepisode := h.episode
  have hpropensity := h.propensity
  rw [Entry.fields, List.lookup_cons_self, Option.some.injEq, Json.str.injEq] at hepisode
  have hlookup : entry.fields.lookup "propensity" = some (.int entry.propensity) := rfl
  rw [hlookup, Option.some.injEq, Json.int.injEq] at hpropensity
  cases entry
  cases other
  simp only at hepisode hpropensity
  rw [hepisode, hpropensity]

theorem cohortEntry_spec (h : cohortEntry row = .ok entry) :
    Describes row entry ∧ minPropensity ≤ entry.propensity ∧ entry.propensity ≤ scale - minPropensity := by
  obtain ⟨_, h⟩ := Py.of_rest h
  obtain ⟨episodeValue, hepisodeField, h⟩ := Py.of_bind h
  obtain ⟨episode, hepisode, h⟩ := Py.of_bind h
  obtain ⟨propensityValue, hpropensityField, h⟩ := Py.of_bind h
  obtain ⟨propensity, hpropensity, h⟩ := Py.of_bind h
  obtain ⟨hint, hbounds⟩ := countArgument_eq_ok_iff.mp hpropensity
  have hstr := identity_eq_ok hepisode
  rw [Py.pure_eq_ok, Except.ok.injEq] at h
  rw [← h]
  rw [field_eq_ok_iff] at hepisodeField hpropensityField
  exact ⟨⟨hepisodeField.trans (congrArg some hstr), hpropensityField.trans (congrArg some hint)⟩, hbounds⟩

theorem cohort_spec {selected : List Entry} (h : cohort entries = .ok selected) :
    selected.length = entries.length ∧ 2 ≤ selected.length ∧ (selected.length : ℤ) ≤ maxCohort ∧
      (∀ row ∈ entries, ∃ entry ∈ selected, Describes row entry) ∧
      ∀ entry ∈ selected, minPropensity ≤ entry.propensity ∧ entry.propensity ≤ scale - minPropensity := by
  obtain ⟨_, hcount, h⟩ := Py.of_bind h
  obtain ⟨found, hfound, h⟩ := Py.of_bind h
  obtain ⟨_, h⟩ := Py.of_rest h
  obtain rfl := Except.ok.inj h
  obtain ⟨⟨htwo, hmax⟩, -⟩ := count_eq_ok_iff.mp hcount
  have hall := Py.collect_always_eq_ok_iff.mp hfound
  have hlength : (sortBy Entry.episode found).length = entries.length :=
    (sortBy_perm _ _).length_eq.trans hall.length_eq.symm
  refine ⟨hlength, by omega, by omega, ?_, ?_⟩
  · intro row hrow
    obtain ⟨entry, hentry, hread⟩ := exists_of_mem_forall₂ hall hrow
    exact ⟨entry, mem_sortBy.mpr hentry, (cohortEntry_spec hread).1⟩
  · intro entry hentry
    obtain ⟨row, -, hread⟩ := exists_of_mem_forall₂ hall.flip (mem_sortBy.mp hentry)
    exact (cohortEntry_spec hread).2

theorem propensityMin_spec {selected : List Entry} {least : ℤ} (h : propensityMin selected = .ok least) :
    (∀ entry ∈ selected, least ≤ entry.propensity ∧ least ≤ scale - entry.propensity) ∧
      ∃ entry ∈ selected, least = min entry.propensity (scale - entry.propensity) := by
  unfold propensityMin at h
  split at h
  · rename_i found hfound
    obtain rfl := Except.ok.inj h
    obtain ⟨hmem, hle⟩ := List.min?_eq_some_iff.mp hfound
    constructor
    · intro entry hentry
      exact le_min_iff.mp (hle _ (List.mem_map_of_mem hentry))
    · obtain ⟨entry, hentry, heq⟩ := List.mem_map.mp hmem
      exact ⟨entry, hentry, heq.symm⟩
  · cases h

theorem plan_spec {setting : Setting} (h : plan setting entries arguments = .ok result) :
    ∃ chosen, cohort entries = .ok chosen ∧ result.count = chosen.length ∧
      propensityMin chosen = .ok result.propensityMin ∧ result.dp = arguments.dp ∧
      (arguments.dp ≠ .null → ∃ parameters, dpParameters result = .ok parameters) := by
  obtain ⟨chosen, hchosen, h⟩ := Py.of_bind h
  obtain ⟨⟨alpha, kind⟩, -, h⟩ := Py.of_bind h
  obtain ⟨limit, -, h⟩ := Py.of_bind h
  obtain ⟨study, -, h⟩ := Py.of_bind h
  obtain ⟨root, -, h⟩ := Py.of_bind h
  obtain ⟨least, hleast, h⟩ := Py.of_bind h
  obtain ⟨key, -, h⟩ := Py.of_bind h
  refine ⟨chosen, hchosen, ?_⟩
  split at h
  · rename_i hnull
    obtain rfl := Except.ok.inj h
    exact ⟨rfl, hleast, rfl, fun hne ↦ absurd hnull hne⟩
  · obtain ⟨parameters, hparameters, h⟩ := Py.of_bind h
    obtain rfl := Except.ok.inj h
    exact ⟨rfl, hleast, rfl, fun _ ↦ ⟨parameters, hparameters⟩⟩

theorem observe_spec {setting : Setting} {plan challenge : Row} {observed : Observation}
    (h : observe setting plan challenge row = .ok observed) :
    (0 ≤ observed.outcome ∧ observed.outcome ≤ scale) ∧ row.lookup "propensity" = some (.int observed.propensity) ∧
      minPropensity ≤ observed.propensity ∧ observed.propensity ≤ scale - minPropensity := by
  obtain ⟨_, h⟩ := Py.of_rest h
  obtain ⟨assigned, -, h⟩ := Py.of_bind h
  obtain ⟨_, h⟩ := Py.of_rest h
  obtain ⟨outcome, houtcome, h⟩ := Py.of_bind h
  obtain ⟨_, h⟩ := Py.of_rest h
  obtain ⟨_, h⟩ := Py.of_rest h
  obtain ⟨_, h⟩ := Py.of_rest h
  obtain ⟨_, h⟩ := Py.of_rest h
  obtain ⟨_, h⟩ := Py.of_rest h
  obtain ⟨episode, -, h⟩ := Py.of_bind h
  obtain ⟨found, hfound, h⟩ := Py.of_bind h
  obtain ⟨propensity, hpropensity, h⟩ := Py.of_bind h
  obtain ⟨hint, hbounds⟩ := countArgument_eq_ok_iff.mp hpropensity
  rw [Py.pure_eq_ok, Except.ok.injEq] at h
  rw [← h]
  exact ⟨(countArgument_eq_ok_iff.mp houtcome).2, (field_eq_ok_iff.mp hfound).trans (congrArg some hint), hbounds⟩

theorem cohortFields_spec {row : Json} (h : cohortFields row = .ok fields) :
    ∃ found, row = .obj found ∧ fields.lookup "propensity" = found.lookup "propensity" := by
  obtain ⟨found, hfound, h⟩ := Py.of_bind h
  obtain ⟨episode, -, h⟩ := Py.of_bind h
  obtain ⟨propensity, hpropensity, h⟩ := Py.of_bind h
  rw [Py.pure_eq_ok, Except.ok.injEq] at h
  refine ⟨found, mapping_eq_ok_iff.mp hfound, ?_⟩
  rw [← h, field_eq_ok_iff.mp hpropensity]
  rfl

theorem rebuild_spec {setting : Setting} (h : rebuild setting submitted supplied = .ok result) :
    result.count = supplied.length ∧ 2 ≤ supplied.length ∧ (supplied.length : ℤ) ≤ maxCohort ∧
      minPropensity ≤ result.propensityMin ∧
      (∀ row, .obj row ∈ supplied → ∀ propensity, row.lookup "propensity" = some (.int propensity) →
        result.propensityMin ≤ propensity ∧ result.propensityMin ≤ scale - propensity) ∧
      submitted.lookup "dp" = some result.dp ∧
      (result.dp ≠ .null → ∃ parameters, dpParameters result = .ok parameters) := by
  obtain ⟨_, h⟩ := Py.of_rest h
  obtain ⟨entries, hentries, h⟩ := Py.of_bind h
  obtain ⟨chosen, hchosen, h⟩ := Py.of_bind h
  obtain ⟨arguments, harguments, h⟩ := Py.of_bind h
  obtain ⟨rebuilt, hrebuilt, h⟩ := Py.of_bind h
  obtain ⟨_, h⟩ := Py.of_rest h
  obtain ⟨_, h⟩ := Py.of_rest h
  obtain ⟨_, h⟩ := Py.of_rest h
  obtain rfl := Except.ok.inj h
  obtain ⟨again, hagain, hcount, hleast, hdp, hnoise⟩ := plan_spec hrebuilt
  obtain ⟨hchosenLength, htwo, hmax, hcover, -⟩ := cohort_spec hchosen
  obtain ⟨hlength', -, -, hcover', hbounds'⟩ := cohort_spec hagain
  obtain ⟨hlower, least, hleastMem, hleastEq⟩ := propensityMin_spec hleast
  have hall := Py.collect_always_eq_ok_iff.mp hentries
  have hlength : entries.length = supplied.length := hall.length_eq.symm
  have hlengths : again.length = supplied.length := by
    rw [hlength', List.length_map, hchosenLength, hlength]
  have hbounds := hbounds' least hleastMem
  have hdpField : submitted.lookup "dp" = some arguments.dp := by
    obtain ⟨_, harguments⟩ := Py.of_rest harguments
    obtain ⟨_, harguments⟩ := Py.of_rest harguments
    obtain ⟨_, harguments⟩ := Py.of_rest harguments
    obtain ⟨_, harguments⟩ := Py.of_rest harguments
    obtain ⟨_, harguments⟩ := Py.of_rest harguments
    obtain ⟨dp, hfield, harguments⟩ := Py.of_bind harguments
    rw [Py.pure_eq_ok, Except.ok.injEq] at harguments
    rw [← harguments]
    exact field_eq_ok_iff.mp hfield
  refine ⟨by rw [hcount, hlengths], by omega, by omega, ?_, ?_, by rw [hdp, hdpField], fun hne ↦ hnoise (hdp ▸ hne)⟩
  · rw [hleastEq]
    exact le_min hbounds.1 (by linarith [hbounds.2])
  · intro row hrow propensity hpropensity
    obtain ⟨fields, hfields, hread⟩ := exists_of_mem_forall₂ hall hrow
    obtain ⟨found, hfound, hlookup⟩ := cohortFields_spec hread
    obtain rfl := Json.obj.inj hfound
    obtain ⟨entry, hentry, hdescribes⟩ := hcover fields hfields
    obtain ⟨other, hother, hsame⟩ := hcover' entry.fields (List.mem_map_of_mem hentry)
    obtain rfl := hsame.eq_of_fields
    have heq : entry.propensity = propensity := by
      have hboth := hdescribes.propensity.symm.trans (hlookup.trans hpropensity)
      simpa using hboth
    rw [← heq]
    exact hlower entry hother

theorem rows_spec {setting : Setting} {registered : Plan}
    (h : rows setting witness = .ok (registered, observed, root)) :
    Accepted registered observed ∧ submittedNoise witness = some registered.dp ∧
      (registered.dp ≠ .null → ∃ parameters, dpParameters registered = .ok parameters) := by
  obtain ⟨⟨submitted, supplied⟩, hsubmission, h⟩ := Py.of_bind h
  obtain ⟨rebuilt, hrebuilt, h⟩ := Py.of_bind h
  obtain ⟨_, h⟩ := Py.of_rest h
  obtain ⟨_, h⟩ := Py.of_rest h
  obtain ⟨_, h⟩ := Py.of_rest h
  obtain ⟨_, h⟩ := Py.of_rest h
  obtain ⟨_, h⟩ := Py.of_rest h
  obtain ⟨_, h⟩ := Py.of_rest h
  obtain ⟨_, h⟩ := Py.of_rest h
  obtain ⟨found, hfound, h⟩ := Py.of_bind h
  obtain ⟨_, h⟩ := Py.of_rest h
  obtain ⟨challenge, -, h⟩ := Py.of_bind h
  obtain ⟨rows, hrows, h⟩ := Py.of_bind h
  obtain ⟨_, h⟩ := Py.of_rest h
  rw [Py.pure_eq_ok, Except.ok.injEq, Prod.mk.injEq, Prod.mk.injEq] at h
  obtain ⟨rfl, rfl, -⟩ := h
  obtain ⟨hcount, htwo, hmax, hmin, hlower, hdp, hnoise⟩ := rebuild_spec hrebuilt
  have hfoundAll := Py.collect_always_eq_ok_iff.mp hfound
  have hrowsAll := Py.collect_always_eq_ok_iff.mp hrows
  have hlength : rows.length = supplied.length := by
    rw [← hrowsAll.length_eq, (sortBy_perm _ _).length_eq, hfoundAll.length_eq]
  have hsource : ∀ row ∈ rows, ∃ fields, Json.obj fields ∈ supplied ∧
      observe setting submitted challenge fields = .ok row := by
    intro row hrow
    obtain ⟨fields, hfields, hread⟩ := exists_of_mem_forall₂ hrowsAll.flip hrow
    obtain ⟨value, hvalue, hmapping⟩ := exists_of_mem_forall₂ hfoundAll.flip (mem_sortBy.mp hfields)
    exact ⟨fields, mapping_eq_ok_iff.mp hmapping ▸ hvalue, hread⟩
  refine ⟨⟨by rw [hcount, hlength], by omega, by omega, ?_, ?_, ?_, hmin⟩, ?_, hnoise⟩
  · intro row hrow
    obtain ⟨fields, -, hread⟩ := hsource row hrow
    exact (observe_spec hread).1
  · intro row hrow
    obtain ⟨fields, -, hread⟩ := hsource row hrow
    exact (observe_spec hread).2.2
  · intro row hrow
    obtain ⟨fields, hfields, hread⟩ := hsource row hrow
    exact hlower fields hfields row.propensity (observe_spec hread).2.1
  · have hplan : witness.lookup "plan" = some (.obj submitted) := by
      obtain ⟨_, hsubmission⟩ := Py.of_rest hsubmission
      split at hsubmission
      · rename_i hplan _
        rw [Py.pure_eq_ok, Except.ok.injEq, Prod.mk.injEq] at hsubmission
        rw [hplan, hsubmission.1]
      · cases hsubmission
    rw [submittedNoise, hplan]
    exact hdp

theorem hex_hexText (h : bytes.length = 32) : hex (.str (hexText bytes)) = .ok (hexText bytes) := by
  have hdigits : ∀ value < 16, ('a' ≤ Nat.digitChar value ∧ Nat.digitChar value ≤ 'f') ∨
      ('0' ≤ Nat.digitChar value ∧ Nat.digitChar value ≤ '9') := by decide
  have hlength : (hexText bytes).length = 64 := by rw [length_hexText, h]
  refine if_pos ⟨hlength, ?_⟩
  intro char hchar
  rw [hexText, String.toList_ofList, List.mem_flatMap] at hchar
  obtain ⟨byte, -, hchar⟩ := hchar
  have hbyte := byte.toNat_lt
  simp only [List.mem_cons, List.not_mem_nil, or_false] at hchar
  obtain rfl | rfl := hchar
  · exact hdigits _ (by omega)
  · exact hdigits _ (by omega)

theorem hexBytes_hexText (h : bytes.length = 32) : hexBytes (.str (hexText bytes)) = .ok bytes := by
  rw [hexBytes, hex_hexText h, Py.bind_ok, fromHex_hexText]
  rfl

theorem dpParameters_eq {plan : Plan} {numerator denominator : Json} {fraction : Fraction}
    (hdp : plan.dp = .obj dp) (hkeys : keysAre dp ["numerator", "denominator", "noise_key"] = true)
    (hnumerator : field dp "numerator" = .ok numerator) (hdenominator : field dp "denominator" = .ok denominator)
    (hfraction : supportedFraction numerator denominator = some fraction)
    (hfield : field dp "noise_key" = .ok noiseKey) (hkey : hex noiseKey = .ok key)
    (hlimit : 2 * buckets plan * fraction.logUpper ≤ 20 * scale) :
    dpParameters plan = .ok ⟨fraction, 2 * buckets plan * fraction.logUpper⟩ := by
  simp only [dpParameters, hdp, hkeys, hnumerator, hdenominator, hfraction, hfield, hkey, hlimit, decide_true,
    Py.require_true, Py.bind_ok, Py.pure_eq_ok]

section Calls

variable {setting : Setting}

theorem assignment_eq {plan challenge : Row} {planHash episode : String} {nonceValue : Json} {nonce stem : Bytes}
    {propensity : ℤ} {assigned : Bool} (hdigest : digest setting.runtime (.obj plan) = .ok planHash)
    (hkeys : keysAre challenge ["plan_hash", "nonce"] = true)
    (hpinned : Origin.isText (challenge.lookup "plan_hash") planHash = true)
    (hcount : countArgument (.int propensity) minPropensity (scale - minPropensity) "count" = .ok propensity)
    (hfield : field challenge "nonce" = .ok nonceValue) (hnonce : hexBytes nonceValue = .ok nonce)
    (hstem : hexBytes (.str planHash) = .ok stem) (hepisode : identity (.str episode) = .ok episode)
    (hdraw : draw setting (Json.utf8 "unimem-effect-assignment-v1" ++ 0 :: nonce ++ stem ++ identifier episode)
      propensity = some assigned) :
    assignment setting plan challenge (.str episode) (.int propensity) = .ok assigned := by
  simp only [assignment, hdigest, hkeys, hpinned, Bool.and_self, Py.require_true, hcount, hfield, hnonce, hstem,
    hepisode, hdraw, Py.bind_ok, Py.pure_eq_ok]

theorem checkNoiseSeed_eq {seed : Json} (hkey : seedKey setting seed true = .ok key)
    (hfield : field dp "noise_key" = .ok noiseKey) (hcommitted : Origin.isText (some noiseKey) key = true) :
    checkNoiseSeed setting (.obj dp) seed = .ok () := by
  have hmapping : mapping (.obj dp) = .ok dp := rfl
  simp only [checkNoiseSeed, hkey, hmapping, hfield, hcommitted, Py.bind_ok, Py.require_true]

theorem rebuild_eq {chosen : List Entry} {number : ℤ}
    (hcount : count supplied.length 2 maxCohort "proof witness row count" = .ok number)
    (hentries : Py.collect (Py.always cohortFields) supplied = .ok entries)
    (hchosen : cohort entries = .ok chosen) (harguments : argumentsOf result.fields = .ok arguments)
    (hplan : plan setting (chosen.map Entry.fields) arguments = .ok result)
    (hwirable : Wirable (.obj result.fields)) :
    rebuild setting result.fields supplied = .ok result := by
  simp only [rebuild, hcount, hentries, hchosen, harguments, hplan, hwirable.wire_eq, decide_true, Py.require_true,
    Py.bind_ok, Py.pure_eq_ok]

theorem rows_eq {challenge : Row} {found : List Row} {rebuilt : Plan} {seedArgument dp noiseSeed : Json}
    {seed : Bytes} (hsubmission : submission witness = .ok (submitted, supplied))
    (hrebuild : rebuild setting submitted supplied = .ok rebuilt)
    (hseedField : field witness "commitment_seed" = .ok seedArgument) (hseed : hexBytes seedArgument = .ok seed)
    (hkey : seedKey setting seedArgument false = .ok key)
    (hcommitted : Origin.isText (submitted.lookup "commitment_key") key = true)
    (hdp : field submitted "dp" = .ok dp) (hnoiseField : field witness "noise_seed" = .ok noiseSeed)
    (hnoise : checkNoiseSeed setting dp noiseSeed = .ok ())
    (hfound : Py.collect (Py.always mapping) supplied = .ok found)
    (hchallenge : field witness "challenge" = .ok (.obj challenge))
    (hobserved : Py.collect (Py.always (observe setting submitted challenge)) (sortBy episodeOf found) = .ok observed)
    (hroot : treeHash setting.suite (observed.zipIdx.map fun (row, index) ↦ leaf setting seed index row) = .ok root) :
    rows setting witness = .ok (rebuilt, observed, root) := by
  have hmapping : mapping (.obj challenge) = .ok challenge := rfl
  simp only [rows, hsubmission, hrebuild, hseedField, hseed, hkey, hcommitted, hdp, hnoiseField, hnoise, hfound,
    hchallenge, hmapping, hobserved, Py.require_true, Py.bind_ok]
  exact congrArg (fun call ↦ call >>= fun root ↦ pure (rebuilt, observed, root)) hroot

end Calls

end UniMem.ZkEffect
