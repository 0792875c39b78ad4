import UniMem.Lineage.Acyclicity

/-!
# Taints

`labels` reads the level of an identity and the taints of everything that it is derived from. A taint replaces the
recorded level by the fixed one `external`, which is below every level but `unknown`.
-/

namespace UniMem.Lineage

open Library FrontierProtocol Relation

/-- What `labels` returns. -/
structure Labels where
  integrity : Integrity
  lineageDigest : String
  reviewRequired : Bool
  taints : List (String × String)

/-- `row.get("integrity", "unknown")`. -/
def Snapshot.level (snapshot : Snapshot) (identity : String) : Integrity :=
  (snapshot.objects.lookup identity).elim .unknown Statement.integrity

/-- `family` of `labels`: no walk is made before the first taint. -/
def Snapshot.family (snapshot : Snapshot) (identity : String) : Py (List String) :=
  if snapshot.tainted.isEmpty then .ok [identity]
  else do return sortBy id (identity :: (← snapshot.ancestors identity)).dedup

/-- The reasons for which an identity itself was tainted. -/
def Snapshot.reasons (snapshot : Snapshot) (identity : String) : List String :=
  (snapshot.tainted.lookup identity).getD []

/-- `labels`. -/
def Snapshot.labels (snapshot : Snapshot) (identity : String) : Py Labels := do
  let family ← snapshot.family identity
  let taints := family.flatMap fun member ↦ (snapshot.reasons member).map fun reason ↦ (member, reason)
  return {
    integrity := if taints.isEmpty then snapshot.level identity else .external
    lineageDigest := (snapshot.objects.lookup identity).elim "" Statement.lineageDigest
    reviewRequired := !taints.isEmpty
    taints := taints }

/-- The identity, or one that it is derived from, was tainted. -/
def Snapshot.Under (snapshot : Snapshot) (identity : String) : Prop :=
  ∃ member, ReflTransGen snapshot.Edge identity member ∧ snapshot.reasons member ≠ []

/-- A taint raises no rank and asks for reviews of those derived from it. -/
def LowersTrust (snapshot : Snapshot) (identity reason : String) : Prop :=
  ∀ other before after, snapshot.labels other = .ok before →
    (snapshot.add (.taint identity reason)).labels other = .ok after →
    after.integrity.rank ≤ before.integrity.rank ∧
      (after.reviewRequired = true ↔ before.reviewRequired = true ∨ ReflTransGen snapshot.Edge other identity)

section

variable {snapshot : Snapshot} {identity other reason : String} {found : Labels}

theorem labels_spec (h : snapshot.labels identity = .ok found) :
    (found.reviewRequired = true ↔ snapshot.Under identity) ∧
      found.integrity = if found.reviewRequired then .external else snapshot.level identity := by
  obtain ⟨family, hfamily, hfound⟩ := Py.of_bind h
  obtain rfl := Except.ok.inj hfound
  have hunder : snapshot.Under identity ↔ ∃ member ∈ family, snapshot.reasons member ≠ [] := by
    by_cases hempty : snapshot.tainted.isEmpty = true
    · have hreasons : ∀ member, snapshot.reasons member = [] := by
        intro member
        rw [Snapshot.reasons, List.isEmpty_iff.mp hempty]
        rfl
      exact iff_of_false (fun ⟨member, _, hmember⟩ ↦ hmember (hreasons member))
        fun ⟨member, _, hmember⟩ ↦ hmember (hreasons member)
    · rw [Snapshot.family, if_neg hempty] at hfamily
      obtain ⟨above, habove, hsorted⟩ := Py.of_bind hfamily
      obtain rfl := Except.ok.inj hsorted
      have hmem : ∀ member, member ∈ sortBy id (identity :: above).dedup ↔
          ReflTransGen snapshot.Edge identity member := by
        intro member
        rw [mem_sortBy, List.mem_dedup, List.mem_cons, mem_ancestors_iff habove]
        constructor
        · rintro (rfl | ⟨hpath, -⟩)
          · exact .refl
          · exact hpath
        · intro hpath
          by_cases hself : member = identity
          · exact .inl hself
          · exact .inr ⟨hpath, hself⟩
      simp only [Snapshot.Under, hmem]
  refine ⟨?_, ?_⟩
  · rw [hunder]
    simp
  · dsimp only
    cases (family.flatMap fun member ↦ (snapshot.reasons member).map fun reason ↦ (member, reason)).isEmpty <;> rfl

theorem exists_labels {above : List String} (h : snapshot.ancestors identity = .ok above) :
    ∃ found, snapshot.labels identity = .ok found := by
  have hfamily : ∃ family, snapshot.family identity = .ok family := by
    unfold Snapshot.family
    split_ifs
    · exact ⟨_, rfl⟩
    · exact ⟨_, by rw [h, Py.bind_ok]; rfl⟩
  obtain ⟨family, hfamily⟩ := hfamily
  exact ⟨_, by rw [Snapshot.labels, hfamily, Py.bind_ok]; rfl⟩

theorem under_add_taint :
    (snapshot.add (.taint identity reason)).Under other ↔
      snapshot.Under other ∨ ReflTransGen snapshot.Edge other identity := by
  have hedge : (snapshot.add (.taint identity reason)).Edge = snapshot.Edge :=
    edge_add_of_not_attestation snapshot fun _ ↦ Event.noConfusion
  have hreasons : ∀ member, (snapshot.add (.taint identity reason)).reasons member ≠ [] ↔
      snapshot.reasons member ≠ [] ∨ member = identity := by
    intro member
    change ((insertGroup identity reason snapshot.tainted).lookup member).getD [] ≠ [] ↔ _
    rw [lookup_insertGroup]
    by_cases hmember : member = identity
    · simp [hmember]
    · simp [hmember, Snapshot.reasons]
  simp only [Snapshot.Under, hedge, hreasons]
  constructor
  · rintro ⟨member, hpath, hmember | rfl⟩
    · exact .inl ⟨member, hpath, hmember⟩
    · exact .inr hpath
  · rintro (⟨member, hpath, hmember⟩ | hpath)
    · exact ⟨member, hpath, .inl hmember⟩
    · exact ⟨identity, hpath, .inr rfl⟩

theorem ancestors_of_labels_add (h : (snapshot.add (.taint identity reason)).labels other = .ok found) :
    ∃ above, snapshot.ancestors other = .ok above := by
  obtain ⟨family, hfamily, -⟩ := Py.of_bind h
  have hsome : (snapshot.add (.taint identity reason)).tainted ≠ [] := by
    intro hempty
    have hlookup := lookup_insertGroup identity identity reason snapshot.tainted
    rw [if_pos rfl] at hlookup
    change insertGroup identity reason snapshot.tainted = [] at hempty
    rw [hempty] at hlookup
    cases hlookup
  rw [Snapshot.family, if_neg fun hempty ↦ hsome (List.isEmpty_iff.mp hempty)] at hfamily
  obtain ⟨above, habove, -⟩ := Py.of_bind hfamily
  exact ⟨above, habove⟩

theorem zero_le_rank_iff (level : Integrity) : 0 ≤ level.rank ↔ level ≠ .unknown := by
  cases level <;> decide

end

/-- A taint raises no trust exactly when no newly affected identity has the level `unknown`. -/
theorem lowersTrust_iff (snapshot : Snapshot) (identity reason : String) :
    LowersTrust snapshot identity reason ↔ ∀ other above, ReflTransGen snapshot.Edge other identity →
      ¬snapshot.Under other → snapshot.ancestors other = .ok above → snapshot.level other ≠ .unknown := by
  constructor
  · intro h other above hpath hunder habove
    obtain ⟨before, hbefore⟩ := exists_labels habove
    obtain ⟨after, hafter⟩ : ∃ after, (snapshot.add (.taint identity reason)).labels other = .ok after :=
      exists_labels habove
    obtain ⟨hrank, -⟩ := h other before after hbefore hafter
    obtain ⟨hreviewBefore, hlevelBefore⟩ := labels_spec hbefore
    obtain ⟨hreviewAfter, hlevelAfter⟩ := labels_spec hafter
    rw [if_neg fun hreview ↦ hunder (hreviewBefore.mp hreview)] at hlevelBefore
    rw [if_pos (hreviewAfter.mpr (under_add_taint.mpr (.inr hpath)))] at hlevelAfter
    rw [hlevelBefore, hlevelAfter] at hrank
    exact (zero_le_rank_iff _).mp hrank
  · intro h other before after hbefore hafter
    obtain ⟨hreviewBefore, hlevelBefore⟩ := labels_spec hbefore
    obtain ⟨hreviewAfter, hlevelAfter⟩ := labels_spec hafter
    rw [under_add_taint] at hreviewAfter
    refine ⟨?_, hreviewAfter.trans (or_congr_left hreviewBefore.symm)⟩
    rw [hlevelBefore, hlevelAfter]
    by_cases hunder : snapshot.Under other
    · rw [if_pos (hreviewAfter.mpr (.inl hunder)), if_pos (hreviewBefore.mpr hunder)]
    · rw [if_neg fun hreview ↦ hunder (hreviewBefore.mp hreview)]
      by_cases hpath : ReflTransGen snapshot.Edge other identity
      · obtain ⟨above, habove⟩ := ancestors_of_labels_add hafter
        rw [if_pos (hreviewAfter.mpr (.inr hpath))]
        exact (zero_le_rank_iff _).mpr (h other above hpath hunder habove)
      · rw [if_neg fun hreview ↦ (hreviewAfter.mp hreview).elim hunder hpath]
        exact le_rfl

/-- A taint on an unknown identity raises its level from `unknown` to `external`. -/
theorem not_lowersTrust : ¬∀ (snapshot : Snapshot) (identity reason : String),
    LowersTrust snapshot identity reason := by
  intro h
  have hbefore : Snapshot.empty.labels "x" = .ok ⟨.unknown, "", false, []⟩ := rfl
  have hafter : (Snapshot.empty.add (.taint "x" "wrong")).labels "x" =
      .ok ⟨.external, "", true, [("x", "wrong")]⟩ := rfl
  exact absurd (h .empty "x" "wrong" "x" _ _ hbefore hafter).1 (by decide)

end UniMem.Lineage
