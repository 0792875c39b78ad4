import UniMem.Robotics.EdgeCache

/-!
# Hazards survive compaction

The dictionaries of `recall` depend on the last item of each id only, and a compacted row carries the last
hazard of each id. So a cache answers as if it had never been compacted.
-/

namespace UniMem.Robotics

open Library FrontierProtocol TransparencyLog

variable {Hash : Type}

variable {item : Item} {next : Cache Hash}

theorem mem_hazards {entries : List (Entry Hash)} :
    item ∈ hazards entries ↔ lastWith Item.id (entries.flatMap Entry.delivered) item.id = some item := by
  rw [hazards, mem_sortBy, mem_values_index]

theorem nodup_hazards (entries : List (Entry Hash)) : ((hazards entries).map Item.id).Nodup := by
  rw [hazards, ((sortBy_perm Item.id _).map Item.id).nodup_iff]
  exact nodup_map_key_values Item.id _

theorem lastWith_hazards (entries : List (Entry Hash)) (identity : String) :
    lastWith Item.id (hazards entries) identity = lastWith Item.id (entries.flatMap Entry.delivered) identity := by
  apply Option.ext
  intro item
  rw [lastWith_eq_some_iff (nodup_hazards entries), mem_hazards]
  constructor
  · rintro ⟨h, rfl⟩
    exact h
  · intro h
    have hid := (key_of_lastWith h).2
    exact ⟨hid ▸ h, hid⟩

theorem history_written (limit : Option ℕ) (rows : List (Row Hash)) (bundle : Bundle Hash) :
    ∃ before retained, history (written limit rows bundle) = before ++ [⟨bundle, retained⟩] ∧
      ∀ identity, lastWith Item.id ((before.flatMap Entry.delivered) ++ retained) identity =
        lastWith Item.id ((history rows).flatMap Entry.delivered) identity := by
  unfold written
  split_ifs with hcompact
  · refine ⟨[], hazards (history rows), rfl, ?_⟩
    intro identity
    rw [List.flatMap_nil, List.nil_append, lastWith_hazards]
  · refine ⟨history rows, [], ?_, ?_⟩
    · rw [history, List.filterMap_append]
      rfl
    · intro identity
      rw [List.append_nil]

theorem last_written (limit : Option ℕ) (rows : List (Row Hash)) (bundle : Bundle Hash) :
    (history (written limit rows bundle)).getLast?.map Entry.bundle = some bundle := by
  obtain ⟨before, retained, heq, -⟩ := history_written limit rows bundle
  rw [heq, List.getLast?_concat, Option.map_some]

theorem lastWith_written (limit : Option ℕ) (rows : List (Row Hash)) (bundle : Bundle Hash) (identity : String) :
    lastWith Item.id ((history (written limit rows bundle)).flatMap Entry.delivered) identity =
      (lastWith Item.id (bundle.manifest.items.filter Item.hazard) identity).or
        (lastWith Item.id ((history rows).flatMap Entry.delivered) identity) := by
  obtain ⟨before, retained, heq, hsame⟩ := history_written limit rows bundle
  rw [heq, List.flatMap_append, List.flatMap_singleton, Entry.delivered, ← List.append_assoc, lastWith_append, hsame]

/-- The last hazard version of an id, or else the version of the latest bundle. -/
def version (accepted : List (Bundle Hash)) (identity : String) : Option Item :=
  (lastWith Item.id ((accepted.flatMap (·.manifest.items)).filter Item.hazard) identity).or
    (accepted.getLast?.bind fun bundle ↦ lastWith Item.id bundle.manifest.items identity)

theorem mem_recallItems {rows : List (Row Hash)} :
    item ∈ recallItems rows ↔ ∃ last, (history rows).getLast? = some last ∧
      (lastWith Item.id ((history rows).flatMap Entry.delivered) item.id).or
        (lastWith Item.id last.bundle.manifest.items item.id) = some item := by
  unfold recallItems
  cases hlast : (history rows).getLast? with
  | none => simp
  | some last =>
    dsimp only
    rw [mem_sortBy, mem_values_index, lastWith_append, lastWith_hazards]
    simp

theorem nodup_recallItems (rows : List (Row Hash)) : ((recallItems rows).map Item.id).Nodup := by
  unfold recallItems
  split
  · exact List.nodup_nil
  · rw [((sortBy_perm Item.order _).map Item.id).nodup_iff]
    exact nodup_map_key_values Item.id _

theorem sorted_recallItems (rows : List (Row Hash)) :
    ((recallItems rows).map Item.order).Pairwise (· ≤ ·) := by
  unfold recallItems
  split
  · exact .nil
  · exact sorted_map_sortBy Item.order _

theorem recallItems_congr {rows others : List (Row Hash)}
    (hlast : (history rows).getLast?.map Entry.bundle = (history others).getLast?.map Entry.bundle)
    (hhazards : ∀ identity, lastWith Item.id ((history rows).flatMap Entry.delivered) identity =
      lastWith Item.id ((history others).flatMap Entry.delivered) identity) :
    recallItems rows = recallItems others := by
  unfold recallItems
  cases hrows : (history rows).getLast? with
  | none =>
    rw [hrows, Option.map_none, eq_comm, Option.map_eq_none_iff] at hlast
    rw [hlast]
  | some last =>
    rw [hrows, Option.map_some, eq_comm, Option.map_eq_some_iff] at hlast
    obtain ⟨other, hother, hbundle⟩ := hlast
    rw [hother]
    dsimp only
    rw [hbundle]
    apply sortBy_index_congr
    · intro identity
      rw [lastWith_append, lastWith_append, lastWith_hazards, lastWith_hazards, hhazards]
    · intro first second horder
      exact (Prod.ext_iff.mp (toLex.injective horder)).2

variable {environment : Environment Hash} {limit : Option ℕ}

variable {bundle : Bundle Hash} {cache : Cache Hash}

theorem store_eq_ok_iff {rows next : List (Row Hash)} :
    store environment limit rows bundle = .ok next ↔
      environment.fits (written limit rows bundle) = true ∧ written limit rows bundle = next := by
  unfold store
  split_ifs with hfits <;> simp [hfits]

variable [DecidableEq Hash]

/-- A bundle passes the checks against the one before it. -/
def Follows (environment : Environment Hash) (last bundle : Bundle Hash) : Prop :=
  last.anchor.leaf ≤ bundle.anchor.leaf ∧ ∃ proof, bundle.proof = some proof ∧
    verifyConsistency environment.suite last.anchor.head.treeSize bundle.anchor.head.treeSize
      last.anchor.head.rootHash bundle.anchor.head.rootHash proof = .ok true

theorem checkContinuity_eq_ok_iff {last : Bundle Hash} {result : Unit} :
    checkContinuity environment last bundle = .ok result ↔ Follows environment last bundle := by
  unfold checkContinuity Follows
  rw [Py.bind_eq_ok_iff]
  cases bundle.proof with
  | none => simp
  | some proof => simp [Py.bind_eq_ok_iff]

theorem update_eq_ok_iff {rows next : List (Row Hash)} :
    update environment limit rows bundle = .ok next ↔ updateBody environment limit rows bundle = .ok next := by
  unfold update
  split <;> simp_all

theorem update_spec {rows next : List (Row Hash)} :
    update environment limit rows bundle = .ok next ↔ checkBundle environment bundle = .ok () ∧
      (((history rows).getLast? = none ∧ store environment limit rows bundle = .ok next) ∨
        ∃ last, (history rows).getLast? = some last ∧ Follows environment last.bundle bundle ∧
          ((bundle.anchor.leaf = last.bundle.anchor.leaf ∧
              environment.digest bundle.manifest = environment.digest last.bundle.manifest ∧ next = rows) ∨
            (bundle.anchor.leaf ≠ last.bundle.anchor.leaf ∧ store environment limit rows bundle = .ok next))) := by
  rw [update_eq_ok_iff, updateBody, Py.bind_eq_ok_iff, Unique.exists_iff, PUnit.default_eq_unit]
  cases (history rows).getLast? with
  | none => simp
  | some last =>
    simp only [Py.bind_eq_ok_iff, checkContinuity_eq_ok_iff, reduceCtorEq, false_and, Option.some.injEq,
      false_or, exists_eq_left']
    by_cases hleaf : bundle.anchor.leaf = last.bundle.anchor.leaf
    · simp [hleaf, Py.bind_eq_ok_iff, Unique.exists_iff, @eq_comm _ rows]
    · simp [hleaf, Unique.exists_iff]

theorem step_eq_ok_iff :
    step environment limit cache bundle = .ok next ↔ ∃ rows, update environment limit cache.rows bundle = .ok rows ∧
        next = ⟨rows, cache.accepted ++ [bundle]⟩ := by
  rw [step, Py.bind_eq_ok_iff]
  simp [eq_comm]

/-- A journal without bounds. -/
def Environment.unlimited (environment : Environment Hash) : Environment Hash :=
  { environment with fits := fun _ ↦ true }

/-- The cache that keeps every bundle it accepts. -/
def uncompacted (environment : Environment Hash) (bundles : List (Bundle Hash)) : Cache Hash :=
  run (step environment.unlimited none) .empty bundles

theorem uncompacted_concat (bundles : List (Bundle Hash)) (bundle : Bundle Hash) :
    uncompacted environment (bundles ++ [bundle]) =
      perform (step environment.unlimited none) (uncompacted environment bundles) bundle := by
  rw [uncompacted, run_append]
  rfl

/-- A cache and the one without compaction answer alike. -/
structure Simulates (environment : Environment Hash) (cache : Cache Hash) : Prop where
  accepted : (uncompacted environment cache.accepted).accepted = cache.accepted
  last : (history (uncompacted environment cache.accepted).rows).getLast?.map Entry.bundle =
    (history cache.rows).getLast?.map Entry.bundle
  hazards : ∀ identity,
    lastWith Item.id ((history (uncompacted environment cache.accepted).rows).flatMap Entry.delivered)
      identity = lastWith Item.id ((history cache.rows).flatMap Entry.delivered) identity

theorem Simulates.recallItems_eq (h : Simulates environment cache) :
    recallItems (uncompacted environment cache.accepted).rows = recallItems cache.rows :=
  recallItems_congr h.last h.hazards

theorem Simulates.step (h : Simulates environment cache) (hstep : step environment limit cache bundle = .ok next) :
    Simulates environment next := by
  obtain ⟨rows, hupdate, rfl⟩ := step_eq_ok_iff.mp hstep
  obtain ⟨hcheck, hcases⟩ := update_spec.mp hupdate
  set plain := uncompacted environment cache.accepted with hplain
  have hnext : ∀ plainRows, update environment.unlimited none plain.rows bundle = .ok plainRows →
      uncompacted environment (cache.accepted ++ [bundle]) = ⟨plainRows, cache.accepted ++ [bundle]⟩ := by
    intro plainRows hrows
    rw [uncompacted_concat, ← hplain, ← h.accepted]
    exact perform_eq_of_ok (step_eq_ok_iff.mpr ⟨plainRows, hrows, rfl⟩)
  have hstored : store environment limit cache.rows bundle = .ok rows →
      update environment.unlimited none plain.rows bundle = .ok (written none plain.rows bundle) →
      Simulates environment ⟨rows, cache.accepted ++ [bundle]⟩ := by
    intro hstore hrows
    obtain ⟨-, rfl⟩ := store_eq_ok_iff.mp hstore
    have heq := hnext _ hrows
    refine ⟨?_, ?_, ?_⟩
    · rw [heq]
    · rw [heq, last_written, last_written]
    · intro identity
      rw [heq, lastWith_written, lastWith_written, h.hazards]
  have hwritten : store environment.unlimited none plain.rows bundle =
      .ok (written none plain.rows bundle) := store_eq_ok_iff.mpr ⟨rfl, rfl⟩
  obtain ⟨hnone, hstore⟩ | ⟨last, hlast, hfollows, hrefresh⟩ := hcases
  · apply hstored hstore
    have hplainNone : (history plain.rows).getLast? = none := by
      rw [← Option.map_eq_none_iff (f := Entry.bundle), h.last, hnone, Option.map_none]
    exact update_spec.mpr ⟨hcheck, Or.inl ⟨hplainNone, hwritten⟩⟩
  · have hplainLast := h.last
    rw [hlast, Option.map_some, Option.map_eq_some_iff] at hplainLast
    obtain ⟨other, hother, hbundle⟩ := hplainLast
    obtain ⟨hleaf, hdigest, rfl⟩ | ⟨hleaf, hstore⟩ := hrefresh
    · have hrows : update environment.unlimited none plain.rows bundle = .ok plain.rows := by
        refine update_spec.mpr ⟨hcheck, Or.inr ⟨other, hother, ?_, Or.inl ⟨?_, ?_, rfl⟩⟩⟩
        · rw [hbundle]
          exact hfollows
        · rw [hbundle]
          exact hleaf
        · rw [hbundle]
          exact hdigest
      have heq := hnext _ hrows
      refine ⟨?_, ?_, ?_⟩
      · rw [heq]
      · rw [heq]
        exact h.last
      · rw [heq]
        exact h.hazards
    · apply hstored hstore
      refine update_spec.mpr ⟨hcheck, Or.inr ⟨other, hother, ?_, Or.inr ⟨?_, hwritten⟩⟩⟩
      · rw [hbundle]
        exact hfollows
      · rw [hbundle]
        exact hleaf

theorem simulates_run (bundles : List (Bundle Hash)) :
    Simulates environment (run (step environment limit) .empty bundles) := by
  refine run_invariant (fun cache bundle next h hstep ↦ h.step hstep) ?_ bundles
  exact ⟨rfl, rfl, fun _ ↦ rfl⟩

/-- A manifest with the digest of the last one is this one. -/
def SameManifest (environment : Environment Hash) (cache : Cache Hash) (bundle : Bundle Hash) : Prop :=
  ∀ last, (history cache.rows).getLast? = some last →
    environment.digest bundle.manifest = environment.digest last.bundle.manifest →
      bundle.manifest = last.bundle.manifest

/-- The hazards of all accepted bundles. -/
def delivered (accepted : List (Bundle Hash)) : List Item :=
  (accepted.flatMap (·.manifest.items)).filter Item.hazard

omit [DecidableEq Hash] in
theorem lastWith_delivered_concat (accepted : List (Bundle Hash)) (bundle : Bundle Hash) (identity : String) :
    lastWith Item.id (delivered (accepted ++ [bundle])) identity =
      (lastWith Item.id (bundle.manifest.items.filter Item.hazard) identity).or
        (lastWith Item.id (delivered accepted) identity) := by
  rw [delivered, List.flatMap_append, List.flatMap_singleton, List.filter_append, lastWith_append]
  rfl

/-- The journal has the latest manifest and the hazards of all accepted bundles. -/
structure Kept (cache : Cache Hash) : Prop where
  last : (history cache.rows).getLast?.map (·.bundle.manifest) =
    cache.accepted.getLast?.map Bundle.manifest
  hazards : ∀ identity, lastWith Item.id ((history cache.rows).flatMap Entry.delivered) identity =
    lastWith Item.id (delivered cache.accepted) identity

omit [DecidableEq Hash] in
theorem Kept.written (h : Kept cache) (limit : Option ℕ) (bundle : Bundle Hash) :
    Kept ⟨written limit cache.rows bundle, cache.accepted ++ [bundle]⟩ := by
  constructor
  · have hlast := congrArg (Option.map Bundle.manifest) (last_written limit cache.rows bundle)
    rw [Option.map_map] at hlast
    rw [List.getLast?_concat]
    exact hlast
  · intro identity
    rw [lastWith_written, lastWith_delivered_concat, h.hazards]

theorem Kept.step (h : Kept cache) (hsame : SameManifest environment cache bundle)
    (hstep : Robotics.step environment limit cache bundle = .ok next) : Kept next := by
  obtain ⟨rows, hupdate, rfl⟩ := step_eq_ok_iff.mp hstep
  obtain ⟨-, ⟨-, hstore⟩ | ⟨last, hlast, -, ⟨-, hdigest, rfl⟩ | ⟨-, hstore⟩⟩⟩ := update_spec.mp hupdate
  · obtain ⟨-, rfl⟩ := store_eq_ok_iff.mp hstore
    exact h.written limit bundle
  · -- The manifest is delivered once more, so its hazards are the last ones already.
    have hmanifest := hsame last hlast hdigest
    have haccepted := h.last
    rw [hlast, Option.map_some, eq_comm, Option.map_eq_some_iff] at haccepted
    obtain ⟨previous, hprevious, heq⟩ := haccepted
    obtain ⟨before, hbefore⟩ := List.getLast?_eq_some_iff.mp hprevious
    constructor
    · rw [List.getLast?_concat, hlast, Option.map_some, Option.map_some, hmanifest]
    · intro identity
      rw [lastWith_delivered_concat, h.hazards, hbefore, lastWith_delivered_concat, hmanifest, heq,
        ← Option.or_assoc, Option.or_self]
  · obtain ⟨-, rfl⟩ := store_eq_ok_iff.mp hstore
    exact h.written limit bundle

omit [DecidableEq Hash] in
theorem Kept.mem_recallItems_iff (h : Kept cache) (item : Item) :
    item ∈ recallItems cache.rows ↔ version cache.accepted item.id = some item := by
  rw [mem_recallItems, version, ← delivered, ← h.hazards]
  have hlast := h.last
  cases hrows : (history cache.rows).getLast? with
  | none =>
    rw [hrows, Option.map_none, eq_comm, Option.map_eq_none_iff] at hlast
    rw [List.getLast?_eq_none_iff] at hrows
    rw [hlast, hrows]
    simp [lastWith]
  | some last =>
    rw [hrows, Option.map_some, eq_comm, Option.map_eq_some_iff] at hlast
    obtain ⟨bundle, hbundle, heq⟩ := hlast
    rw [hbundle, Option.bind_some, heq]
    simp

/-- A refresh of the last manifest carries the head that is stored. -/
def KeepsHead (environment : Environment Hash) (cache : Cache Hash) (bundle : Bundle Hash) : Prop :=
  ∀ last, (history cache.rows).getLast? = some last → Follows environment last.bundle bundle →
    bundle.anchor.leaf = last.bundle.anchor.leaf → bundle.anchor.head = last.bundle.anchor.head

/-- The stored leaf and head are the latest, and bundles follow each other. -/
structure Witnessed (environment : Environment Hash) (cache : Cache Hash) : Prop where
  leaf : (history cache.rows).getLast?.map (·.bundle.anchor.leaf) =
    cache.accepted.getLast?.map (·.anchor.leaf)
  head : (history cache.rows).getLast?.map (·.bundle.anchor.head) =
    cache.accepted.getLast?.map (·.anchor.head)
  chain : cache.accepted.IsChain (Follows environment)

theorem Witnessed.concat (h : Witnessed environment cache)
    (hfollows : ∀ last, (history cache.rows).getLast? = some last → Follows environment last.bundle bundle) :
    (cache.accepted ++ [bundle]).IsChain (Follows environment) := by
  rw [List.isChain_append]
  refine ⟨h.chain, List.isChain_singleton _, ?_⟩
  intro previous hprevious other hother
  obtain rfl : bundle = other := by simpa using hother
  have hleaf := h.leaf
  have hhead := h.head
  rw [Option.mem_def.mp hprevious, Option.map_some, Option.map_eq_some_iff] at hleaf hhead
  obtain ⟨last, hlast, hleafEq⟩ := hleaf
  obtain ⟨same, hsame, hheadEq⟩ := hhead
  obtain rfl : last = same := Option.some.inj (hlast.symm.trans hsame)
  obtain ⟨hle, hproof⟩ := hfollows last hlast
  refine ⟨hleafEq ▸ hle, ?_⟩
  rw [← hheadEq]
  exact hproof

theorem Witnessed.step (h : Witnessed environment cache) (hkeeps : KeepsHead environment cache bundle)
    (hstep : Robotics.step environment limit cache bundle = .ok next) : Witnessed environment next := by
  obtain ⟨rows, hupdate, rfl⟩ := step_eq_ok_iff.mp hstep
  obtain ⟨-, hcases⟩ := update_spec.mp hupdate
  have hstored : (∀ last, (history cache.rows).getLast? = some last →
      Follows environment last.bundle bundle) → store environment limit cache.rows bundle = .ok rows →
      Witnessed environment ⟨rows, cache.accepted ++ [bundle]⟩ := by
    intro hfollows hstore
    obtain ⟨-, rfl⟩ := store_eq_ok_iff.mp hstore
    have hlast := last_written limit cache.rows bundle
    refine ⟨?_, ?_, h.concat hfollows⟩
    · have hleaf := congrArg (Option.map fun bundle ↦ bundle.anchor.leaf) hlast
      rw [Option.map_map] at hleaf
      rw [List.getLast?_concat]
      exact hleaf
    · have hhead := congrArg (Option.map fun bundle ↦ bundle.anchor.head) hlast
      rw [Option.map_map] at hhead
      rw [List.getLast?_concat]
      exact hhead
  obtain ⟨hnone, hstore⟩ | ⟨last, hlast, hfollows, hrefresh⟩ := hcases
  · refine hstored (fun last hlast ↦ ?_) hstore
    rw [hnone] at hlast
    cases hlast
  · have hall : ∀ other, (history cache.rows).getLast? = some other →
        Follows environment other.bundle bundle := by
      intro other hother
      obtain rfl : last = other := Option.some.inj (hlast.symm.trans hother)
      exact hfollows
    obtain ⟨hleaf, -, rfl⟩ | ⟨-, hstore⟩ := hrefresh
    · refine ⟨?_, ?_, h.concat hall⟩
      · rw [List.getLast?_concat, hlast, Option.map_some, Option.map_some, hleaf]
      · rw [List.getLast?_concat, hlast, Option.map_some, Option.map_some, hkeeps last hlast hfollows hleaf]
    · exact hstored hall hstore

/-- Hazards survive every compaction, and with stored heads bundles never go back. -/
theorem hazards_survive (environment : Environment Hash) (limit : Option ℕ) (bundles : List (Bundle Hash))
    (hsame : Along (step environment limit) (SameManifest environment) .empty bundles)
    (hkeeps : Along (step environment limit) (KeepsHead environment) .empty bundles) :
    let cache := run (step environment limit) .empty bundles
    (∀ item, item ∈ recallItems cache.rows ↔ version cache.accepted item.id = some item) ∧
      ((recallItems cache.rows).map Item.id).Nodup ∧
      ((recallItems cache.rows).map Item.order).Pairwise (· ≤ ·) ∧
      (uncompacted environment cache.accepted).accepted = cache.accepted ∧
      recallItems (uncompacted environment cache.accepted).rows = recallItems cache.rows ∧
      cache.accepted.IsChain (Follows environment) := by
  intro cache
  have hkept : Kept cache :=
    run_invariant_along (fun state bundle next h hcondition hstep ↦ h.step hcondition hstep)
      ⟨rfl, fun _ ↦ rfl⟩ hsame
  have hwitnessed : Witnessed environment cache :=
    run_invariant_along (fun state bundle next h hcondition hstep ↦ h.step hcondition hstep)
      ⟨rfl, rfl, .nil⟩ hkeeps
  have hsimulates : Simulates environment cache := simulates_run bundles
  exact ⟨hkept.mem_recallItems_iff, nodup_recallItems _, sorted_recallItems _, hsimulates.accepted,
    hsimulates.recallItems_eq, hwitnessed.chain⟩

namespace Sample

def device : Environment FreeHash where
  suite := FreeHash.suite
  verify _ := true
  verifyAnchor _ := true
  digest manifest := (manifest.items.head?.map Item.text).getD ""
  fits _ := true

def manifest (text : String) (hazard : Bool) : Manifest :=
  ⟨"edge-context-v1", [⟨"door", text, hazard, .null⟩], .null⟩

def first : Bundle FreeHash :=
  ⟨manifest "sharp edge" true, ⟨0, "sharp edge", ⟨1, .leaf 0⟩, .null⟩, some []⟩

def refreshed : Bundle FreeHash :=
  ⟨manifest "sharp edge" true, ⟨0, "sharp edge", ⟨2, .node (.leaf 0) (.leaf 1)⟩, .null⟩, some [.leaf 1]⟩

def second : Bundle FreeHash :=
  ⟨manifest "repaired" false, ⟨1, "repaired", ⟨2, .node (.leaf 0) (.leaf 1)⟩, .null⟩, some [.leaf 1]⟩

theorem consistent_grown : verifyConsistency device.suite 1 2 (.leaf 0) (.node (.leaf 0) (.leaf 1)) [.leaf 1] =
    .ok true := by
  simp [verifyConsistency, falseOnError, stripOnes, consistencyLoop, HashSuite.nodeHash, HashSuite.hash,
    count, checkHashes, FreeHash.suite, device, maxTreeLeaves]

theorem consistent_same : verifyConsistency device.suite 1 1 (.leaf 0) (.leaf 0) [] = .ok true := by
  simp [verifyConsistency, falseOnError, HashSuite.hash, count, checkHashes, FreeHash.suite, device, maxTreeLeaves]

theorem consistent_shrunk (proof : List FreeHash) :
    verifyConsistency device.suite 2 1 (.node (.leaf 0) (.leaf 1)) (.leaf 0) proof = .ok false := by
  simp [verifyConsistency, falseOnError, count, maxTreeLeaves]

theorem step_first : step device (some compactAfter) .empty first = .ok ⟨[.entry first []], [first]⟩ := by
  rfl

theorem step_again {accepted : List (Bundle FreeHash)} {bundle : Bundle FreeHash}
    (hcheck : checkBundle device bundle = .ok ()) (hfollows : Follows device first bundle)
    (hleaf : bundle.anchor.leaf = 0) (hdigest : device.digest bundle.manifest = device.digest first.manifest) :
    step device (some compactAfter) ⟨[.entry first []], accepted⟩ bundle =
      .ok ⟨[.entry first []], accepted ++ [bundle]⟩ := by
  refine step_eq_ok_iff.mpr ⟨_, update_spec.mpr ⟨hcheck, Or.inr ?_⟩, rfl⟩
  exact ⟨⟨first, []⟩, rfl, hfollows, Or.inl ⟨hleaf, hdigest, rfl⟩⟩

theorem run_refreshed :
    (run (step device (some compactAfter)) .empty [first, refreshed, first]).accepted =
      [first, refreshed, first] := by
  have hrefreshed := @step_again [first] refreshed rfl
    ⟨le_rfl, _, rfl, consistent_grown⟩ rfl rfl
  have hagain := @step_again ([first] ++ [refreshed]) first rfl
    ⟨le_rfl, _, rfl, consistent_same⟩ rfl rfl
  rw [run_cons, perform_eq_of_ok step_first, run_cons, perform_eq_of_ok hrefreshed, run_cons]
  rw [perform_eq_of_ok hagain, run_nil]
  rfl

theorem run_second : (run (step device (some compactAfter)) .empty [first, second]).accepted = [first, second] := by
  have hsecond : step device (some compactAfter) ⟨[.entry first []], [first]⟩ second =
      .ok ⟨[.entry first [], .entry second []], [first, second]⟩ := by
    refine step_eq_ok_iff.mpr ⟨_, update_spec.mpr ⟨rfl, Or.inr ⟨⟨first, []⟩, rfl, ?_, Or.inr ⟨?_, rfl⟩⟩⟩, rfl⟩
    · exact ⟨by decide, _, rfl, consistent_grown⟩
    · decide
  rw [run_cons, perform_eq_of_ok step_first, run_cons, perform_eq_of_ok hsecond, run_nil]

end Sample

/-- A refresh is accepted without its head, so an earlier bundle is accepted after it. -/
theorem refreshed_head_forgotten :
    (run (step Sample.device (some compactAfter)) .empty [Sample.first, Sample.refreshed, Sample.first]).accepted =
      [Sample.first, Sample.refreshed, Sample.first] ∧
    ¬[Sample.first, Sample.refreshed, Sample.first].IsChain (Follows Sample.device) := by
  refine ⟨Sample.run_refreshed, ?_⟩
  intro hchain
  obtain ⟨-, hfollows, -⟩ : Follows Sample.device Sample.first Sample.refreshed ∧
      Follows Sample.device Sample.refreshed Sample.first ∧ True := by
    simpa using hchain
  obtain ⟨-, proof, -, hconsistent⟩ := hfollows
  exact absurd ((Sample.consistent_shrunk proof).symm.trans hconsistent) (by simp)

theorem hazards_survive_repaired :
    (⟨"door", "sharp edge", true, .null⟩ : Item) ∈ recallItems
      (run (step Sample.device (some compactAfter)) .empty [Sample.first, Sample.second]).rows := by
  have hsame : Along (step Sample.device (some compactAfter)) (SameManifest Sample.device) .empty
      [Sample.first, Sample.second] := by
    refine ⟨?_, ?_, trivial⟩
    · intro last hlast
      cases hlast
    · intro last hlast hdigest
      cases hlast
      exact absurd hdigest (by decide +kernel)
  have hkeeps : Along (step Sample.device (some compactAfter)) (KeepsHead Sample.device) .empty
      [Sample.first, Sample.second] := by
    refine ⟨?_, ?_, trivial⟩
    · intro last hlast
      cases hlast
    · intro last hlast _ hleaf
      cases hlast
      exact absurd hleaf (by decide +kernel)
  apply ((hazards_survive Sample.device (some compactAfter) [Sample.first, Sample.second] hsame hkeeps).1 _).mpr
  rw [Sample.run_second]
  rfl

end UniMem.Robotics
