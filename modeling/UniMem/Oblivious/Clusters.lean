import UniMem.FrontierProtocol.Arguments
import UniMem.FrontierProtocol.Sizes
import UniMem.Oblivious.Retrieval

/-!
# Clustered memory blocks

`cluster_records` encodes the records of a clearance as blocks of a fixed size and pads every cluster. Floats are
exact, and the distance between vectors is a parameter.
-/

namespace UniMem.Oblivious

open Library FrontierProtocol

/-- `fp.number(component, -1e6, 1e6, "vector component")`. -/
def component (value : Json) : Py ℚ :=
  let check (number : ℚ) : Py ℚ :=
    if -1_000_000 ≤ number ∧ number ≤ 1_000_000 then .ok number
    else .error (.valueError "vector component must be in [-1000000.0, 1000000.0]")
  match value with
  | .int number => check number
  | .float ⟨_, some number, _⟩ => check number
  | _ => .error (.valueError "vector component must be finite")

/-- `_vector`. -/
def vector (value : Json) : Py (List ℚ) :=
  match value with
  | .arr items => do
    let _ ← count items.length 1 4096 "vector dimensions"
    Py.collect (Py.always component) items
  | _ => .error (.valueError "embedding vector must be an array")

/-- `_hierarchy`. -/
def hierarchy (labels : List String) (clearance : String) : Py ℕ := do
  Py.require (1 ≤ labels.length ∧ labels.length ≤ 32)
    (.valueError "label hierarchy must contain 1..32 labels")
  let checked ← Py.collect (Py.always fun label ↦ text label "label" 96) labels
  Py.require (checked.Nodup ∧ clearance ∈ checked)
    (.valueError "clearance must be present in a unique ordered label hierarchy")
  return checked.idxOf clearance

variable {κ : Type}

/-- `_distance`, with the distance of vectors of one dimension as a parameter. -/
def distanceOf (distance : List ℚ → List ℚ → κ) (first second : List ℚ) : Py κ := do
  Py.require (first.length = second.length ∧ first ≠ [])
    (.valueError "vectors must be non-empty and have matching dimensions")
  return distance first second

/-- The names and vectors of the centroids. -/
def readCentroids (centroids : List (String × Json)) : Py (List (String × List ℚ)) :=
  Py.collect (Py.always fun entry ↦ do
    let name ← text entry.1 "cluster name" 96
    return (name, ← vector entry.2)) centroids

/-- The distance to every centroid, with its name. -/
def distances (distance : List ℚ → List ℚ → κ) (from_ : List ℚ) (vectors : List (String × List ℚ)) :
    Py (List (κ ×ₗ String)) :=
  Py.collect (Py.always fun entry ↦ do
    return toLex (← distanceOf distance from_ entry.2, entry.1)) vectors

/-- The clusters that were filled so far and the identities in them. -/
structure Provision where
  clusters : List (String × List Bytes)
  identities : List String

/-- What `cluster_records` is given besides the records, after its checks. -/
structure Settings where
  labels : List String
  ceiling : ℕ
  blockBytes : ℕ
  blocksPerCluster : ℕ
  vectors : List (String × List ℚ)

/-- `encoded.ljust(block_bytes, b"\0")`. -/
def ljust (encoded : Bytes) (blockBytes : ℕ) : Bytes :=
  encoded ++ List.replicate (blockBytes - encoded.length) 0

/-- `record.get("id")` as a text. -/
def identityOf (fields : List (String × Json)) : Py String :=
  match fields.lookup "id" with
  | some (.str identity) => text identity "memory id" 256
  | _ => .error (.valueError "memory id must be a string")

/-- `clusters[cluster].append(block)`. -/
def append (clusters : List (String × List Bytes)) (cluster : String) (block : Bytes) :
    List (String × List Bytes) :=
  clusters.map fun entry ↦ if entry.1 = cluster then (entry.1, entry.2 ++ [block]) else entry

variable [LinearOrder κ] in
/-- One turn of the loop for a record that the clearance admits. -/
def addAdmitted (distance : List ℚ → List ℚ → κ) (settings : Settings) (provision : Provision)
    (fields : List (String × Json)) : Py Provision := do
  let identity ← identityOf fields
  Py.require (identity ∉ provision.identities) (.valueError "PIR memory identifiers must be unique")
  let value := (fields.lookup "vector").getD .null
  let checked ← vector value
  let keyed ← distances distance checked settings.vectors
  let nearest ← (keyed.min?.elim (.error (.valueError "min() iterable argument is empty")) .ok : Py _)
  let cluster := (ofLex nearest).2
  Py.require (((provision.clusters.lookup cluster).getD []).length < settings.blocksPerCluster)
    (.valueError "cluster exceeds the configured fixed public capacity")
  let encoded ← wire (.obj (fields.filter (·.1 ≠ "vector") ++ [("vector", value)]))
  Py.require (encoded.length ≤ settings.blockBytes)
    (.valueError "serialized memory exceeds the configured fixed block size")
  return ⟨append provision.clusters cluster (ljust encoded settings.blockBytes), identity :: provision.identities⟩

variable [LinearOrder κ] in
/-- One turn of the loop over the records. -/
def addRecord (distance : List ℚ → List ℚ → κ) (settings : Settings) (provision : Provision)
    (record : Json) : Py Provision :=
  match record with
  | .obj fields =>
    match fields.lookup "label" with
    | some (.str label) => do
      Py.require (label ∈ settings.labels)
        (.valueError "memory block label is outside the configured hierarchy")
      if settings.ceiling < settings.labels.idxOf label then return provision
      else addAdmitted distance settings provision fields
    | _ => .error (.valueError "each memory block requires a label")
  | _ => .error (.valueError "each memory block requires a label")

/-- `blocks.extend([bytes(block_bytes)] * (blocks_per_cluster - len(blocks)))`. -/
def extend (settings : Settings) (blocks : List Bytes) : List Bytes :=
  blocks ++ List.replicate (settings.blocksPerCluster - blocks.length)
    (List.replicate settings.blockBytes 0)

/-- The clusters after the loop over `clusters.values()`. -/
def padded (settings : Settings) (provision : Provision) : List (String × List Bytes) :=
  provision.clusters.map fun entry ↦ (entry.1, extend settings entry.2)

/-- The checks of `cluster_records` on its settings. -/
def settings (centroids : List (String × Json)) (clearance : String) (labels : List String)
    (blockBytes blocksPerCluster : ℤ) (records : ℕ) : Py Settings := do
  Py.require (centroids ≠ [] ∧ centroids.length ≤ maxClusters)
    (.valueError "centroid index must contain 1..256 clusters")
  let _ ← count blockBytes 256 maxBlockBytes "count"
  let _ ← count blocksPerCluster 1 maxBlocksPerCluster "count"
  batchBudget blocksPerCluster blockBytes
  let ceiling ← hierarchy labels clearance
  Py.require (records ≤ maxClusters * maxBlocksPerCluster)
    (.valueError "memory records must be a bounded array")
  let vectors ← readCentroids centroids
  Py.require (vectors.all fun entry ↦ entry.2.length = (vectors.headI).2.length)
    (.valueError "centroid dimensions exceed bound")
  return ⟨labels, ceiling, blockBytes.toNat, blocksPerCluster.toNat, vectors⟩

variable [LinearOrder κ] in
/-- `cluster_records`. -/
def clusterRecords (distance : List ℚ → List ℚ → κ) (records : List Json)
    (centroids : List (String × Json)) (clearance : String) (labels : List String)
    (blockBytes blocksPerCluster : ℤ) : Py (List (String × List Bytes)) := do
  let settings ← settings centroids clearance labels blockBytes blocksPerCluster records.length
  let names := sortBy id (settings.vectors.map Prod.fst)
  let provision ← records.foldlM (addRecord distance settings) ⟨names.map fun name ↦ (name, []), []⟩
  return padded settings provision

/-- Whether the label of a record is at or below a ceiling. -/
def admits (labels : List String) (ceiling : ℕ) (record : Json) : Bool :=
  match record.get? "label" with
  | some (.str label) => labels.idxOf label ≤ ceiling
  | _ => false

/-- The identity of a record. -/
def recordId (record : Json) : String :=
  match record.get? "id" with
  | some (.str identity) => identity
  | _ => ""

/-- The block of a record. -/
def block (settings : Settings) (record : Json) : Bytes :=
  ljust (canonicalBytes record) settings.blockBytes

/-- What `cluster_records` has checked of a record that it admits. -/
structure Admitted (settings : Settings) (record : Json) : Prop where
  label : ∃ label, record.get? "label" = some (.str label) ∧ label ∈ settings.labels ∧
    settings.labels.idxOf label ≤ settings.ceiling
  identity : record.get? "id" = some (.str (recordId record)) ∧
    text (recordId record) "memory id" 256 = .ok (recordId record)
  vector : ∃ value numbers, record.get? "vector" = some value ∧ Oblivious.vector value = .ok numbers ∧
    ∀ entry ∈ settings.vectors, numbers.length = entry.2.length
  wirable : Wirable record
  length_le : (canonicalBytes record).length ≤ settings.blockBytes

variable {fields centroids : List (String × Json)} {value : Json} {numbers : List ℚ}
  {distance : List ℚ → List ℚ → κ} {vectors : List (String × List ℚ)} {provision next : Provision}
  {clusters : List (String × List Bytes)} {admitted records : List Json} {labels : List String} {clearance : String}
  {blockBytes blocksPerCluster : ℤ}

theorem identityOf_eq_ok {identity : String} (h : identityOf fields = .ok identity) :
    recordId (.obj fields) = identity ∧ (Json.obj fields).get? "id" = some (.str identity) ∧
      text identity "memory id" 256 = .ok identity := by
  unfold identityOf at h
  split at h
  · rename_i found hfound
    obtain ⟨hvalid, rfl⟩ := text_eq_ok_iff.mp h
    refine ⟨?_, hfound, h⟩
    rw [recordId, Json.get?, hfound]
  · cases h

theorem ne_nil_of_vector (h : vector value = .ok numbers) :
    numbers ≠ [] := by
  cases value with
  | arr items =>
    simp only [vector, Py.bind_eq_ok_iff, count_eq_ok_iff, Py.collect_always_eq_ok_iff] at h
    obtain ⟨_, ⟨⟨hpos, -⟩, -⟩, hitems⟩ := h
    have hlength := hitems.length_eq
    exact List.ne_nil_of_length_pos (by omega)
  | _ => simp [vector] at h

theorem distanceOf_eq_ok_iff {first second : List ℚ} {result : κ} :
    distanceOf distance first second = .ok result ↔
      (first.length = second.length ∧ first ≠ []) ∧ distance first second = result := by
  simp only [distanceOf, Py.bind_eq_ok_iff, Py.require_eq_ok_iff, decide_eq_true_eq, Py.pure_eq_ok,
    Except.ok.injEq, exists_const]

theorem distances_eq_ok_iff {keyed : List (κ ×ₗ String)} (hne : numbers ≠ []) :
    distances distance numbers vectors = .ok keyed ↔ (∀ entry ∈ vectors, numbers.length = entry.2.length) ∧
        keyed = vectors.map fun entry ↦ toLex (distance numbers entry.2, entry.1) := by
  rw [distances, Py.collect_always_eq_ok_iff]
  simp only [Py.bind_eq_ok_iff, distanceOf_eq_ok_iff, Py.pure_eq_ok, Except.ok.injEq, hne, ne_eq,
    not_false_eq_true, and_true]
  constructor
  · intro h
    induction h with
    | nil => simp
    | cons hentry _ ih =>
      obtain ⟨_, ⟨hlength, rfl⟩, rfl⟩ := hentry
      exact ⟨List.forall_mem_cons.mpr ⟨hlength, ih.1⟩, by rw [List.map_cons, ih.2]⟩
  · rintro ⟨hlengths, rfl⟩
    rw [List.forall₂_map_right_iff, List.forall₂_same]
    exact fun entry hentry ↦ ⟨_, ⟨hlengths entry hentry, rfl⟩, rfl⟩

theorem perm_moved (hkeys : (fields.map Prod.fst).Nodup) (h : fields.lookup "vector" = some value) :
    (fields.filter (·.1 ≠ "vector") ++ [("vector", value)]).Perm fields := by
  obtain ⟨before, after, rfl, hbefore⟩ := List.lookup_eq_some_iff.mp h
  rw [List.map_append, List.map_cons, List.nodup_append, List.nodup_cons] at hkeys
  have hkept : (before ++ ("vector", value) :: after).filter (·.1 ≠ "vector") = before ++ after := by
    rw [List.filter_append, List.filter_cons_of_neg (by simp)]
    congr 1
    · rw [List.filter_eq_self]
      intro field hfield
      have hne := hbefore field hfield
      refine decide_eq_true fun heq ↦ ?_
      simp [heq] at hne
    · rw [List.filter_eq_self]
      intro field hfield
      refine decide_eq_true fun heq ↦ hkeys.2.1.1 ?_
      exact List.mem_map.mpr ⟨field, hfield, heq⟩
  rw [hkept, List.append_assoc]
  exact (List.perm_append_singleton _ after).append_left before

variable [LinearOrder κ]

theorem addAdmitted_spec {settings : Settings} (hkeys : (fields.map Prod.fst).Nodup) {label : String}
    (hlabel : fields.lookup "label" = some (.str label)) (hmem : label ∈ settings.labels)
    (hceiling : settings.labels.idxOf label ≤ settings.ceiling)
    (h : addAdmitted distance settings provision fields = .ok next) :
    ∃ cluster ∈ settings.vectors.map Prod.fst,
      ((provision.clusters.lookup cluster).getD []).length < settings.blocksPerCluster ∧
      recordId (.obj fields) ∉ provision.identities ∧ Admitted settings (.obj fields) ∧
      next = ⟨append provision.clusters cluster (block settings (.obj fields)),
        recordId (.obj fields) :: provision.identities⟩ := by
  simp only [addAdmitted, Py.bind_eq_ok_iff, Py.require_eq_ok_iff, Py.pure_eq_ok, Except.ok.injEq,
    decide_eq_true_eq] at h
  obtain ⟨identity, hidentity, _, hnew, numbers, hnumbers, keyed, hkeyed, nearest, hnearest, _, hroom,
    encoded, hencoded, _, hlength, rfl⟩ := h
  obtain ⟨rfl, hid, htext⟩ := identityOf_eq_ok hidentity
  obtain ⟨hdimensions, rfl⟩ := (distances_eq_ok_iff (ne_nil_of_vector hnumbers)).mp hkeyed
  cases hvector : fields.lookup "vector" with
  | none =>
    rw [hvector] at hnumbers
    simp [vector] at hnumbers
  | some value =>
    rw [hvector, Option.getD_some] at hnumbers hencoded
    have hperm := perm_moved hkeys hvector
    obtain ⟨hwirable, rfl⟩ := wire_eq_ok_iff.mp hencoded
    rw [canonicalBytes_congr (same_obj_of_perm hperm hkeys)] at hlength ⊢
    have hnear : ∃ name, (ofLex nearest).2 = name ∧ name ∈ settings.vectors.map Prod.fst := by
      cases hmin : (settings.vectors.map fun entry ↦ toLex (distance numbers entry.2, entry.1)).min? with
      | none =>
        rw [hmin] at hnearest
        cases hnearest
      | some key =>
        rw [hmin] at hnearest
        cases hnearest
        obtain ⟨entry, hentry, rfl⟩ := List.mem_map.mp (List.min?_mem hmin)
        exact ⟨_, rfl, List.mem_map.mpr ⟨entry, hentry, rfl⟩⟩
    obtain ⟨name, rfl, hname⟩ := hnear
    refine ⟨_, hname, hroom, hnew, ?_, rfl⟩
    exact ⟨⟨label, hlabel, hmem, hceiling⟩, ⟨hid, htext⟩, ⟨value, numbers, hvector, hnumbers, hdimensions⟩,
      hwirable.of_noLarger (NoLarger.obj_fields hperm.symm.subperm), hlength⟩

theorem map_fst_append (clusters : List (String × List Bytes)) (cluster : String) (block : Bytes) :
    (append clusters cluster block).map Prod.fst = clusters.map Prod.fst := by
  rw [append, List.map_map]
  apply List.map_congr_left
  intro entry _
  rw [Function.comp_apply]
  split_ifs <;> rfl

theorem blocks_append (hnodup : (clusters.map Prod.fst).Nodup) {cluster : String}
    (hcluster : cluster ∈ clusters.map Prod.fst) (block : Bytes) :
    ((append clusters cluster block).flatMap Prod.snd).Perm (block :: clusters.flatMap Prod.snd) := by
  induction clusters with
  | nil => simp at hcluster
  | cons entry clusters ih =>
    rw [List.map_cons, List.nodup_cons] at hnodup
    rw [List.map_cons, List.mem_cons] at hcluster
    rw [append, List.map_cons, List.flatMap_cons, List.flatMap_cons]
    rcases eq_or_ne entry.1 cluster with rfl | hne
    · have hrest : clusters.map (fun other ↦
          if other.1 = entry.1 then (other.1, other.2 ++ [block]) else other) = clusters := by
        conv_rhs => rw [← List.map_id clusters]
        apply List.map_congr_left
        intro other hother
        exact if_neg fun heq : other.1 = entry.1 ↦
          hnodup.1 (heq ▸ List.mem_map.mpr ⟨other, hother, rfl⟩)
      rw [if_pos rfl, hrest, List.append_assoc]
      exact List.perm_middle
    · rw [if_neg hne]
      have hmem := hcluster.resolve_left fun heq ↦ hne heq.symm
      exact ((ih hnodup.2 hmem).append_left entry.2).trans List.perm_middle

/-- What holds of the clusters after some records, with those that the clearance admits. -/
structure Filled (settings : Settings) (admitted : List Json) (provision : Provision) : Prop where
  names : provision.clusters.map Prod.fst = sortBy id (settings.vectors.map Prod.fst)
  blocks : (provision.clusters.flatMap Prod.snd).Perm (admitted.map (block settings))
  room : ∀ entry ∈ provision.clusters, entry.2.length ≤ settings.blocksPerCluster
  identities : provision.identities.Perm (admitted.map recordId)
  nodup : provision.identities.Nodup
  admitted : ∀ record ∈ admitted, Admitted settings record

theorem filled_nil (settings : Settings) :
    Filled settings [] ⟨(sortBy id (settings.vectors.map Prod.fst)).map fun name ↦ (name, []), []⟩ where
  names := by simp [Function.comp_def]
  blocks := by simp
  room := by simp
  identities := .nil
  nodup := .nil
  admitted := by simp

theorem Filled.addRecord {settings : Settings} (hvectors : (settings.vectors.map Prod.fst).Nodup)
    (hfilled : Filled settings admitted provision) {record : Json}
    (hkeys : ∀ fields, record = .obj fields → (fields.map Prod.fst).Nodup)
    (h : Oblivious.addRecord distance settings provision record = .ok next) :
    Filled settings (admitted ++ [record].filter (admits settings.labels settings.ceiling)) next := by
  unfold Oblivious.addRecord at h
  split at h
  · rename_i fields
    split at h
    · rename_i label hlabel
      rw [Py.bind_eq_ok_iff] at h
      obtain ⟨_, hmem, h⟩ := h
      rw [Py.require_eq_ok_iff, decide_eq_true_eq] at hmem
      have hadmits : admits settings.labels settings.ceiling (.obj fields) =
          decide (settings.labels.idxOf label ≤ settings.ceiling) := by
        rw [admits, Json.get?, hlabel]
      split_ifs at h with habove
      · cases h
        rw [List.filter_cons_of_neg (by rw [hadmits, decide_eq_true_eq, not_le]; exact habove),
          List.filter_nil, List.append_nil]
        exact hfilled
      · have hceiling := not_lt.mp habove
        rw [List.filter_cons_of_pos (by rw [hadmits]; exact decide_eq_true hceiling), List.filter_nil]
        obtain ⟨cluster, hcluster, hroom, hnew, hchecked, rfl⟩ :=
          addAdmitted_spec (hkeys fields rfl) hlabel hmem hceiling h
        have hnodup : (provision.clusters.map Prod.fst).Nodup := by
          rw [hfilled.names]
          exact (sortBy_perm id _).nodup_iff.mpr hvectors
        have hfound : cluster ∈ provision.clusters.map Prod.fst := by
          rw [hfilled.names]
          exact mem_sortBy.mpr hcluster
        refine ⟨?_, ?_, ?_, ?_, ?_, ?_⟩
        · rw [map_fst_append]
          exact hfilled.names
        · rw [List.map_append, List.map_cons, List.map_nil]
          exact (blocks_append hnodup hfound _).trans
            ((hfilled.blocks.cons _).trans (List.perm_append_singleton _ _).symm)
        · rw [append, List.forall_mem_map]
          intro entry hentry
          split_ifs with heq
          · rw [← heq, (lookup_eq_some_iff_mem hnodup).mpr hentry, Option.getD_some] at hroom
            rw [List.length_append, List.length_singleton]
            omega
          · exact hfilled.room entry hentry
        · rw [List.map_append, List.map_cons, List.map_nil]
          exact (hfilled.identities.cons _).trans (List.perm_append_singleton _ _).symm
        · exact List.nodup_cons.mpr ⟨hnew, hfilled.nodup⟩
        · rw [List.forall_mem_append]
          exact ⟨hfilled.admitted, by simpa using hchecked⟩
    · cases h
  · cases h

theorem Filled.foldlM {settings : Settings} (hvectors : (settings.vectors.map Prod.fst).Nodup)
    (hfilled : Filled settings admitted provision)
    (hkeys : ∀ record ∈ records, ∀ fields, record = .obj fields → (fields.map Prod.fst).Nodup)
    (h : records.foldlM (Oblivious.addRecord distance settings) provision = .ok next) :
    Filled settings (admitted ++ records.filter (admits settings.labels settings.ceiling)) next := by
  induction records generalizing admitted provision with
  | nil =>
    cases h
    simpa using hfilled
  | cons record records ih =>
    rw [List.forall_mem_cons] at hkeys
    rw [List.foldlM_cons, Py.bind_eq_ok_iff] at h
    obtain ⟨middle, hmiddle, h⟩ := h
    have hnext := ih (hfilled.addRecord hvectors hkeys.1 hmiddle) hkeys.2 h
    rw [List.append_assoc, ← List.filter_append, List.singleton_append] at hnext
    exact hnext

theorem readCentroids_spec (h : readCentroids centroids = .ok vectors) :
    vectors.map Prod.fst = centroids.map Prod.fst ∧
      (∀ name ∈ vectors.map Prod.fst, text name "cluster name" 96 = .ok name) ∧
      ∀ entry ∈ vectors, ∃ centroid ∈ centroids, vector centroid.2 = .ok entry.2 := by
  rw [readCentroids, Py.collect_always_eq_ok_iff] at h
  induction h with
  | nil => simp
  | cons hentry _ ih =>
    simp only [Py.bind_eq_ok_iff, Py.pure_eq_ok, Except.ok.injEq] at hentry
    obtain ⟨name, hname, numbers, hnumbers, rfl⟩ := hentry
    obtain ⟨hvalid, rfl⟩ := text_eq_ok_iff.mp hname
    obtain ⟨hnames, htexts, hvectors⟩ := ih
    refine ⟨?_, ?_, ?_⟩
    · rw [List.map_cons, List.map_cons, hnames]
    · rw [List.map_cons, List.forall_mem_cons]
      exact ⟨hname, htexts⟩
    · refine List.forall_mem_cons.mpr ⟨⟨_, List.mem_cons_self, hnumbers⟩, fun entry hentry ↦ ?_⟩
      obtain ⟨centroid, hcentroid, hvector⟩ := hvectors entry hentry
      exact ⟨centroid, List.mem_cons_of_mem _ hcentroid, hvector⟩

theorem hierarchy_spec {ceiling : ℕ} (h : hierarchy labels clearance = .ok ceiling) :
    clearance ∈ labels ∧ ceiling = labels.idxOf clearance := by
  simp only [hierarchy, Py.bind_eq_ok_iff, Py.require_eq_ok_iff, Py.pure_eq_ok, Except.ok.injEq,
    decide_eq_true_eq, Py.collect_always_eq_ok_iff, text_eq_ok_iff] at h
  obtain ⟨_, -, checked, hchecked, _, ⟨-, hmem⟩, rfl⟩ := h
  have hsame : labels = checked := by
    clear hmem
    induction hchecked with
    | nil => rfl
    | cons hlabel _ ih => rw [ih, hlabel.2]
  rw [hsame]
  exact ⟨hmem, rfl⟩

theorem settings_spec {records : ℕ} {checked : Settings}
    (h : settings centroids clearance labels blockBytes blocksPerCluster records = .ok checked) :
    (centroids ≠ [] ∧ centroids.length ≤ maxClusters) ∧ (256 ≤ blockBytes ∧ blockBytes ≤ maxBlockBytes) ∧
      batchBudget blocksPerCluster blockBytes = .ok () ∧
      hierarchy labels clearance = .ok checked.ceiling ∧ readCentroids centroids = .ok checked.vectors ∧
      checked.labels = labels ∧ checked.blockBytes = blockBytes.toNat ∧
      checked.blocksPerCluster = blocksPerCluster.toNat := by
  simp only [settings, Py.bind_eq_ok_iff, Py.require_eq_ok_iff, Py.pure_eq_ok, Except.ok.injEq,
    decide_eq_true_eq, count_eq_ok_iff] at h
  obtain ⟨_, hcentroids, _, ⟨hbytes, -⟩, _, -, _, hbudget, ceiling, hceiling, _, -, vectors, hvectors, _, -,
    rfl⟩ := h
  exact ⟨hcentroids, hbytes, hbudget, hceiling, hvectors, rfl, rfl, rfl⟩

theorem clusterRecords_spec
    (hrecords : ∀ record ∈ records, ∀ fields, record = .obj fields → (fields.map Prod.fst).Nodup)
    (hcentroids : (centroids.map Prod.fst).Nodup)
    (h : clusterRecords distance records centroids clearance labels blockBytes blocksPerCluster = .ok clusters) :
    ∃ checked provision,
      settings centroids clearance labels blockBytes blocksPerCluster records.length = .ok checked ∧
      Filled checked (records.filter (admits labels checked.ceiling)) provision ∧
      clusters = padded checked provision := by
  simp only [clusterRecords, Py.bind_eq_ok_iff, Py.pure_eq_ok, Except.ok.injEq] at h
  obtain ⟨checked, hchecked, provision, hprovision, rfl⟩ := h
  obtain ⟨-, -, -, -, hvectors, hlabels, -, -⟩ := settings_spec hchecked
  have hnodup : (checked.vectors.map Prod.fst).Nodup := by
    rw [(readCentroids_spec hvectors).1]
    exact hcentroids
  have hfilled := (filled_nil checked).foldlM hnodup hrecords hprovision
  rw [List.nil_append, hlabels] at hfilled
  exact ⟨checked, provision, hchecked, hfilled, rfl⟩

end UniMem.Oblivious
