import UniMem.Library.BoundedDepth
import UniMem.NextwaveStore.Closure

/-!
# Reading and erasing along derivations

`_get` reads an artifact after everything that it was derived from, with sixteen artifacts on its stack at most, and
checks each. `_erase_sources` takes fifteen steps of derivation and no more.
-/

namespace UniMem.NextwaveStore

open Library FrontierProtocol

structure ArtifactKey where
  kind : String
  identity : String
  deriving DecidableEq

/-- What a read asks of the rest of the store. -/
structure Reading where
  /-- `tiering.assert_read`. -/
  assertRead : String → Py Unit
  /-- `policy_io.permits`. -/
  permits : String → Event → Bool
  /-- `memory_authority.lineage_blocked`. -/
  blocked : String → Bool
  visible : Event → Bool
  /-- `admit`, on canonical sources. -/
  admits : List String → Py (List String)
  /-- The number of bytes of a blob and what they are parsed to. -/
  content : String → String → Option (ℕ × Json)
  digest : Json → String

/-- `cache` and `budget`. -/
structure Progress where
  cache : List (ArtifactKey × Json)
  bytes : ℕ

/-- `source.startswith("artifact:")`. -/
def isArtifact (source : String) : Bool := "artifact:".toList.isPrefixOf source.toList

/-- `source.split(":", 2)` of the reference of an artifact. -/
def splitReference (source : String) : Py ArtifactKey :=
  let rest := source.toList.drop 9
  if ':' ∈ rest then
    .ok ⟨String.ofList (rest.takeWhile (· ≠ ':')), String.ofList ((rest.dropWhile (· ≠ ':')).drop 1)⟩
  else .error (.valueError "not enough values to unpack (expected 3, got 2)")

/-- The checks on a key before it is read, and what the cache holds for it. -/
def cached (reading : Reading) (stack : List ArtifactKey) (key : ArtifactKey) (progress : Progress) :
    Py (Option Json) := do
  if isTier key.kind then reading.assertRead key.kind else .ok ()
  let _ ← text key.identity "identifier" 512
  let _ ← kindName key.kind
  Py.require (key ∉ stack) (.valueError "UniMem artifact source graph contains a cycle")
  return progress.cache.lookup key

/-- The row of an artifact that may be read. -/
def readableRow (reading : Reading) (store : Store) (owner : Bool) (key : ArtifactKey) : Py Event := do
  let objects ← ((store.kinds.find? (·.name = key.kind)).elim (.ok []) latest : Py (List Event))
  match objects.find? (·.id = key.identity) with
  | none => throw (.valueError "UniMem artifact is unavailable")
  | some row =>
    Py.require (row.status = some .active) (.valueError "UniMem artifact is unavailable")
    Py.require (reading.permits key.kind row)
      (.permissionError "UniMem active finite policy denies this artifact read")
    Py.require (!reading.blocked key.identity)
      (.permissionError "UniMem artifact was revoked by its canonical source authority")
    Py.require (owner || reading.visible row) (.permissionError "UniMem artifact is outside the caller's scope")
    let canonical := row.sources.filter (!isArtifact ·)
    let admitted ← reading.admits canonical
    Py.require (canonical.all (· ∈ admitted) && admitted.all (· ∈ canonical))
      (.permissionError "UniMem artifact has an unavailable or unauthorized source")
    return row

/-- `MAX_BLOB` and `MAX_TOTAL`. -/
def maxBlob : ℕ := 256 * 1024

def maxTotal : ℕ := 64 * maxBytes

/-- The content of a row, with the bytes that it adds to the budget. -/
def readBlob (reading : Reading) (key : ArtifactKey) (row : Event) (bytes : ℕ) : Py (Json × ℕ) := do
  let digest := row.digest.getD ""
  blob digest
  match reading.content key.kind digest with
  | none => throw (.valueError "UniMem artifact content was erased or archived")
  | some (length, value) =>
    Py.require (length ≤ maxBlob + 1) (.valueError "UniMem artifact exceeds its size limit")
    let _ ← count ((bytes + length : ℕ) : ℤ) 0 (maxTotal : ℕ) "UniMem artifact source bytes"
    Py.require (reading.digest value = digest)
      (.valueError "UniMem artifact content does not match its signed commitment")
    return (value, bytes + length)

/-- `_get`, with as many levels as its stack has room for, and one more. -/
def readFrom (reading : Reading) (store : Store) : ℕ → Bool → List ArtifactKey → ArtifactKey → Progress →
    Py (Json × Progress)
  | 0, _, stack, _, _ => do
    let _ ← count stack.length 0 15 "UniMem artifact source depth"
    throw (.runtimeError "unreachable")
  | levels + 1, owner, stack, key, progress => do
    match ← cached reading stack key progress with
    | some value => return (value, progress)
    | none =>
      let _ ← count stack.length 0 15 "UniMem artifact source depth"
      let _ ← count (progress.cache.length + stack.length : ℕ) 0 2047 "UniMem artifact source nodes"
      let row ← readableRow reading store owner key
      let progress ← (row.sources.filter isArtifact).foldlM (fun progress source ↦ do
        return (← readFrom reading store levels false (key :: stack) (← splitReference source) progress).2) progress
      let (value, bytes) ← readBlob reading key row progress.bytes
      return (value, ⟨(key, value) :: progress.cache, bytes⟩)

/-- `get`. -/
def get (reading : Reading) (store : Store) (operator owner : Bool) (key : ArtifactKey) : Py Json := do
  if owner then
    Py.require operator (.permissionError "UniMem operation requires an undelegated operator context")
  else .ok ()
  return (← readFrom reading store 17 owner [] key ⟨[], 0⟩).1

section Steps

variable {reading : Reading} {store : Store} {levels : ℕ} {owner : Bool} {stack : List ArtifactKey}
  {key other : ArtifactKey} {progress after : Progress} {row : Event} {source : String} {value found : Json}
  {bytes : ℕ}

theorem readFrom_leaf (hcached : cached reading stack key progress = .ok none) (hroom : stack.length ≤ 15)
    (hnodes : progress.cache.length + stack.length ≤ 2047) (hrow : readableRow reading store owner key = .ok row)
    (hsources : row.sources.filter isArtifact = [])
    (hblob : readBlob reading key row progress.bytes = .ok (value, bytes)) :
    readFrom reading store (levels + 1) owner stack key progress =
      .ok (value, ⟨(key, value) :: progress.cache, bytes⟩) := by
  have hdepth : count stack.length 0 15 "UniMem artifact source depth" = .ok _ :=
    count_of_mem _ (Int.natCast_nonneg _) (by omega)
  have hcount : count (progress.cache.length + stack.length : ℕ) 0 2047 "UniMem artifact source nodes" = .ok _ :=
    count_of_mem _ (Int.natCast_nonneg _) (by omega)
  simp only [readFrom, hcached, hdepth, hcount, hrow, hsources, List.foldlM_nil, hblob, Py.bind_ok, Py.pure_eq_ok]

theorem readFrom_link (hcached : cached reading stack key progress = .ok none) (hroom : stack.length ≤ 15)
    (hnodes : progress.cache.length + stack.length ≤ 2047) (hrow : readableRow reading store owner key = .ok row)
    (hsources : row.sources.filter isArtifact = [source]) (hsplit : splitReference source = .ok other)
    (hread : readFrom reading store levels false (key :: stack) other progress = .ok (found, after))
    (hblob : readBlob reading key row after.bytes = .ok (value, bytes)) :
    readFrom reading store (levels + 1) owner stack key progress =
      .ok (value, ⟨(key, value) :: after.cache, bytes⟩) := by
  have hdepth : count stack.length 0 15 "UniMem artifact source depth" = .ok _ :=
    count_of_mem _ (Int.natCast_nonneg _) (by omega)
  have hcount : count (progress.cache.length + stack.length : ℕ) 0 2047 "UniMem artifact source nodes" = .ok _ :=
    count_of_mem _ (Int.natCast_nonneg _) (by omega)
  simp only [readFrom, hcached, hdepth, hcount, hrow, hsources, List.foldlM_cons, List.foldlM_nil, hsplit, hread,
    hblob, Py.bind_ok, Py.pure_eq_ok]

end Steps

/-- A name leads to the names of the artifacts that are found with it. -/
def Leads (found : List Artifact) (name other : String) : Prop :=
  ∃ artifact ∈ found, name ∈ artifact.names ∧ (other = artifact.row.id ∨ other = artifact.reference)

/-- The error of an erasure whose last round finds names. -/
def tooDeep : PyError := .valueError "UniMem erasure exceeds sixteen derivation levels"

/-- As many different names as an erasure takes are affected at most. -/
def Affects (found : List Artifact) (identities : List String) (limit : ℕ) : Prop :=
  ∀ names : List String, names.Nodup →
    (∀ name ∈ names, ∃ count, ReachedWithin (Leads found) (· ∈ identities) count name) →
      names.length ≤ limit

variable {found : List Artifact} {identities deleted : List String}

variable {name : String} {limit : ℕ}

theorem mem_affectedNames_iff :
    name ∈ affectedNames found deleted ↔ ∃ first ∈ deleted, Leads found first name := by
  rw [mem_affectedNames]
  constructor
  · rintro ⟨artifact, hmem, htouched, hname⟩
    obtain ⟨first, hfirst, hnames⟩ := touched_iff.mp htouched
    exact ⟨first, hfirst, artifact, hmem, hnames, hname⟩
  · rintro ⟨first, hfirst, artifact, hmem, hnames, hname⟩
    exact ⟨artifact, hmem, touched_iff.mpr ⟨first, hfirst, hnames⟩, hname⟩

theorem mem_round_iff :
    name ∈ affectedNames found deleted ∪ deleted ↔ ReachedWithin (Leads found) (· ∈ deleted) 1 name := by
  rw [List.mem_union_iff, mem_affectedNames_iff]
  constructor
  · rintro (⟨first, hfirst, hleads⟩ | hmem)
    · exact ⟨first, hfirst, 1, le_rfl, .single hleads⟩
    · exact ⟨name, hmem, 0, Nat.zero_le 1, .refl name⟩
  · rintro ⟨first, hfirst, count, hcount, hsteps⟩
    cases hsteps with
    | refl _ => exact .inr hfirst
    | head edge rest =>
      obtain rfl : _ = 0 := Nat.le_zero.mp (Nat.le_of_succ_le_succ hcount)
      cases rest
      exact .inl ⟨first, hfirst, edge⟩

theorem Affects.round (h : Affects found deleted limit) :
    Affects found (affectedNames found deleted ∪ deleted) limit := by
  intro names hnodup hreached
  refine h names hnodup fun name hname ↦ ?_
  obtain ⟨count, hcount⟩ := hreached name hname
  simp only [mem_round_iff] at hcount
  exact ⟨count + 1, reachedWithin_succ_iff.mpr hcount⟩

theorem Affects.length_le (h : Affects found deleted limit) (hnodup : deleted.Nodup) :
    deleted.length ≤ limit :=
  h deleted hnodup fun _ hname ↦ ⟨0, reachedWithin_zero_iff.mpr hname⟩

theorem affects_of_length (h : 2 * found.length + identities.length ≤ limit) :
    Affects found identities limit := by
  intro names hnodup hreached
  let all := found.flatMap (fun artifact ↦ [artifact.row.id, artifact.reference]) ++ identities
  have hsubset : names ⊆ all := by
    intro name hname
    obtain ⟨count, first, hfirst, steps, -, hsteps⟩ := hreached name hname
    obtain rfl | ⟨other, artifact, hartifact, -, heq⟩ := hsteps.eq_or_exists
    · exact List.mem_append_right _ hfirst
    · refine List.mem_append_left _ (List.mem_flatMap.mpr ⟨artifact, hartifact, ?_⟩)
      exact List.mem_pair.mpr heq
  calc names.length
      ≤ all.length := (List.subperm_of_subset hnodup hsubset).length_le
    _ = 2 * found.length + identities.length := by
        rw [List.length_append, List.length_flatMap]
        simp [mul_comm]
    _ ≤ limit := h

theorem closed_iff :
    (∀ name ∈ affectedNames found deleted, name ∈ deleted) ↔ Saturated (Leads found) (· ∈ deleted) 0 := by
  rw [saturated_zero_iff]
  constructor
  · intro h first hfirst second hleads
    exact h second (mem_affectedNames_iff.mpr ⟨first, hfirst, hleads⟩)
  · intro h name hname
    obtain ⟨first, hfirst, hleads⟩ := mem_affectedNames_iff.mp hname
    exact h first hfirst name hleads

theorem descend_succ_of_open {levels : ℕ} (hopen : ¬∀ name ∈ affectedNames found deleted, name ∈ deleted)
    (hnodup : deleted.Nodup) (hsome : deleted ≠ []) (haffected : Affects found deleted 2048) :
    descend found (levels + 1) deleted = descend found levels (affectedNames found deleted ∪ deleted) := by
  have hlength := haffected.round.length_le (hnodup.union (affectedNames found deleted))
  have hpos : 1 ≤ (affectedNames found deleted ∪ deleted).length := by
    obtain ⟨name, hname⟩ := List.exists_mem_of_ne_nil _ hsome
    exact List.length_pos_of_mem (List.mem_union_iff.mpr (.inr hname))
  have hcount := count_of_mem "UniMem erasure descendants" (Nat.one_le_cast.mpr hpos) (Nat.cast_le.mpr hlength)
  rw [Nat.cast_ofNat] at hcount
  rw [descend, if_neg hopen]
  simp only [hcount, Py.bind_ok]

theorem descend_eq_tooDeep_iff {levels : ℕ} (hnodup : deleted.Nodup) (hsome : deleted ≠ [])
    (haffected : Affects found deleted 2048) :
    descend found (levels + 1) deleted = .error tooDeep ↔ ¬Saturated (Leads found) (· ∈ deleted) levels := by
  induction levels generalizing deleted with
  | zero =>
    by_cases hclosed : ∀ name ∈ affectedNames found deleted, name ∈ deleted
    · rw [descend, if_pos hclosed]
      exact iff_of_false (fun h ↦ by cases h) (not_not_intro (closed_iff.mp hclosed))
    · rw [descend_succ_of_open hclosed hnodup hsome haffected]
      exact iff_of_true rfl fun h ↦ hclosed (closed_iff.mpr h)
  | succ levels ih =>
    by_cases hclosed : ∀ name ∈ affectedNames found deleted, name ∈ deleted
    · rw [descend, if_pos hclosed]
      exact iff_of_false (fun h ↦ by cases h) (not_not_intro ((closed_iff.mp hclosed).of_zero (levels + 1)))
    · have hunion : affectedNames found deleted ∪ deleted ≠ [] := by
        obtain ⟨name, hname⟩ := List.exists_mem_of_ne_nil _ hsome
        exact List.ne_nil_of_mem (List.mem_union_iff.mpr (.inr hname))
      rw [descend_succ_of_open hclosed hnodup hsome haffected, ih (hnodup.union _) hunion haffected.round,
        saturated_succ_iff]
      simp only [mem_round_iff]

variable {environment : Environment} {store : Store}

theorem removeArtifact_ne_tooDeep {live : List String} {kind : Kind} {row : Event} :
    removeArtifact environment live kind row ≠ .error tooDeep := by
  intro h
  unfold removeArtifact at h
  split at h
  · cases h
  · obtain h | ⟨_, -, h⟩ := Py.bind_eq_error_iff.mp h
    · obtain ⟨digest, -, hblob⟩ := Py.forM_eq_error h
      exact absurd (Py.require_eq_error_iff.mp hblob).2 (by decide)
    · obtain h | ⟨_, -, h⟩ := Py.bind_eq_error_iff.mp h
      · exact absurd (Py.require_eq_error_iff.mp h).2 (by decide)
      · obtain h | ⟨_, -, h⟩ := Py.bind_eq_error_iff.mp h
        · exact absurd (Py.require_eq_error_iff.mp h).2 (by decide)
        · cases h

/-- What an erasure does after its loop. -/
def removal (environment : Environment) (store : Store) (deleted : List String) : Py (List Kind) := do
  Py.require (environment.permitted deleted) (.permissionError "UniMem erasure is not permitted")
  Py.collect (Py.always (removeKind environment deleted)) store.kinds

theorem removal_ne_tooDeep : removal environment store deleted ≠ .error tooDeep := by
  intro h
  obtain h | ⟨_, -, h⟩ := Py.bind_eq_error_iff.mp h
  · exact absurd (Py.require_eq_error_iff.mp h).2 (by decide)
  · obtain ⟨kind, -, hkind⟩ := Py.collect_eq_error h
    obtain hremove | ⟨_, -, h⟩ := Py.bind_eq_error_iff.mp hkind
    · obtain ⟨row, -, before, hrow⟩ := Py.foldlM_eq_error hremove
      exact removeArtifact_ne_tooDeep hrow
    · cases h

/-- The loop of an erasure is entered with the artifacts of the store. -/
structure Entered (store : Store) (identities : List String) (found : List Artifact) : Prop where
  counted : 1 ≤ identities.length ∧ identities.length ≤ 2048
  texts : ∀ identity ∈ identities, text identity "identifier" 512 = .ok identity
  kinds : store.kinds.length ≤ 128
  found : artifacts store = .ok found

theorem eraseSources_of_entered (h : Entered store identities found) :
    eraseSources environment store identities = descend found 16 identities.dedup >>= removal environment store := by
  have hcount : count identities.length 1 2048 "count" = .ok _ :=
    count_of_mem "count" (Nat.one_le_cast.mpr h.counted.1) (by exact_mod_cast h.counted.2)
  have hkinds : count store.kinds.length 0 128 "count" = .ok _ :=
    count_of_mem "count" (Int.natCast_nonneg _) (by exact_mod_cast h.kinds)
  have htexts : identities.forM (fun identity ↦ do let _ ← text identity "identifier" 512) = .ok () :=
    Py.forM_eq_ok_iff.mpr fun identity hidentity ↦ by rw [h.texts identity hidentity, Py.bind_ok]; rfl
  rw [eraseSources, hcount, Py.bind_ok, htexts, Py.bind_ok, hkinds, Py.bind_ok, h.found, Py.bind_ok]
  rfl

namespace Sample

def allowing : Reading where
  assertRead _ := .ok ()
  permits _ _ := true
  blocked _ := false
  visible _ := true
  admits canonical := .ok canonical
  content _ _ := some (4, .null)
  digest _ := digest 'c'

def levelName (level : ℕ) : String := String.ofList ['a', Char.ofNat (97 + level)]

def summary (level : ℕ) : Event :=
  ⟨levelName level, some (digest 'c'), some .active, [],
    [if level = 0 then "fact" else referenceText "notes" (levelName (level - 1))], .null⟩

def chain (levels : ℕ) : Store where
  kinds := [⟨"notes", (List.range levels).map summary, [digest 'c'], []⟩]
  distinct := by simp

variable {level other : ℕ} {identity : String}

theorem levelName_inj (h : level < 16) (hother : other < 16) (heq : levelName level = levelName other) :
    level = other := by
  have hchars : ∀ first < 16, ∀ second < 16, Char.ofNat (97 + first) = Char.ofNat (97 + second) → first = second := by
    decide
  have hlists := congrArg String.toList heq
  rw [levelName, levelName, String.toList_ofList, String.toList_ofList] at hlists
  exact hchars level h other hother (List.head_eq_of_cons_eq (List.tail_eq_of_cons_eq hlists))

theorem find_levelName (h : level < 16) :
    (List.range 16).find? (fun other ↦ levelName other = levelName level) = some level := by
  have hsame : (List.range 16).find? (fun other ↦ levelName other = levelName level) =
      (List.range 16).find? (fun other ↦ other = level) := by
    refine List.find?_congr fun other hother ↦ ?_
    rw [decide_eq_decide]
    exact ⟨levelName_inj (List.mem_range.mp hother) h, congrArg levelName⟩
  have hfind : ∀ level < 16, (List.range 16).find? (fun other ↦ other = level) = some level := by decide
  rw [hsame, hfind level h]

theorem nodup_levelNames : ((List.range 16).map levelName).Nodup :=
  List.nodup_range.map_on fun _ hfirst _ hsecond heq ↦
    levelName_inj (List.mem_range.mp hfirst) (List.mem_range.mp hsecond) heq

theorem names : (∀ level < 16, text (levelName level) "identifier" 512 = .ok (levelName level) ∧
      splitReference (referenceText "notes" (levelName level)) = .ok ⟨"notes", levelName level⟩ ∧
      isArtifact (referenceText "notes" (levelName level)) = true ∧ isArtifact (levelName level) = false ∧
      reference "notes" (levelName level) = .ok (referenceText "notes" (levelName level)) ∧
      ("fact" = levelName level → level = 0)) ∧
    (text "fact" "identifier" 512 = .ok "fact" ∧ isArtifact "fact" = false) ∧
    isTier "notes" = false ∧ kindName "notes" = .ok "notes" := by
  decide +kernel

theorem text_levelName (h : level < 16) :
    text (levelName level) "identifier" 512 = .ok (levelName level) :=
  (names.1 level h).1

theorem splitReference_levelName (h : level < 16) :
    splitReference (referenceText "notes" (levelName level)) = .ok ⟨"notes", levelName level⟩ :=
  (names.1 level h).2.1

theorem isArtifact_levelName (h : level < 16) :
    isArtifact (referenceText "notes" (levelName level)) = true :=
  (names.1 level h).2.2.1

theorem isArtifact_id (h : level < 16) : isArtifact (levelName level) = false :=
  (names.1 level h).2.2.2.1

theorem sources_summary_zero : (summary 0).sources.filter isArtifact = [] :=
  List.filter_eq_nil_iff.mpr fun source hsource ↦ by
    obtain rfl := List.mem_singleton.mp hsource
    rw [if_pos rfl, names.2.1.2]
    decide

theorem blob_digest (char : Char) (h : isHex char = true) : blob (digest char) = .ok () := by
  simp [blob, digest, h]

theorem find_chain : (chain 16).kinds.find? (·.name = "notes") =
    some ⟨"notes", (List.range 16).map summary, [digest 'c'], []⟩ := by simp [chain]

theorem objects_chain : ((chain 16).kinds.find? (·.name = "notes")).elim (.ok []) latest =
    .ok ((List.range 16).map summary) := by
  have hobjects : Kind.objects ⟨"notes", (List.range 16).map summary, [digest 'c'], []⟩ =
      (List.range 16).map summary := by
    refine index_of_nodup ?_
    rw [List.map_map]
    exact nodup_levelNames
  have hcount : count (((List.range 16).map summary).length : ℕ) 0 maxObjects "UniMem artifact count" = .ok 16 :=
    count_of_mem _ (by simp) (by simp [maxObjects])
  rw [find_chain, Option.elim_some, latest, hobjects, hcount, Py.bind_ok]
  rfl

theorem readableRow_summary (h : level < 16) (owner : Bool) :
    readableRow allowing (chain 16) owner ⟨"notes", levelName level⟩ = .ok (summary level) := by
  have hfind : ((List.range 16).map summary).find? (·.id = levelName level) = some (summary level) := by
    rw [List.find?_map]
    exact congrArg (Option.map summary) (find_levelName h)
  rw [readableRow, objects_chain, Py.bind_ok]
  dsimp only
  rw [hfind]
  have hpermitted : (owner || allowing.visible (summary level)) = true := Bool.or_true owner
  have hadmitted : ∀ sources : List String,
      (sources.all (· ∈ sources) && sources.all (· ∈ sources)) = true := fun sources ↦ by simp
  dsimp only
  rw [hpermitted]
  simp only [allowing, Py.bind_ok, hadmitted]
  rfl

theorem cached_summary (h : level < 16) {stack : List ArtifactKey}
    (hstack : (⟨"notes", levelName level⟩ : ArtifactKey) ∉ stack) :
    cached allowing stack ⟨"notes", levelName level⟩ ⟨[], 0⟩ = .ok none := by
  obtain ⟨-, -, htier, hkind⟩ := names
  rw [cached]
  simp only [htier, text_levelName h, hkind, hstack, not_false_eq_true, decide_true, Py.require_true, Py.bind_ok]
  rfl

theorem readBlob_summary (level : ℕ) {key : ArtifactKey} {bytes : ℕ} (h : bytes ≤ 64) :
    readBlob allowing key (summary level) bytes = .ok (.null, bytes + 4) := by
  have hblob : blob ((summary level).digest.getD "") = .ok () := blob_digest 'c' rfl
  have htotal : 68 ≤ maxTotal := by norm_num [maxTotal, maxBytes]
  have hcount : count ((bytes + 4 : ℕ) : ℤ) 0 (maxTotal : ℕ) "UniMem artifact source bytes" = .ok _ :=
    count_of_mem _ (Int.natCast_nonneg _) (Int.ofNat_le.mpr ((Nat.add_le_add_right h 4).trans htotal))
  have hsize : 4 ≤ maxBlob + 1 := by norm_num [maxBlob]
  have hdigest : (summary level).digest.getD "" = digest 'c' := rfl
  rw [readBlob]
  rw [hdigest] at hblob ⊢
  simp only [hblob, allowing, Py.bind_ok, hcount, hsize, decide_true, Py.require_true, Py.pure_eq_ok]

theorem readFrom_summary {level : ℕ} (h : level < 16) : ∀ {levels : ℕ} {owner : Bool} {stack : List ArtifactKey},
    level < levels → stack.length + level ≤ 15 →
    (∀ other ≤ level, (⟨"notes", levelName other⟩ : ArtifactKey) ∉ stack) →
    ∃ cache, readFrom allowing (chain 16) levels owner stack ⟨"notes", levelName level⟩ ⟨[], 0⟩ =
      .ok (.null, ⟨cache, 4 * (level + 1)⟩) := by
  induction level with
  | zero =>
    intro levels owner stack hlevels hdepth hstack
    obtain ⟨levels, rfl⟩ : ∃ fewer, levels = fewer + 1 := ⟨levels - 1, by omega⟩
    exact ⟨_, readFrom_leaf (cached_summary h (hstack 0 le_rfl)) hdepth (by rw [List.length_nil]; omega)
      (readableRow_summary h owner) sources_summary_zero (readBlob_summary 0 (Nat.zero_le _))⟩
  | succ level ih =>
    intro levels owner stack hlevels hdepth hstack
    obtain ⟨levels, rfl⟩ : ∃ fewer, levels = fewer + 1 := ⟨levels - 1, by omega⟩
    have hsources : (summary (level + 1)).sources.filter isArtifact = [referenceText "notes" (levelName level)] := by
      have hlast : (summary (level + 1)).sources = [referenceText "notes" (levelName level)] := rfl
      rw [hlast, List.filter_cons_of_pos (isArtifact_levelName (by omega)), List.filter_nil]
    have hbelow : ∀ other ≤ level,
        (⟨"notes", levelName other⟩ : ArtifactKey) ∉ ⟨"notes", levelName (level + 1)⟩ :: stack := by
      intro other hother hmem
      obtain heq | hmem := List.mem_cons.mp hmem
      · have hname : levelName other = levelName (level + 1) := congrArg ArtifactKey.identity heq
        have := levelName_inj (by omega) h hname
        omega
      · exact hstack other (by omega) hmem
    obtain ⟨cache, hread⟩ := @ih (by omega) levels false (⟨"notes", levelName (level + 1)⟩ :: stack) (by omega)
      (by rw [List.length_cons]; omega) hbelow
    exact ⟨_, readFrom_link (cached_summary h (hstack (level + 1) le_rfl)) (by omega)
      (by rw [List.length_nil]; omega) (readableRow_summary h owner) hsources
      (splitReference_levelName (by omega)) hread (readBlob_summary (level + 1) (by dsimp only; omega))⟩

def chained : List Artifact :=
  (List.range 16).map fun level ↦ ⟨"notes", summary level, referenceText "notes" (levelName level)⟩

theorem artifacts_chain : artifacts (chain 16) = .ok chained := by
  have hof : artifactsOf ⟨"notes", (List.range 16).map summary, [digest 'c'], []⟩ = .ok chained := by
    have hlatest := objects_chain
    rw [find_chain, Option.elim_some] at hlatest
    rw [artifactsOf, hlatest, Py.bind_ok, Py.collect_map]
    refine Py.collect_always_eq_ok fun level hlevel ↦ ?_
    have hreference : reference "notes" (summary level).id = .ok (referenceText "notes" (levelName level)) :=
      (names.1 level (List.mem_range.mp hlevel)).2.2.2.2.1
    simp only [hreference, Py.bind_ok]
    rfl
  have hcollect : Py.collect (Py.always artifactsOf) (chain 16).kinds = .ok [chained] :=
    Py.collect_always_eq_ok_iff.mpr (.cons hof .nil)
  rw [artifacts, hcollect, Py.bind_ok, List.flatten_singleton]
  rfl

theorem referenceText_inj (h : level < 16) (hother : other < 16)
    (heq : referenceText "notes" (levelName level) = referenceText "notes" (levelName other)) : level = other := by
  have hsplit := splitReference_levelName h
  rw [heq, splitReference_levelName hother] at hsplit
  exact levelName_inj h hother (congrArg ArtifactKey.identity (Except.ok.inj hsplit)).symm

theorem referenceText_ne (h : level < 16) (hidentity : isArtifact identity = false) :
    referenceText "notes" (levelName level) ≠ identity := by
  rintro rfl
  exact absurd (isArtifact_levelName h) (by rw [hidentity]; decide)

def Lowest (identity : String) : Prop :=
  isArtifact identity = false ∧ ∀ level < 16, identity = levelName level → level = 0

def Below (identity : String) (count : ℕ) (name : String) : Prop :=
  name = identity ∨ ∃ level < count, level < 16 ∧ (name = levelName level ∨ name =
    referenceText "notes" (levelName level))

theorem Below.step {other : String} {count : ℕ} (hlowest : Lowest identity) (h : Below identity count name)
    (hleads : Leads chained name other) : Below identity (count + 1) other := by
  obtain ⟨artifact, hartifact, hname, hother⟩ := hleads
  obtain ⟨level, hlevel, rfl⟩ := List.mem_map.mp hartifact
  have hlevel := List.mem_range.mp hlevel
  refine Or.inr ⟨level, ?_, hlevel, hother⟩
  have hid : name = levelName level ∨ name = referenceText "notes" (levelName level) ∨
      name = (if level = 0 then "fact" else referenceText "notes" (levelName (level - 1))) := by
    simpa only [Artifact.names, summary, List.mem_cons, List.not_mem_nil, or_false] using hname
  obtain rfl | ⟨below, hbelow, hbound, hnamed⟩ := h
  · obtain heq | heq | heq := hid
    · have := hlowest.2 level hlevel heq
      omega
    · exact absurd heq.symm (referenceText_ne hlevel hlowest.1)
    · by_cases hzero : level = 0
      · omega
      · rw [if_neg hzero] at heq
        exact absurd heq.symm (referenceText_ne (by omega) hlowest.1)
  · obtain rfl | rfl := hnamed
    · obtain heq | heq | heq := hid
      · have := levelName_inj hbound hlevel heq
        omega
      · exact absurd heq.symm (referenceText_ne hlevel (isArtifact_id hbound))
      · by_cases hzero : level = 0
        · omega
        · rw [if_neg hzero] at heq
          exact absurd heq.symm (referenceText_ne (by omega) (isArtifact_id hbound))
    · obtain heq | heq | heq := hid
      · exact absurd heq (referenceText_ne hbound (isArtifact_id hlevel))
      · have := referenceText_inj hbound hlevel heq
        omega
      · by_cases hzero : level = 0
        · omega
        · rw [if_neg hzero] at heq
          have := referenceText_inj hbound (by omega) heq
          omega

theorem Below.steps {identity name other : String} {count steps : ℕ} (hlowest : Lowest identity)
    (hsteps : Steps (Leads chained) steps name other) (h : Below identity count name) :
    Below identity (count + steps) other := by
  induction hsteps generalizing count with
  | refl _ => exact h
  | @head levels _ _ _ edge _ ih =>
    rw [Nat.add_comm levels 1, ← Nat.add_assoc]
    exact ih (h.step hlowest edge)

theorem steps_chained (hfirst : Leads chained identity (referenceText "notes" (levelName 0))) :
    ∀ level < 16, Steps (Leads chained) (level + 1) identity (referenceText "notes" (levelName level)) := by
  intro level
  induction level with
  | zero => exact fun _ ↦ .single hfirst
  | succ level ih =>
    intro hlevel
    refine (ih (by omega)).trans (.single ⟨_, List.mem_map.mpr ⟨level + 1, List.mem_range.mpr hlevel, rfl⟩, ?_,
      .inr rfl⟩)
    simp [Artifact.names, summary]

theorem not_saturated_chained (hlowest : Lowest identity)
    (hfirst : Leads chained identity (referenceText "notes" (levelName 0))) :
    ¬Saturated (Leads chained) (· ∈ [identity]) 15 := by
  intro hsaturated
  obtain ⟨first, hmem, count, hcount, hsteps⟩ := hsaturated 16 (referenceText "notes" (levelName 15))
    ⟨identity, List.mem_singleton_self identity, 16, le_rfl, steps_chained hfirst 15 (by decide)⟩
  obtain rfl := List.mem_singleton.mp hmem
  have hbelow := @Below.steps _ _ _ 0 _ hlowest hsteps (.inl rfl)
  obtain heq | ⟨level, hlevel, hbound, heq | heq⟩ := hbelow
  · exact referenceText_ne (by decide) hlowest.1 heq
  · exact referenceText_ne (by decide) (isArtifact_id hbound) heq
  · have := referenceText_inj (by decide) hbound heq
    omega

theorem eraseSources_chain (htext : text identity "identifier" 512 = .ok identity) (hlowest : Lowest identity)
    (hfirst : Leads chained identity (referenceText "notes" (levelName 0)))
    (haffected : Affects chained [identity] 2048) :
    eraseSources permissive (chain 16) [identity] = .error tooDeep := by
  have hentered : Entered (chain 16) [identity] chained := by
    refine ⟨by rw [List.length_singleton]; decide, fun name hname ↦ ?_, by decide, artifacts_chain⟩
    rwa [List.mem_singleton.mp hname]
  have hdescend : descend chained (15 + 1) [identity] = .error tooDeep :=
    (descend_eq_tooDeep_iff (List.nodup_singleton identity) (List.cons_ne_nil _ _) haffected).mpr
      (not_saturated_chained hlowest hfirst)
  rw [eraseSources_of_entered hentered, List.dedup_eq_self.mpr (List.nodup_singleton identity), hdescend,
    Py.bind_error]

theorem entered_chain : Entered (chain 2) ["fact"] (chain 2).artifacts where
  counted := by decide
  texts := fun identity hidentity ↦ by
    obtain rfl := List.mem_singleton.mp hidentity
    exact names.2.1.1
  kinds := by decide
  found := rfl

end Sample

/-- The row of an artifact. -/
def rowOf (store : Store) (key : ArtifactKey) : Option Event :=
  ((store.kinds.find? (·.name = key.kind)).elim (.ok []) latest).toOption.bind (·.find? (·.id = key.identity))

/-- An artifact names another one among its sources. -/
def Derives (store : Store) (key other : ArtifactKey) : Prop :=
  ∃ row, rowOf store key = some row ∧ ∃ source ∈ row.sources, isArtifact source ∧ splitReference source = .ok other

/-- The row passes the checks of a read. -/
structure Permitted (reading : Reading) (owner : Bool) (key : ArtifactKey) (row : Event) : Prop where
  active : row.status = some .active
  policy : reading.permits key.kind row = true
  current : reading.blocked key.identity = false
  scope : owner = true ∨ reading.visible row = true
  admitted : ∃ admitted, reading.admits (row.sources.filter (!isArtifact ·)) = .ok admitted ∧
    ∀ source, source ∈ admitted ↔ source ∈ row.sources.filter (!isArtifact ·)

/-- The value is what the digest of the row commits to. -/
def Committed (reading : Reading) (key : ArtifactKey) (row : Event) (value : Json) : Prop :=
  ∃ length, reading.content key.kind (row.digest.getD "") = some (length, value) ∧
    reading.digest value = row.digest.getD ""

/-- An artifact may be read, and so may everything that it was derived from. -/
inductive Readable (reading : Reading) (store : Store) : Bool → ArtifactKey → Json → Prop
  | intro {owner : Bool} {key : ArtifactKey} {row : Event} {value : Json} (contents : ArtifactKey → Json)
      (hrow : rowOf store key = some row) (hpermitted : Permitted reading owner key row)
      (hcommitted : Committed reading key row value)
      (hsources : ∀ other, Derives store key other → Readable reading store false other (contents other)) :
      Readable reading store owner key value

/-- Everything that is cached may be read. -/
def Progress.Clean (reading : Reading) (store : Store) (owner : Bool) (progress : Progress) : Prop :=
  ∀ entry ∈ progress.cache, Readable reading store owner entry.1 entry.2

variable {reading : Reading} {store : Store} {owner : Bool} {stack : List ArtifactKey} {key : ArtifactKey}
  {progress after : Progress} {row : Event} {value : Json} {bytes : ℕ}

theorem Readable.owned (h : Readable reading store false key value) (owner : Bool) :
    Readable reading store owner key value := by
  obtain ⟨contents, hrow, hpermitted, hcommitted, hsources⟩ := h
  exact ⟨contents, hrow, { hpermitted with scope := .inr (hpermitted.scope.resolve_left Bool.false_ne_true) },
    hcommitted, hsources⟩

theorem permitted_of_readableRow (h : readableRow reading store owner key = .ok row) :
    rowOf store key = some row ∧ Permitted reading owner key row := by
  obtain ⟨objects, hobjects, h⟩ := Py.of_bind h
  split at h
  · cases h
  next found hfound =>
  obtain ⟨_, hactive, h⟩ := Py.of_bind h
  obtain ⟨_, hpolicy, h⟩ := Py.of_bind h
  obtain ⟨_, hblocked, h⟩ := Py.of_bind h
  obtain ⟨_, hscope, h⟩ := Py.of_bind h
  obtain ⟨admitted, hadmits, h⟩ := Py.of_bind h
  obtain ⟨_, hsame, h⟩ := Py.of_bind h
  obtain rfl := Except.ok.inj h
  have hsame := Py.require_eq_ok_iff.mp hsame
  simp only [Bool.and_eq_true, List.all_eq_true, decide_eq_true_eq] at hsame
  exact ⟨by rw [rowOf, hobjects]; exact hfound, by simpa using hactive, by simpa using hpolicy,
    by simpa using hblocked, by simpa using hscope, admitted, hadmits, fun source ↦ ⟨hsame.2 source, hsame.1 source⟩⟩

theorem committed_of_readBlob {before : ℕ} (h : readBlob reading key row before = .ok (value, bytes)) :
    Committed reading key row value := by
  obtain ⟨_, h⟩ := Py.of_rest h
  split at h
  · cases h
  next length found hfound =>
  obtain ⟨_, h⟩ := Py.of_rest h
  obtain ⟨_, h⟩ := Py.of_rest h
  obtain ⟨_, hdigest, h⟩ := Py.of_bind h
  obtain ⟨rfl, -⟩ := Prod.mk.inj (Except.ok.inj h)
  exact ⟨length, hfound, by simpa using hdigest⟩

theorem mem_of_cached (h : cached reading stack key progress = .ok (some value)) : (key, value) ∈ progress.cache := by
  unfold cached at h
  split_ifs at h
  all_goals
    obtain ⟨_, h⟩ := Py.of_rest h
    obtain ⟨_, h⟩ := Py.of_rest h
    obtain ⟨_, h⟩ := Py.of_rest h
    obtain ⟨_, h⟩ := Py.of_rest h
    exact mem_of_lookup (Except.ok.inj h)

/-- Reads that keep the cache readable, one source after the other. -/
theorem readable_of_foldlM {sources : List String} {read : ArtifactKey → Progress → Py (Json × Progress)}
    (hread : ∀ {key progress value after}, progress.Clean reading store false →
      read key progress = .ok (value, after) →
      Readable reading store false key value ∧ after.Clean reading store false)
    (hcache : progress.Clean reading store false)
    (h : sources.foldlM (fun progress source ↦ do return (← read (← splitReference source) progress).2) progress =
      .ok after) :
    after.Clean reading store false ∧ ∀ source ∈ sources, ∀ key, splitReference source = .ok key →
      ∃ value, Readable reading store false key value := by
  induction sources generalizing progress with
  | nil =>
    obtain rfl := Except.ok.inj h
    exact ⟨hcache, fun _ hmem ↦ absurd hmem List.not_mem_nil⟩
  | cons source sources ih =>
    rw [List.foldlM_cons] at h
    obtain ⟨middle, hstep, h⟩ := Py.of_bind h
    obtain ⟨first, hfirst, hstep⟩ := Py.of_bind hstep
    obtain ⟨⟨value, next⟩, hvalue, hstep⟩ := Py.of_bind hstep
    obtain rfl := Except.ok.inj hstep
    obtain ⟨hreadable, hnext⟩ := hread hcache hvalue
    obtain ⟨hafter, hsources⟩ := ih hnext h
    refine ⟨hafter, List.forall_mem_cons.mpr ⟨fun key hkey ↦ ?_, hsources⟩⟩
    obtain rfl := Except.ok.inj (hfirst.symm.trans hkey)
    exact ⟨value, hreadable⟩

theorem readable_of_readFrom {levels : ℕ} (hcache : progress.Clean reading store false)
    (h : readFrom reading store levels owner stack key progress = .ok (value, after)) :
    Readable reading store owner key value ∧ after.Clean reading store owner := by
  induction levels generalizing owner stack key progress after value with
  | zero =>
    obtain ⟨_, h⟩ := Py.of_rest h
    cases h
  | succ levels ih =>
    obtain ⟨known, hcached, h⟩ := Py.of_bind h
    cases known with
    | some found =>
      obtain ⟨rfl, rfl⟩ := Prod.mk.inj (Except.ok.inj h)
      have hmem := mem_of_cached hcached
      exact ⟨(hcache _ hmem).owned owner, fun entry hentry ↦ (hcache entry hentry).owned owner⟩
    | none =>
      obtain ⟨_, h⟩ := Py.of_rest h
      obtain ⟨_, h⟩ := Py.of_rest h
      obtain ⟨row, hrow, h⟩ := Py.of_bind h
      obtain ⟨middle, hfold, h⟩ := Py.of_bind h
      obtain ⟨⟨content, bytes⟩, hblob, h⟩ := Py.of_bind h
      obtain ⟨rfl, rfl⟩ := Prod.mk.inj (Except.ok.inj h)
      obtain ⟨hfound, hpermitted⟩ := permitted_of_readableRow hrow
      obtain ⟨hmiddle, hsources⟩ := readable_of_foldlM (fun hcache hread ↦ ih hcache hread) hcache hfold
      have hderived : ∀ other, Derives store key other → ∃ found, Readable reading store false other found := by
        rintro other ⟨sameRow, hsame, source, hsource, hartifact, hsplit⟩
        obtain rfl := Option.some.inj (hfound.symm.trans hsame)
        exact hsources source (List.mem_filter.mpr ⟨hsource, hartifact⟩) other hsplit
      have : Inhabited Json := ⟨.null⟩
      choose! contents hcontents using hderived
      have hreadable : Readable reading store owner key content :=
        ⟨contents, hfound, hpermitted, committed_of_readBlob hblob, hcontents⟩
      refine ⟨hreadable, fun entry hentry ↦ ?_⟩
      obtain rfl | hentry := List.mem_cons.mp hentry
      · exact hreadable
      · exact (hmiddle entry hentry).owned owner

theorem Readable.acyclic (h : Readable reading store owner key value) :
    ¬Relation.TransGen (Derives store) key key := by
  induction h with
  | intro contents hrow hpermitted hcommitted hsources ih =>
    intro hcycle
    obtain ⟨other, hderives, hback⟩ := Relation.TransGen.head'_iff.mp hcycle
    exact ih other hderives (Relation.TransGen.tail' hback hderives)

theorem Readable.reached (h : Readable reading store owner key value) {other : ArtifactKey}
    (hreached : Relation.TransGen (Derives store) key other) : ∃ found, Readable reading store false other found := by
  induction hreached with
  | single hderives =>
    obtain ⟨contents, -, -, -, hsources⟩ := h
    exact ⟨_, hsources _ hderives⟩
  | tail hbefore hderives ih =>
    obtain ⟨found, ⟨contents, -, -, -, hsources⟩⟩ := ih
    exact ⟨_, hsources _ hderives⟩

/-- A read returns what its row commits to, and only when the row and everything that it was derived from, in no
cycle, may be read by the caller and has its content. -/
theorem get_authorized (reading : Reading) (store : Store) (operator owner : Bool) (key : ArtifactKey) (value : Json)
    (h : get reading store operator owner key = .ok value) :
    (owner = true → operator = true) ∧
    (∃ row, rowOf store key = some row ∧ Permitted reading owner key row ∧ Committed reading key row value) ∧
    ¬Relation.TransGen (Derives store) key key ∧
    ∀ other, Relation.TransGen (Derives store) key other → ∃ row content, rowOf store other = some row ∧
      Permitted reading false other row ∧ Committed reading other row content := by
  have hread : (owner = true → operator = true) ∧ ∃ after, readFrom reading store 17 owner [] key ⟨[], 0⟩ =
      .ok (value, after) := by
    unfold get at h
    split_ifs at h with howner
    · obtain ⟨_, hoperator, h⟩ := Py.of_bind h
      obtain ⟨⟨found, after⟩, hread, h⟩ := Py.of_bind h
      obtain rfl := Except.ok.inj h
      exact ⟨fun _ ↦ Py.require_eq_ok_iff.mp hoperator, after, hread⟩
    · obtain ⟨_, h⟩ := Py.of_rest h
      obtain ⟨⟨found, after⟩, hread, h⟩ := Py.of_bind h
      obtain rfl := Except.ok.inj h
      exact ⟨fun hown ↦ absurd hown howner, after, hread⟩
  obtain ⟨howner, after, hread⟩ := hread
  obtain ⟨hreadable, -⟩ := readable_of_readFrom (fun _ hmem ↦ absurd hmem List.not_mem_nil) hread
  refine ⟨howner, ?_, hreadable.acyclic, fun other hreached ↦ ?_⟩
  · obtain ⟨contents, hrow, hpermitted, hcommitted, -⟩ := hreadable
    exact ⟨_, hrow, hpermitted, hcommitted⟩
  · obtain ⟨found, contents, hrow, hpermitted, hcommitted, -⟩ := hreadable.reached hreached
    exact ⟨_, _, hrow, hpermitted, hcommitted⟩

/-- The last of sixteen summaries is read under the checks of all. -/
theorem get_authorized_chain :
    ∃ row, rowOf (Sample.chain 16) ⟨"notes", Sample.levelName 15⟩ = some row ∧
      Permitted Sample.allowing true ⟨"notes", Sample.levelName 15⟩ row := by
  obtain ⟨cache, hread⟩ := @Sample.readFrom_summary 15 (by decide) 17 true [] (by decide) (by decide)
    fun other _ ↦ List.not_mem_nil
  have hget : get Sample.allowing (Sample.chain 16) true true ⟨"notes", Sample.levelName 15⟩ = .ok .null := by
    rw [get, hread]
    rfl
  obtain ⟨-, ⟨row, hrow, hpermitted, -⟩, -⟩ :=
    get_authorized Sample.allowing (Sample.chain 16) true true ⟨"notes", Sample.levelName 15⟩ .null hget
  exact ⟨row, hrow, hpermitted⟩

end UniMem.NextwaveStore
