import UniMem.NextwaveStore.Artifacts

/-!
# What an erasure erases

The loop passes bare ids on like references. The erasure is the derivation closure exactly when no live artifact
outside it is reached through such a name.
-/

namespace UniMem.NextwaveStore

open Library FrontierProtocol Relation

/-- The artifacts of a store. -/
def Store.artifacts (store : Store) : List Artifact :=
  store.kinds.flatMap fun kind ↦
    kind.objects.map fun row ↦ ⟨kind.name, row, referenceText kind.name row.id⟩

/-- An artifact names another one by its reference. -/
def Artifact.Derives (first second : Artifact) : Prop := first.reference ∈ second.row.sources

/-- An artifact shares its id or its reference with the names of another one. -/
def Artifact.Touches (first second : Artifact) : Prop :=
  first.row.id ∈ second.names ∨ first.reference ∈ second.names

/-- An artifact or one of its sources was requested. -/
def Artifact.Requested (identities : List String) (artifact : Artifact) : Prop :=
  ∃ name ∈ identities, name ∈ artifact.names

/-- A relation between artifacts of a list. -/
def Within (found : List Artifact) (relation : Artifact → Artifact → Prop) (first second : Artifact) : Prop :=
  second ∈ found ∧ relation first second

/-- What follows from the requested artifacts. -/
def Follows (found : List Artifact) (relation : Artifact → Artifact → Prop) (identities : List String)
    (artifact : Artifact) : Prop :=
  ∃ first ∈ found, first.Requested identities ∧ ReflTransGen (Within found relation) first artifact

variable {found : List Artifact} {identities deleted : List String}

variable {artifact : Artifact}

theorem touched_iff :
    artifact.touched deleted = true ↔ ∃ name ∈ deleted, name ∈ artifact.names := by
  rw [Artifact.touched, List.any_eq_true]
  constructor
  · rintro ⟨name, hname, hdeleted⟩
    exact ⟨name, of_decide_eq_true hdeleted, hname⟩
  · rintro ⟨name, hdeleted, hname⟩
    exact ⟨name, hname, decide_eq_true hdeleted⟩

theorem mem_affectedNames {name : String} :
    name ∈ affectedNames found deleted ↔ ∃ artifact ∈ found, artifact.touched deleted = true ∧
      (name = artifact.row.id ∨ name = artifact.reference) := by
  simp [affectedNames, List.mem_flatMap, and_assoc]

/-- A name was requested, or names an artifact that shares names with a requested one. -/
def Named (found : List Artifact) (identities : List String) (name : String) : Prop :=
  name ∈ identities ∨ ∃ artifact, Follows found Artifact.Touches identities artifact ∧
    (name = artifact.row.id ∨ name = artifact.reference)

theorem follows_of_touched (hmem : artifact ∈ found) (hnamed : ∀ name ∈ deleted, Named found identities name)
    (h : artifact.touched deleted = true) :
    Follows found Artifact.Touches identities artifact := by
  obtain ⟨name, hdeleted, hname⟩ := touched_iff.mp h
  obtain hrequested | ⟨first, ⟨start, hstart, hrequested, hpath⟩, heq⟩ := hnamed name hdeleted
  · exact ⟨artifact, hmem, ⟨name, hrequested, hname⟩, .refl⟩
  · refine ⟨start, hstart, hrequested, hpath.tail ⟨hmem, ?_⟩⟩
    obtain rfl | rfl := heq
    · exact Or.inl hname
    · exact Or.inr hname

variable {levels : ℕ} {kind next : Kind} {row : Event}

theorem descend_spec {result : List String} (h : descend found levels deleted = .ok result)
    (hnamed : ∀ name ∈ deleted, Named found identities name) :
    deleted ⊆ result ∧ (∀ name ∈ affectedNames found result, name ∈ result) ∧
      ∀ name ∈ result, Named found identities name := by
  induction levels generalizing deleted with
  | zero => cases h
  | succ levels ih =>
    rw [descend] at h
    split_ifs at h with hclosed
    · obtain rfl := Except.ok.inj h
      exact ⟨List.Subset.refl _, hclosed, hnamed⟩
    · obtain ⟨_, h⟩ := Py.of_rest h
      have hunion : ∀ name ∈ affectedNames found deleted ∪ deleted, Named found identities name := by
        intro name hname
        obtain haffected | hold := List.mem_union_iff.mp hname
        · obtain ⟨artifact, hmem, htouched, heq⟩ := mem_affectedNames.mp haffected
          exact Or.inr ⟨artifact, follows_of_touched hmem hnamed htouched, heq⟩
        · exact hnamed name hold
      obtain ⟨hsubset, hclosed, hall⟩ := ih h hunion
      exact ⟨fun name hname ↦ hsubset (List.mem_union_iff.mpr (Or.inr hname)), hclosed, hall⟩

theorem touched_descend_iff {result : List String} (h : descend found levels identities.dedup = .ok result)
    (hmem : artifact ∈ found) :
    artifact.touched result = true ↔ Follows found Artifact.Touches identities artifact := by
  have hrequested : ∀ name ∈ identities.dedup, Named found identities name :=
    fun name hname ↦ Or.inl (List.mem_dedup.mp hname)
  obtain ⟨hsubset, hclosed, hnamed⟩ := descend_spec h hrequested
  constructor
  · exact follows_of_touched hmem hnamed
  · rintro ⟨first, hfirst, ⟨name, hname, hnames⟩, hpath⟩
    induction hpath with
    | refl => exact touched_iff.mpr ⟨name, hsubset (List.mem_dedup.mpr hname), hnames⟩
    | @tail middle last hbefore hstep ih =>
      have hmiddle : middle ∈ found := by
        obtain rfl | ⟨_, -, hwithin⟩ := ReflTransGen.cases_tail hbefore
        · exact hfirst
        · exact hwithin.1
      have hnames : ∀ name, (name = middle.row.id ∨ name = middle.reference) → name ∈ result :=
        fun name heq ↦ hclosed name (mem_affectedNames.mpr ⟨middle, hmiddle, ih hmiddle, heq⟩)
      obtain hid | hreference := hstep.2
      · exact touched_iff.mpr ⟨_, hnames _ (Or.inl rfl), hid⟩
      · exact touched_iff.mpr ⟨_, hnames _ (Or.inr rfl), hreference⟩

theorem reference_eq_ok {kind identity result : String} (h : reference kind identity = .ok result) :
    result = referenceText kind identity := by
  obtain ⟨name, hname, h⟩ := Py.of_bind h
  obtain ⟨_, hname⟩ := Py.of_rest hname
  obtain ⟨checked, hchecked, h⟩ := Py.of_bind h
  obtain rfl := Except.ok.inj hname
  obtain ⟨-, rfl⟩ := text_eq_ok_iff.mp hchecked
  exact (text_eq_ok_iff.mp h).2.symm

theorem artifactsOf_eq_ok {result : List Artifact} (h : artifactsOf kind = .ok result) :
    result = kind.objects.map fun row ↦ ⟨kind.name, row, referenceText kind.name row.id⟩ := by
  obtain ⟨objects, hlatest, hcollect⟩ := Py.of_bind h
  obtain ⟨_, hobjects⟩ := Py.of_rest hlatest
  obtain rfl := Except.ok.inj hobjects
  have hall := Py.collect_always_eq_ok_iff.mp hcollect
  clear h hcollect
  generalize kind.objects = objects at hall ⊢
  induction hall with
  | nil => rfl
  | cons hrow _ ih =>
    obtain ⟨name, hname, heq⟩ := Py.of_bind hrow
    rw [List.map_cons, ← ih, ← Except.ok.inj heq, reference_eq_ok hname]

theorem artifacts_eq_ok {store : Store} {result : List Artifact} (h : artifacts store = .ok result) :
    result = store.artifacts := by
  obtain ⟨groups, hgroups, heq⟩ := Py.of_bind h
  obtain rfl := Except.ok.inj heq
  have hall := Py.collect_always_eq_ok_iff.mp hgroups
  unfold Store.artifacts
  clear h heq hgroups
  generalize store.kinds = kinds at hall ⊢
  induction hall with
  | nil => rfl
  | cons hkind _ ih => rw [List.flatten_cons, List.flatMap_cons, ih, artifactsOf_eq_ok hkind]

variable {environment : Environment} {live : List String}

theorem removeArtifact_spec (h : removeArtifact environment live kind row = .ok next) :
    next.name = kind.name ∧ next.events = kind.events ++ (if row.status = some .erased then [] else [row.tombstone]) ∧
      (∀ digest ∈ live, digest ∈ kind.blobs → digest ∈ next.blobs) ∧
      ∀ digest ∈ live, digest ∈ kind.cold → digest ∈ next.cold := by
  unfold removeArtifact at h
  by_cases hstatus : row.status = some .erased
  · rw [if_pos hstatus] at h
    obtain rfl := Except.ok.inj h
    rw [if_pos hstatus, List.append_nil]
    exact ⟨rfl, rfl, fun _ _ hmem ↦ hmem, fun _ _ hmem ↦ hmem⟩
  · rw [if_neg hstatus] at h
    obtain ⟨_, h⟩ := Py.of_rest h
    obtain ⟨_, h⟩ := Py.of_rest h
    obtain ⟨_, h⟩ := Py.of_rest h
    obtain rfl := Except.ok.inj h
    have hkept : ∀ digests : List String, ∀ digest ∈ live, digest ∈ digests →
        digest ∈ digests.filter (· ∉ (kind.versions row.id).filter (· ∉ live)) := by
      intro digests digest hlive hmem
      refine List.mem_filter.mpr ⟨hmem, decide_eq_true ?_⟩
      intro hgone
      exact of_decide_eq_true (List.mem_filter.mp hgone).2 hlive
    refine ⟨rfl, by rw [if_neg hstatus], hkept kind.blobs, ?_⟩
    intro digest hlive hmem
    dsimp only
    split_ifs
    · exact hkept kind.cold digest hlive hmem
    · exact hmem

/-- The tombstones of rows that are not erased. -/
def tombstones (rows : List Event) : List Event :=
  (rows.filter (·.status ≠ some .erased)).map Event.tombstone

theorem foldlM_removeArtifact {rows : List Event}
    (h : rows.foldlM (removeArtifact environment live) kind = .ok next) :
    next.name = kind.name ∧ next.events = kind.events ++ tombstones rows ∧
      (∀ digest ∈ live, digest ∈ kind.blobs → digest ∈ next.blobs) ∧
      ∀ digest ∈ live, digest ∈ kind.cold → digest ∈ next.cold := by
  induction rows generalizing kind with
  | nil =>
    obtain rfl := Except.ok.inj h
    exact ⟨rfl, (List.append_nil _).symm, fun _ _ hmem ↦ hmem, fun _ _ hmem ↦ hmem⟩
  | cons row rows ih =>
    rw [List.foldlM_cons] at h
    obtain ⟨middle, hmiddle, h⟩ := Py.of_bind h
    obtain ⟨hname, hevents, hblobs, hcold⟩ := removeArtifact_spec hmiddle
    obtain ⟨hname', hevents', hblobs', hcold'⟩ := ih h
    refine ⟨hname'.trans hname, ?_, ?_, ?_⟩
    · rw [hevents', hevents, List.append_assoc]
      congr 1
      unfold tombstones
      split_ifs with hstatus
      · rw [List.filter_cons_of_neg (by simpa using hstatus), List.nil_append]
      · rw [List.filter_cons_of_pos (by simpa using hstatus), List.map_cons, List.singleton_append]
    · exact fun digest hlive hmem ↦ hblobs' digest hlive (hblobs digest hlive hmem)
    · exact fun digest hlive hmem ↦ hcold' digest hlive (hcold digest hlive hmem)

theorem mem_objects_iff :
    row ∈ kind.objects ↔ lastWith Event.id kind.events row.id = some row := mem_values_index

theorem nodup_objects (kind : Kind) : (kind.objects.map Event.id).Nodup := nodup_map_key_values _ _

theorem mem_affected :
    row ∈ kind.affected deleted ↔ row ∈ kind.objects ∧ kind.touches deleted row = true := by
  rw [Kind.affected, mem_sortBy, List.mem_filter]

theorem removeKind_spec (h : removeKind environment deleted kind = .ok next) (hrow : row ∈ kind.objects) :
    (kind.touches deleted row = true → row.status = some .active → row.tombstone ∈ next.objects) ∧
    (kind.touches deleted row = false → row ∈ next.objects) := by
  obtain ⟨-, hevents, -, -⟩ := foldlM_removeArtifact h
  have hlast : ∀ other, lastWith Event.id (tombstones (kind.affected deleted)) row.id = some other →
      kind.touches deleted row = true ∧ other = row.tombstone := by
    intro other hother
    obtain ⟨hmem, hid⟩ := key_of_lastWith hother
    obtain ⟨source, hsource, rfl⟩ := List.mem_map.mp hmem
    obtain ⟨hobject, htouched⟩ := mem_affected.mp (List.mem_filter.mp hsource).1
    obtain rfl := List.inj_on_of_nodup_map (nodup_objects kind) hobject hrow hid
    exact ⟨htouched, rfl⟩
  constructor
  · intro htouched hstatus
    have hmem : row.tombstone ∈ tombstones (kind.affected deleted) := by
      refine List.mem_map.mpr ⟨row, List.mem_filter.mpr ⟨mem_affected.mpr ⟨hrow, htouched⟩, ?_⟩, rfl⟩
      simp [hstatus]
    cases hfound : lastWith Event.id (tombstones (kind.affected deleted)) row.id with
    | none =>
      have hnil := List.getLast?_eq_none_iff.mp hfound
      exact absurd (List.mem_filter.mpr ⟨hmem, decide_eq_true rfl⟩) (hnil ▸ List.not_mem_nil)
    | some other =>
      obtain ⟨-, rfl⟩ := hlast other hfound
      rw [mem_objects_iff, hevents, lastWith_append]
      exact congrArg (Option.or · _) hfound
  · intro htouched
    have hnone : lastWith Event.id (tombstones (kind.affected deleted)) row.id = none := by
      rw [Option.eq_none_iff_forall_not_mem]
      intro other hother
      rw [(hlast other hother).1] at htouched
      cases htouched
    rw [mem_objects_iff, hevents, lastWith_append, hnone, Option.none_or]
    exact mem_objects_iff.mp hrow

theorem removeKind_blobs (h : removeKind environment deleted kind = .ok next) (hrow : row ∈ kind.objects)
    (hstatus : row.status = some .active) (htouched : kind.touches deleted row = false) {digest : String}
    (hdigest : row.digest = some digest) :
    (digest ∈ kind.blobs → digest ∈ next.blobs) ∧ (digest ∈ kind.cold → digest ∈ next.cold) := by
  obtain ⟨-, -, hblobs, hcold⟩ := foldlM_removeArtifact h
  have hlive : digest ∈ kind.live deleted := by
    refine List.mem_filterMap.mpr ⟨row, List.mem_filter.mpr ⟨hrow, ?_⟩, hdigest⟩
    simp [htouched, hstatus]
  exact ⟨hblobs digest hlive, hcold digest hlive⟩

/-- The last event of an artifact is a tombstone. -/
def ErasedIn (kinds : List Kind) (name identity : String) : Prop :=
  ∃ kind ∈ kinds, kind.name = name ∧ ∃ row ∈ kind.objects, row.id = identity ∧ row.status = some .erased

/-- The last event of an artifact is the same and its blob is where it was. -/
def Intact (store : Store) (result : List Kind) (artifact : Artifact) : Prop :=
  ∃ kind ∈ store.kinds, kind.name = artifact.kind ∧ ∃ next ∈ result, next.name = artifact.kind ∧
    artifact.row ∈ next.objects ∧ ∀ digest, artifact.row.digest = some digest →
      (digest ∈ kind.blobs → digest ∈ next.blobs) ∧ (digest ∈ kind.cold → digest ∈ next.cold)

/-- An active artifact is erased exactly when it was derived from what was requested. -/
def Exact (store : Store) (identities : List String) (result : List Kind) : Prop :=
  ∀ artifact ∈ store.artifacts, artifact.row.status = some .active →
    (ErasedIn result artifact.kind artifact.row.id ↔ Follows store.artifacts Artifact.Derives identities artifact) ∧
    (¬Follows store.artifacts Artifact.Derives identities artifact → Intact store result artifact)

/-- Shared names lead to no active artifact outside the closure. -/
def Separate (store : Store) (identities : List String) : Prop :=
  ∀ first, Follows store.artifacts Artifact.Derives identities first →
    ∀ second, Within store.artifacts Artifact.Touches first second →
      ¬Follows store.artifacts Artifact.Derives identities second →
      ∀ third, ReflTransGen (Within store.artifacts Artifact.Touches) second third →
        third.row.status = some .active → Follows store.artifacts Artifact.Derives identities third

theorem mem_artifacts_iff {store : Store} :
    artifact ∈ store.artifacts ↔ ∃ kind ∈ store.kinds, ∃ row ∈ kind.objects,
      artifact = ⟨kind.name, row, referenceText kind.name row.id⟩ := by
  simp [Store.artifacts, List.mem_flatMap, eq_comm]

theorem Artifact.Derives.touches {first second : Artifact} (h : first.Derives second) :
    first.Touches second := Or.inr (List.mem_cons_of_mem _ (List.mem_cons_of_mem _ h))

theorem Follows.touches (h : Follows found Artifact.Derives identities artifact) :
    Follows found Artifact.Touches identities artifact := by
  obtain ⟨first, hfirst, hrequested, hpath⟩ := h
  refine ⟨first, hfirst, hrequested, ReflTransGen.mono ?_ _ _ hpath⟩
  intro second third hwithin
  exact ⟨hwithin.1, hwithin.2.touches⟩

theorem derived_or_border (h : Follows found Artifact.Touches identities artifact) :
    Follows found Artifact.Derives identities artifact ∨ ∃ first, Follows found Artifact.Derives identities first ∧
        ∃ second, Within found Artifact.Touches first second ∧ ¬Follows found Artifact.Derives identities second ∧
          ReflTransGen (Within found Artifact.Touches) second artifact := by
  obtain ⟨start, hstart, hrequested, hpath⟩ := h
  induction hpath with
  | refl => exact Or.inl ⟨start, hstart, hrequested, .refl⟩
  | @tail middle last _ hstep ih =>
    by_cases hlast : Follows found Artifact.Derives identities last
    · exact Or.inl hlast
    · obtain hmiddle | ⟨first, hfirst, second, hborder, houtside, hreach⟩ := ih
      · exact Or.inr ⟨middle, hmiddle, last, hstep, hlast, .refl⟩
      · exact Or.inr ⟨first, hfirst, second, hborder, houtside, hreach.tail hstep⟩

section Result

variable {store : Store} {result : List Kind}

theorem eraseSources_spec (h : eraseSources environment store identities = .ok result) :
    ∃ deleted, (∀ artifact ∈ store.artifacts, artifact.touched deleted = true ↔
        Follows store.artifacts Artifact.Touches identities artifact) ∧
      List.Forall₂ (fun kind next ↦ removeKind environment deleted kind = .ok next) store.kinds result := by
  obtain ⟨_, h⟩ := Py.of_rest h
  obtain ⟨_, h⟩ := Py.of_rest h
  obtain ⟨_, h⟩ := Py.of_rest h
  obtain ⟨found, hfound, h⟩ := Py.of_bind h
  obtain ⟨deleted, hdeleted, h⟩ := Py.of_bind h
  obtain ⟨_, hcollect⟩ := Py.of_rest h
  obtain rfl := artifacts_eq_ok hfound
  exact ⟨deleted, fun artifact hmem ↦ touched_descend_iff hdeleted hmem,
    Py.collect_always_eq_ok_iff.mp hcollect⟩

theorem exists_next
    (hall : List.Forall₂ (fun kind next ↦ removeKind environment deleted kind = .ok next) store.kinds result)
    (hkind : kind ∈ store.kinds) :
    ∃ next ∈ result, removeKind environment deleted kind = .ok next ∧ next.name = kind.name ∧
      ∀ other ∈ result, other.name = kind.name → other = next := by
  obtain ⟨next, hnext, hremove⟩ := exists_of_mem_forall₂ hall hkind
  refine ⟨next, hnext, hremove, (foldlM_removeArtifact hremove).1, ?_⟩
  intro other hother hname
  obtain ⟨source, hsource, hremove'⟩ := exists_of_mem_forall₂ hall.flip hother
  have hsame : source = kind := List.inj_on_of_nodup_map store.distinct hsource hkind
    ((foldlM_removeArtifact hremove').1.symm.trans hname)
  rw [hsame, hremove] at hremove'
  exact (Except.ok.inj hremove').symm

theorem erased_iff_touches (h : eraseSources environment store identities = .ok result)
    (hmem : artifact ∈ store.artifacts) (hstatus : artifact.row.status = some .active) :
    (ErasedIn result artifact.kind artifact.row.id ↔ Follows store.artifacts Artifact.Touches identities artifact) ∧
    (¬Follows store.artifacts Artifact.Touches identities artifact → Intact store result artifact) := by
  obtain ⟨deleted, htouched, hall⟩ := eraseSources_spec h
  rw [← htouched artifact hmem]
  obtain ⟨kind, hkind, row, hrow, rfl⟩ := mem_artifacts_iff.mp hmem
  obtain ⟨next, hnext, hremove, hname, hunique⟩ := exists_next hall hkind
  obtain ⟨htombstone, hstays⟩ := removeKind_spec hremove hrow
  constructor
  · constructor
    · rintro ⟨other, hother, hotherName, last, hlast, hid, herased⟩
      obtain rfl := hunique other hother hotherName
      by_contra htouch
      have hkept := hstays (Bool.eq_false_iff.mpr htouch)
      have hsame : last = row := List.inj_on_of_nodup_map (nodup_objects other) hlast hkept hid
      rw [hsame, hstatus] at herased
      cases herased
    · intro htouch
      exact ⟨next, hnext, hname, row.tombstone, htombstone htouch hstatus, rfl, rfl⟩
  · intro htouch
    have hfalse := Bool.eq_false_iff.mpr htouch
    refine ⟨kind, hkind, rfl, next, hnext, hname, hstays hfalse, ?_⟩
    intro digest hdigest
    exact removeKind_blobs hremove hrow hstatus hfalse hdigest

/-- An erasure is the derivation closure exactly when no shared name leads out of it. -/
theorem erasure_exact_iff (environment : Environment) (store : Store) (identities : List String)
    (result : List Kind) (h : eraseSources environment store identities = .ok result) :
    Exact store identities result ↔ Separate store identities := by
  constructor
  · intro hexact first hfirst second hborder _ third hreach hactive
    have hmem : third ∈ store.artifacts := by
      obtain rfl | ⟨_, -, hwithin⟩ := ReflTransGen.cases_tail hreach
      · exact hborder.1
      · exact hwithin.1
    obtain ⟨start, hstart, hrequested, hpath⟩ := hfirst.touches
    have htouches : Follows store.artifacts Artifact.Touches identities third :=
      ⟨start, hstart, hrequested, (hpath.tail hborder).trans hreach⟩
    exact ((hexact third hmem hactive).1).mp (((erased_iff_touches h hmem hactive).1).mpr htouches)
  · intro hseparate artifact hmem hactive
    have hiff : Follows store.artifacts Artifact.Touches identities artifact ↔
        Follows store.artifacts Artifact.Derives identities artifact := by
      constructor
      · intro htouches
        obtain hderived | ⟨first, hfirst, second, hborder, houtside, hreach⟩ := derived_or_border htouches
        · exact hderived
        · exact hseparate first hfirst second hborder houtside artifact hreach hactive
      · exact Follows.touches
    rw [← hiff]
    exact erased_iff_touches h hmem hactive

end Result

namespace Sample

def permissive : Environment := ⟨fun _ ↦ true, fun _ _ ↦ true, fun _ _ ↦ true⟩

def digest (char : Char) : String := String.ofList (List.replicate 64 char)

def report : Event := ⟨"x", some (digest 'a'), some .active, [], ["fact-1"], .null⟩

def note (identity : String) : Event := ⟨identity, some (digest 'b'), some .active, [], [], .null⟩

def exported : Artifact := ⟨"exports", report, referenceText "exports" "x"⟩

def noted (identity : String) : Artifact :=
  ⟨"notes", note identity, referenceText "notes" identity⟩

def store (identity : String) : Store where
  kinds := [⟨"exports", [report], [digest 'a'], []⟩, ⟨"notes", [note identity], [digest 'b'], []⟩]
  distinct := by simp

def afterExport (identity : String) : List Kind :=
  [⟨"exports", [report, report.tombstone], [], []⟩, ⟨"notes", [note identity], [digest 'b'], []⟩]

def afterBoth : List Kind :=
  [⟨"exports", [report, report.tombstone], [], []⟩, ⟨"notes", [note "x", (note "x").tombstone], [], []⟩]

theorem not_derived (identity : String) (h : "fact-1" ∉ (noted identity).names) :
    ¬Follows (store identity).artifacts Artifact.Derives ["fact-1"] (noted identity) := by
  rintro ⟨first, -, ⟨name, hname, hnames⟩, hpath⟩
  obtain rfl | ⟨_, -, hwithin⟩ := ReflTransGen.cases_tail hpath
  · obtain rfl := List.mem_singleton.mp hname
    exact h hnames
  · exact absurd hwithin.2 List.not_mem_nil

theorem separate : Separate (store "y") ["fact-1"] := by
  intro first hfirst second hborder houtside
  have hartifacts : (store "y").artifacts = [exported, noted "y"] := rfl
  have hnoted := not_derived "y" (by decide +kernel)
  have hexported : Follows (store "y").artifacts Artifact.Derives ["fact-1"] exported :=
    ⟨exported, hartifacts ▸ List.mem_cons_self, ⟨"fact-1", List.mem_cons_self, by decide +kernel⟩, .refl⟩
  have hfirstMem : first ∈ (store "y").artifacts := by
    obtain ⟨start, hstart, -, hpath⟩ := hfirst
    obtain rfl | ⟨_, -, hwithin⟩ := ReflTransGen.cases_tail hpath
    · exact hstart
    · exact hwithin.1
  rw [hartifacts, List.mem_pair] at hfirstMem
  obtain ⟨hsecondMem, htouches⟩ := hborder
  rw [hartifacts, List.mem_pair] at hsecondMem
  obtain rfl | rfl := hfirstMem
  · obtain rfl | rfl := hsecondMem
    · exact absurd hexported houtside
    · exact absurd htouches (by unfold Artifact.Touches; decide +kernel)
  · exact absurd hfirst hnoted

end Sample

/-- The erasure of a fact erases its export and an unrelated note of the same id. -/
theorem unrelated_note_erased :
    eraseSources Sample.permissive (Sample.store "x") ["fact-1"] = .ok Sample.afterBoth ∧
      ErasedIn Sample.afterBoth "notes" "x" ∧
      ¬Follows (Sample.store "x").artifacts Artifact.Derives ["fact-1"] (Sample.noted "x") ∧
      ¬Exact (Sample.store "x") ["fact-1"] Sample.afterBoth := by
  have herased : ErasedIn Sample.afterBoth "notes" "x" :=
    ⟨_, List.mem_cons_of_mem _ List.mem_cons_self, rfl, (Sample.note "x").tombstone, List.mem_cons_self, rfl, rfl⟩
  have houtside := Sample.not_derived "x" (by decide +kernel)
  refine ⟨rfl, herased, houtside, ?_⟩
  intro hexact
  have hmem : Sample.noted "x" ∈ (Sample.store "x").artifacts := List.mem_cons_of_mem _ List.mem_cons_self
  exact houtside (((hexact _ hmem rfl).1).mp herased)

theorem erasure_exact_iff_separate :
    eraseSources Sample.permissive (Sample.store "y") ["fact-1"] = .ok (Sample.afterExport "y") ∧
      Exact (Sample.store "y") ["fact-1"] (Sample.afterExport "y") :=
  ⟨rfl, (erasure_exact_iff Sample.permissive (Sample.store "y") ["fact-1"] (Sample.afterExport "y") rfl).mpr
    Sample.separate⟩

end UniMem.NextwaveStore
