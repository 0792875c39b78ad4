import UniMem.Passport.Manifest

/-!
# Passports that are built

`entry` addresses a content whatever the order of its fields is, so the entries of a manifest are addressed,
  grouped and
ordered again as they were, and `verify` accepts what `build` returns.
-/

namespace UniMem.Passport

open Library FrontierProtocol TransparencyLog

/-- `json.loads` reads the canonical text of a Python value back. -/
def Setting.Reads (setting : Setting) (floats : Set Decimal) : Prop :=
  ∀ value, Genuine floats value → Wirable value → setting.loads (canonicalBytes value) = some value.sortKeys

/-- Digests are canonical and free of collisions, also between leaves and inner nodes. -/
structure Setting.CollisionFree (setting : Setting) : Prop where
  messages : setting.runtime.CollisionFree
  nodes : setting.suite.CollisionFree
  canonical : ∀ message, setting.suite.canonical (setting.runtime.sha256 message)
  separated : ∀ message left right, setting.suite.canonical left → setting.suite.canonical right →
    setting.runtime.sha256 (0 :: message) ≠ setting.suite.combine left right

/-- The fields of an object with all keys sorted. -/
def sortedRow (fields : Row) : Row := (Json.sortKeysFields fields).insertionSort fun first second ↦ first.1 ≤ second.1

theorem sortKeys_obj (fields : Row) : (Json.obj fields).sortKeys = .obj (sortedRow fields) := by
  rw [Json.sortKeys, sortedRow]

theorem lookup_sortedRow (fields : Row) (name : String) :
    (sortedRow fields).lookup name = (fields.lookup name).map Json.sortKeys :=
  lookup_of_sortKeys (sortKeys_obj fields).symm name

theorem wirable_sortKeys_iff {value : Json} : Wirable value.sortKeys ↔ Wirable value :=
  ⟨fun h ↦ h.of_noLarger (noLarger_of_sortKeys value), fun h ↦ h.of_noLarger (noLarger_sortKeys value)⟩

theorem wirable_of_same {first second : Json} (h : Wirable first) (hsame : first.Same second) : Wirable second := by
  rw [← wirable_sortKeys_iff] at h ⊢
  rwa [← hsame]

section Entries

variable {setting : Setting} {floats : Set Decimal} {value content clean : Row} {found : Entry}

theorem snapshot_eq_ok_iff : snapshot setting value = .ok clean ↔
    Wirable (.obj value) ∧ setting.loads (canonicalBytes (.obj value)) = some (.obj clean) := by
  unfold snapshot
  rw [Py.bind_eq_ok_iff]
  constructor
  · rintro ⟨encoded, hencoded, h⟩
    obtain ⟨hwirable, rfl⟩ := wire_eq_ok_iff.mp hencoded
    refine ⟨hwirable, ?_⟩
    split at h
    · next fields hloads =>
      obtain rfl := Except.ok.inj h
      exact hloads
    · cases h
    · cases h
  · rintro ⟨hwirable, hloads⟩
    refine ⟨_, hwirable.wire_eq, ?_⟩
    rw [hloads]
    rfl

theorem snapshot_eq_ok_of_reads (hreads : setting.Reads floats) (hgenuine : Genuine floats (.obj value)) :
    snapshot setting value = .ok clean ↔ Wirable (.obj value) ∧ clean = sortedRow value := by
  rw [snapshot_eq_ok_iff]
  refine and_congr_right fun hwirable ↦ ?_
  rw [hreads _ hgenuine hwirable, sortKeys_obj, Option.some.injEq, Json.obj.injEq]
  exact eq_comm

theorem entry_eq_ok_iff : entry setting value = .ok found ↔
    keysAre value entryFields = true ∧ snapshot setting value = .ok found.clean ∧
      checkEntry setting found.clean = .ok () ∧ hash setting (.obj found.clean) = .ok found.id := by
  unfold entry
  simp only [Py.bind_eq_ok_iff, Py.require_eq_ok_iff, Py.pure_eq_ok, Except.ok.injEq]
  constructor
  · rintro ⟨_, hkeys, clean, hclean, _, hcheck, id, hid, rfl⟩
    exact ⟨hkeys, hclean, hcheck, hid⟩
  · rintro ⟨hkeys, hclean, hcheck, hid⟩
    exact ⟨(), hkeys, _, hclean, (), hcheck, _, hid, rfl⟩

/-- An addressed entry: its content is sorted, admissible and has its address. -/
structure Addressed (setting : Setting) (floats : Set Decimal) (found : Entry) : Prop where
  keys : (found.clean.map Prod.fst).Perm entryFields
  sorted : sortedRow found.clean = found.clean
  genuine : Genuine floats (.obj found.clean)
  wirable : Wirable (.obj found.clean)
  admissible : checkEntry setting found.clean = .ok ()
  address : hash setting (.obj found.clean) = .ok found.id

theorem addressed_of_entry (hreads : setting.Reads floats) (hgenuine : Genuine floats (.obj value))
    (h : entry setting value = .ok found) : Addressed setting floats found := by
  obtain ⟨hkeys, hsnapshot, hcheck, hid⟩ := entry_eq_ok_iff.mp h
  obtain ⟨hwirable, hclean⟩ := (snapshot_eq_ok_of_reads hreads hgenuine).mp hsnapshot
  have hsort : (Json.obj value).sortKeys = .obj found.clean := by rw [sortKeys_obj, hclean]
  refine ⟨?_, ?_, ?_, ?_, hcheck, hid⟩
  · exact (perm_keys_sortKeys hsort).trans (keysAre_iff.mp hkeys)
  · have htwice := Json.sortKeys_sortKeys (.obj value)
    rw [hsort, sortKeys_obj, Json.obj.injEq] at htwice
    exact htwice
  · rw [← hsort]
    exact hgenuine.sortKeys
  · rw [← hsort]
    exact wirable_sortKeys_iff.mpr hwirable

section

variable (h : Addressed setting floats found)
include h

theorem Addressed.nodup : (found.fields.map Prod.fst).Nodup := by
  have hperm : (found.fields.map Prod.fst).Perm ("id" :: entryFields) := h.keys.cons "id"
  exact hperm.nodup_iff.mpr (by decide)

theorem Addressed.genuine_fields : Genuine floats (.obj found.fields) := by
  refine genuine_obj.mpr ⟨h.nodup, ?_⟩
  rw [Entry.fields, List.forall_mem_cons]
  exact ⟨genuine_str _, (genuine_obj.mp h.genuine).2⟩

omit h in
theorem valued_of_admissible {depth : ℕ} {node : Json} (h : NodeAdmissible depth node) : Valued node := by
  cases node with
  | float decimal =>
    obtain ⟨text, value, hprintable⟩ := decimal
    cases value with
    | none => exact h.elim
    | some number => rfl
  | _ => trivial

omit h in
theorem valued_of_wirable {tree : Json} (h : Wirable tree) : tree.Everywhere (fun _ ↦ Valued) 0 :=
  everywhere_mono (fun _ _ ↦ valued_of_admissible) h.bounded.admissible

theorem Addressed.valued :
    (Json.obj found.fields).Everywhere (fun _ ↦ Valued) 0 := by
  have hclean := valued_of_wirable h.wirable
  rw [Json.everywhere_iff, Json.children] at hclean ⊢
  rw [Entry.fields, List.map_cons, List.forall_mem_cons]
  exact ⟨trivial, trivial, hclean.2⟩

theorem Addressed.entry_eq (hreads : setting.Reads floats)
    (hperm : content.Perm found.clean) : entry setting content = .ok found := by
  have hsame : (Json.obj found.clean).Same (.obj content) :=
    (same_obj_of_perm hperm (genuine_obj.mp h.genuine).1).symm
  refine entry_eq_ok_iff.mpr ⟨?_, snapshot_eq_ok_iff.mpr ⟨wirable_of_same h.wirable hsame, ?_⟩, h.admissible,
    h.address⟩
  · exact keysAre_iff.mpr ((hperm.map Prod.fst).trans h.keys)
  · rw [← canonicalBytes_congr hsame, hreads _ h.genuine h.wirable, sortKeys_obj, h.sorted]

theorem Addressed.perm_contentOf :
    (contentOf (sortedRow found.fields)).Perm found.clean := by
  have hid : ∀ field ∈ found.clean, field.1 ≠ "id" := by
    intro field hfield heq
    have hmem := h.keys.mem_iff.mp (List.mem_map_of_mem hfield)
    rw [heq] at hmem
    exact absurd hmem (by decide)
  have hsorted : (sortedRow found.fields).Perm (("id", .str found.id) :: Json.sortKeysFields found.clean) :=
    List.perm_insertionSort _ _
  have hclean : (Json.sortKeysFields found.clean).Perm found.clean := by
    have hperm := List.perm_insertionSort (fun first second : String × Json ↦ first.1 ≤ second.1)
      (Json.sortKeysFields found.clean)
    rw [← sortedRow, h.sorted] at hperm
    exact hperm.symm
  have hall := (hsorted.trans (hclean.cons _)).filter fun field ↦ field.1 ≠ "id"
  have hkept : found.clean.filter (fun field ↦ field.1 ≠ "id") = found.clean :=
    List.filter_eq_self.mpr fun field hfield ↦ by simpa using hid field hfield
  rw [List.filter_cons_of_neg (by simp), hkept] at hall
  exact hall

theorem Addressed.verifyEntry_eq (hreads : setting.Reads floats) :
    verifyEntry setting (.obj (sortedRow found.fields)) = .ok (contentOf (sortedRow found.fields)) := by
  have hkeys : keysAre (sortedRow found.fields) ("id" :: entryFields) = true :=
    keysAre_iff.mpr ((perm_keys_sortKeys (sortKeys_obj _)).trans (h.keys.cons "id"))
  have hsame : (Json.obj found.fields).Same (.obj (sortedRow found.fields)) := by
    rw [← sortKeys_obj, Json.Same, Json.sortKeys_sortKeys]
  have hequal := equal_of_same h.genuine_fields h.valued hsame
  rw [verifyEntry, hkeys, Py.require_true, Py.bind_ok, h.entry_eq hreads h.perm_contentOf, Py.bind_ok, hequal,
    Py.require_true, Py.bind_ok, Py.pure_eq_ok]

end

end Entries

section Built

variable {setting : Setting} {floats : Set Decimal} {sources : Components} {createdAt sourceAgent : Json}
  {agent manifest : Row} {groups : List (List Entry)} {root : String}

variable {value : Json} {written kind : String} {entries : List Entry} {α : Type}

theorem exists_str_of_moment {calendar : Calendar} (h : moment calendar value = .ok written) :
    ∃ content, value = .str content := by
  obtain ⟨content, hcontent, -⟩ := Py.of_bind h
  exact ⟨content, (textArgument_eq_ok_iff.mp hcontent).1⟩

theorem exists_str_of_modelDigest (h : modelDigest value = .ok written) :
    ∃ content, value = .str content := by
  cases value with
  | str content => exact ⟨content, rfl⟩
  | _ => cases h

/-- What the source agent of a manifest has to say. -/
structure AgentAccepted (agent : Row) : Prop where
  keys : keysAre agent ["name", "model_digest", "model_identity", "runtime"] = true
  name : ∃ name, agent.lookup "name" = some (.str name) ∧ text name "source agent" 128 = .ok name
  digest : ∃ digest written, agent.lookup "model_digest" = some (.str digest) ∧ modelDigest (.str digest) =
    .ok written
  identity : agent.lookup "model_identity" = some (.str "operator-declared digest; execution not attested")
  runtime : agent.lookup "runtime" = some (.str "unimem")

theorem checkSource_eq_ok_iff : checkSource sources sourceAgent = .ok agent ↔
    sourceAgent = .obj agent ∧ (∀ group ∈ sources.groups, group.1 ∈ kinds) ∧ AgentAccepted agent := by
  cases sourceAgent with
  | obj fields =>
    rw [checkSource, Json.obj.injEq]
    simp only [Py.bind_eq_ok_iff, Py.require_eq_ok_iff, Py.pure_eq_ok, Except.ok.injEq, field_eq_ok_iff,
      textArgument_eq_ok_iff, List.all_eq_true, decide_eq_true_eq, equal_str_iff]
    constructor
    · rintro ⟨_, hkinds, _, hkeys, _, hname, name, ⟨rfl, htext⟩, digest, hdigest, written, hwritten, _, hidentity, _,
        rfl, _, hruntime, _, rfl, rfl⟩
      obtain ⟨content', rfl⟩ := exists_str_of_modelDigest hwritten
      exact ⟨rfl, hkinds, hkeys, ⟨_, hname, htext⟩, ⟨_, written, hdigest, hwritten⟩, hidentity, hruntime⟩
    · rintro ⟨rfl, hkinds, hkeys, ⟨name, hname, htext⟩, ⟨digest, written, hdigest, hwritten⟩, hidentity, hruntime⟩
      exact ⟨(), hkinds, (), hkeys, _, hname, name, ⟨rfl, htext⟩, _, hdigest, written, hwritten, _, hidentity, (),
        rfl, _, hruntime, (), rfl, rfl⟩
  | _ => simp [checkSource]

theorem AgentAccepted.sorted (h : AgentAccepted agent) : AgentAccepted (sortedRow agent) := by
  obtain ⟨hkeys, ⟨name, hname, htext⟩, ⟨digest, written, hdigest, hwritten⟩, hidentity, hruntime⟩ := h
  refine ⟨?_, ⟨name, ?_, htext⟩, ⟨digest, written, ?_, hwritten⟩, ?_, ?_⟩
  · exact keysAre_iff.mpr ((perm_keys_sortKeys (sortKeys_obj agent)).trans (keysAre_iff.mp hkeys))
  · rw [lookup_sortedRow, hname]
    rfl
  · rw [lookup_sortedRow, hdigest]
    rfl
  · rw [lookup_sortedRow, hidentity]
    rfl
  · rw [lookup_sortedRow, hruntime]
    rfl

/-- What a call of `build` that returns has found. -/
structure Built (setting : Setting) (sources : Components) (createdAt sourceAgent : Json) (manifest agent : Row)
    (groups : List (List Entry)) (root : String) : Prop where
  stamped : ∃ written, moment setting.calendar createdAt = .ok written
  source : checkSource sources sourceAgent = .ok agent
  count_pos : 1 ≤ sources.count
  count_le : sources.count ≤ maxEntries
  gathered : Py.collect (Py.always (group setting sources)) kinds = .ok groups
  identities : (groups.flatten.map Entry.identity).Nodup
  rooted : ∃ leaves, Py.collect (Py.always fun entry ↦ leafHash setting (.obj (Entry.fields entry))) groups.flatten =
    .ok leaves ∧ treeHash setting.suite leaves = .ok root
  length_le : (canonicalBytes (.obj (manifestOf createdAt agent groups sources.count root))).length ≤ maxPassportBytes
  written : snapshot setting (manifestOf createdAt agent groups sources.count root) = .ok manifest

theorem build_eq_ok_iff : build setting sources createdAt sourceAgent = .ok manifest ↔
    ∃ agent groups root, Built setting sources createdAt sourceAgent manifest agent groups root := by
  unfold build
  simp only [Py.bind_eq_ok_iff, Py.require_eq_ok_iff, count_eq_ok_iff, decide_eq_true_eq]
  constructor
  · rintro ⟨written, hmoment, agent, hsource, _, ⟨⟨hpos, hle⟩, rfl⟩, groups, hgroups, _, hnodup, leaves, hleaves,
      root, hroot, encoded, hencoded, _, hlength, hsnapshot⟩
    obtain ⟨-, rfl⟩ := wire_eq_ok_iff.mp hencoded
    exact ⟨agent, groups, root, ⟨written, hmoment⟩, hsource, by exact_mod_cast hpos, by exact_mod_cast hle, hgroups,
      hnodup, ⟨leaves, hleaves, hroot⟩, hlength, hsnapshot⟩
  · rintro ⟨agent, groups, root, ⟨written, hmoment⟩, hsource, hpos, hle, hgroups, hnodup, ⟨leaves, hleaves, hroot⟩,
      hlength, hsnapshot⟩
    have hwirable := (snapshot_eq_ok_iff.mp hsnapshot).1
    exact ⟨written, hmoment, agent, hsource, _, ⟨⟨by exact_mod_cast hpos, by exact_mod_cast hle⟩, rfl⟩, groups,
      hgroups, (), hnodup, leaves, hleaves, root, hroot, _, hwirable.wire_eq, (), hlength, hsnapshot⟩

theorem Components.count_eq (sources : Components) (h : ∀ group ∈ sources.groups, group.1 ∈ kinds) :
    sources.count = (kinds.map fun kind ↦ (sources.get kind).length).sum := by
  have hkinds : kinds.Nodup := by decide
  have hkeys : sources.groups.map (fun group ↦ group.2.length) =
      (sources.groups.map Prod.fst).map fun kind ↦ (sources.get kind).length := by
    rw [List.map_map]
    apply List.map_congr_left
    intro group hgroup
    have hlookup := (lookup_eq_some_iff_mem sources.nodup).mpr hgroup
    rw [Function.comp_apply, Components.get, hlookup, Option.getD_some]
  rw [Components.count, hkeys, ← List.sum_toFinset _ sources.nodup, ← List.sum_toFinset _ hkinds]
  refine Finset.sum_subset ?_ ?_
  · intro kind hkind
    obtain ⟨group, hgroup, rfl⟩ := List.mem_map.mp (List.mem_toFinset.mp hkind)
    exact List.mem_toFinset.mpr (h group hgroup)
  · intro kind _ habsent
    rw [List.mem_toFinset] at habsent
    have hlookup : sources.groups.lookup kind = none := by
      rw [List.lookup_eq_none_iff]
      intro group hgroup
      have hne : kind ≠ group.1 := by
        rintro rfl
        exact habsent (List.mem_map_of_mem hgroup)
      exact bne_iff_ne.mpr hne
    rw [Components.get, hlookup]
    rfl

/-- What a component holds is addressed and ordered. -/
structure Ordered (setting : Setting) (floats : Set Decimal) (entries : List Entry) : Prop where
  addressed : ∀ found ∈ entries, Addressed setting floats found
  sorted : sortEntries entries = entries

theorem ordered_of_group (hreads : setting.Reads floats)
    (hgenuine : ∀ value ∈ sources.get kind, Genuine floats (.obj value))
    (h : group setting sources kind = .ok entries) :
    Ordered setting floats entries ∧ entries.length = (sources.get kind).length := by
  obtain ⟨unsorted, hunsorted, rfl⟩ := Py.map_eq_ok_iff.mp h
  have hentries := Py.collect_always_eq_ok_iff.mp hunsorted
  refine ⟨⟨fun found hfound ↦ ?_, ?_⟩, ?_⟩
  · rw [sortEntries, List.mem_insertionSort] at hfound
    obtain ⟨value, hvalue, hentry⟩ := exists_of_mem_forall₂ hentries.flip hfound
    exact addressed_of_entry hreads (hgenuine value hvalue) hentry
  · have htotal : Std.Total fun first second : Entry ↦ first.id ≤ second.id := ⟨fun a b ↦ le_total a.id b.id⟩
    have htrans : IsTrans Entry fun first second ↦ first.id ≤ second.id := ⟨fun _ _ _ ↦ le_trans⟩
    exact (List.pairwise_insertionSort _ _).insertionSort_eq
  · rw [sortEntries, List.length_insertionSort, hentries.length_eq]

/-- The contents under which a manifest lists some entries. -/
def contents (entries : List Entry) : List Row := entries.map fun found ↦ contentOf (sortedRow found.fields)

theorem Ordered.group_eq (h : Ordered setting floats entries) (hreads : setting.Reads floats)
    (hget : sources.get kind = contents entries) : group setting sources kind = .ok entries := by
  have hread : Py.collect (Py.always (entry setting)) (contents entries) = .ok entries := by
    rw [Py.collect_always_eq_ok_iff, contents, List.forall₂_map_left_iff, List.forall₂_same]
    exact fun found hfound ↦ (h.addressed found hfound).entry_eq hreads (h.addressed found hfound).perm_contentOf
  rw [group, hget, hread, Py.map_ok, h.sorted]

theorem genuine_listed (h : Ordered setting floats entries) :
    Genuine floats (listed entries) := by
  rw [listed, genuine_arr, List.forall_mem_map]
  exact fun found hfound ↦ (h.addressed found hfound).genuine_fields

theorem sortKeys_listed (entries : List Entry) :
    (listed entries).sortKeys = .arr (entries.map fun found ↦ .obj (sortedRow found.fields)) := by
  rw [listed, Json.sortKeys, Json.sortKeysItems_eq, List.map_map]
  exact congrArg Json.arr (List.map_congr_left fun found _ ↦ sortKeys_obj found.fields)

theorem Ordered.verifyComponent_eq (h : Ordered setting floats entries) (hreads : setting.Reads floats)
    {listing : Row} (hlength : entries.length ≤ maxEntries)
    (hlookup : listing.lookup kind = some (listed entries).sortKeys) :
    verifyComponent setting listing kind = .ok (contents entries) := by
  have hread : Py.collect (Py.always (verifyEntry setting)) (entries.map fun found ↦ .obj (sortedRow found.fields)) =
      .ok (contents entries) := by
    rw [Py.collect_always_eq_ok_iff, contents, List.forall₂_map_left_iff, List.forall₂_map_right_iff,
      List.forall₂_same]
    exact fun found hfound ↦ (h.addressed found hfound).verifyEntry_eq hreads
  rw [verifyComponent, field, hlookup, sortKeys_listed, Py.bind_ok]
  dsimp only
  rw [List.length_map, decide_eq_true hlength, Py.require_true, Py.bind_ok, hread]

theorem same_manifestOf (createdAt : Json) (agent : Row) (groups : List (List Entry)) (count : ℕ) (root : String) :
    (Json.obj (manifestOf createdAt agent groups count root)).Same
      (.obj (manifestOf createdAt (sortedRow agent) groups count root)) := by
  have hagent : (Json.obj (sortedRow agent)).sortKeys = (Json.obj agent).sortKeys := by
    rw [← sortKeys_obj, Json.sortKeys_sortKeys]
  have hfields : Json.sortKeysFields (manifestOf createdAt agent groups count root) =
      Json.sortKeysFields (manifestOf createdAt (sortedRow agent) groups count root) := by
    rw [Json.sortKeysFields_eq, Json.sortKeysFields_eq]
    simp only [manifestOf, List.map_cons, hagent]
  rw [Json.Same, Json.sortKeys, Json.sortKeys, hfields]

/-- The fields of a manifest. -/
def manifestFields : List String :=
  ["format", "schema_version", "created_at", "source_agent", "components", "entry_count", "hash_algorithm",
    "root_hash", "mapping"]

theorem map_fst_manifestOf (createdAt : Json) (agent : Row) (groups : List (List Entry)) (count : ℕ) (root : String) :
    (manifestOf createdAt agent groups count root).map Prod.fst = manifestFields := rfl

theorem genuine_manifestOf {content : String} {count : ℕ} (hagent : Genuine floats (.obj agent))
    (hgroups : ∀ entries ∈ groups, Ordered setting floats entries) :
    Genuine floats (.obj (manifestOf (.str content) agent groups count root)) := by
  refine genuine_obj.mpr ⟨by rw [map_fst_manifestOf]; decide, ?_⟩
  have hcomponents : Genuine floats (.obj (kinds.zip (groups.map listed))) := by
    refine genuine_obj.mpr ⟨(map_fst_zip_sublist _ _).nodup (by decide), ?_⟩
    rintro ⟨kind, value⟩ hmem
    obtain ⟨entries, hentries, rfl⟩ := List.mem_map.mp (List.of_mem_zip hmem).2
    exact genuine_listed (hgroups entries hentries)
  simp only [manifestOf, List.forall_mem_cons, hagent, hcomponents, genuine_str, genuine_int, true_and]
  exact fun field hfield ↦ absurd hfield List.not_mem_nil

theorem eq_map_of_forall₂ {β : Type} {change : α → β} {first : List α} {second : List β}
    (h : List.Forall₂ (fun value result ↦ result = change value) first second) : second = first.map change := by
  induction h with
  | nil => rfl
  | cons hhead _ ih => rw [List.map_cons, hhead, ih]

theorem Built.forall₂ (h : Built setting sources createdAt sourceAgent manifest agent groups root) :
    List.Forall₂ (fun kind entries ↦ group setting sources kind = .ok entries) kinds groups :=
  Py.collect_always_eq_ok_iff.mp h.gathered

theorem lookup_zip {first : List String} {second : List α} (h : first.Nodup) {key : String} {value : α}
    (hmem : (key, value) ∈ first.zip second) : (first.zip second).lookup key = some value :=
  (lookup_eq_some_iff_mem ((map_fst_zip_sublist first second).nodup h)).mpr hmem

theorem genuine_get (hgenuine : ∀ group ∈ sources.groups, ∀ value ∈ group.2, Genuine floats (.obj value))
    (kind : String) :
    ∀ value ∈ sources.get kind, Genuine floats (.obj value) := by
  intro value hvalue
  rw [Components.get] at hvalue
  cases hlookup : sources.groups.lookup kind with
  | none =>
    rw [hlookup] at hvalue
    exact absurd hvalue List.not_mem_nil
  | some values =>
    rw [hlookup] at hvalue
    exact hgenuine _ (mem_of_lookup hlookup) value hvalue

section Spec

variable (hreads : setting.Reads floats)
  (hgenuine : ∀ group ∈ sources.groups, ∀ value ∈ group.2, Genuine floats (.obj value))
  (h : Built setting sources createdAt sourceAgent manifest agent groups root)

include hreads hgenuine h

theorem Built.group_spec : List.Forall₂ (fun kind entries ↦ Ordered setting floats entries ∧
    entries.length = (sources.get kind).length) kinds groups :=
  h.forall₂.imp fun kind _ hgroup ↦ ordered_of_group hreads (genuine_get hgenuine kind) hgroup

theorem Built.ordered : ∀ entries ∈ groups, Ordered setting floats entries := by
  intro entries hentries
  obtain ⟨_, -, hordered, -⟩ := exists_of_mem_forall₂ (h.group_spec hreads hgenuine).flip hentries
  exact hordered

theorem Built.length_flatten : groups.flatten.length = sources.count := by
  obtain ⟨-, hkinds, -⟩ := checkSource_eq_ok_iff.mp h.source
  have hlengths := eq_map_of_forall₂ ((List.forall₂_map_right_iff (f := List.length)).mpr
    ((h.group_spec hreads hgenuine).imp fun _ _ hgroup ↦ hgroup.2))
  rw [List.length_flatten, hlengths, sources.count_eq hkinds]

theorem Built.written_eq (hagent : Genuine floats sourceAgent) :
    Wirable (.obj (manifestOf createdAt agent groups sources.count root)) ∧
      manifest = sortedRow (manifestOf createdAt agent groups sources.count root) := by
  obtain ⟨written, hmoment⟩ := h.stamped
  obtain ⟨content, rfl⟩ := exists_str_of_moment hmoment
  obtain ⟨rfl, -, -⟩ := checkSource_eq_ok_iff.mp h.source
  exact (snapshot_eq_ok_of_reads hreads (genuine_manifestOf hagent (h.ordered hreads hgenuine))).mp h.written

end Spec

theorem verify_of_build (hreads : setting.Reads floats)
    (hgenuine : ∀ group ∈ sources.groups, ∀ value ∈ group.2, Genuine floats (.obj value))
    (hagent : Genuine floats sourceAgent) (h : build setting sources createdAt sourceAgent = .ok manifest) :
    verify setting manifest = .ok manifest := by
  obtain ⟨agent, groups, root, hbuilt⟩ := build_eq_ok_iff.mp h
  obtain ⟨written, hmoment⟩ := hbuilt.stamped
  obtain ⟨content, rfl⟩ := exists_str_of_moment hmoment
  obtain ⟨rfl, hkinds, haccepted⟩ := checkSource_eq_ok_iff.mp hbuilt.source
  have hgroups := List.forall₂_iff_zip.mp (hbuilt.group_spec hreads hgenuine)
  have hzip : List.Forall₂ (fun kind entries ↦ (kind, entries) ∈ kinds.zip groups) kinds groups :=
    List.forall₂_iff_zip.mpr ⟨hgroups.1, fun hmem ↦ hmem⟩
  have hmanifest : Genuine floats (.obj (manifestOf (.str content) agent groups sources.count root)) :=
    genuine_manifestOf hagent (hbuilt.ordered hreads hgenuine)
  obtain ⟨hwirable, rfl⟩ := hbuilt.written_eq hreads hgenuine hagent
  obtain ⟨value, hvalue⟩ : ∃ value, manifestOf (.str content) agent groups sources.count root = value := ⟨_, rfl⟩
  have hlength := hbuilt.length_le
  rw [hvalue] at hwirable hmanifest hlength ⊢
  -- Every component is read back as the contents of its entries.
  have hlisting : keysAre (sortedRow (kinds.zip (groups.map listed))) kinds = true := by
    refine keysAre_iff.mpr ((perm_keys_sortKeys (sortKeys_obj _)).trans ?_)
    rw [List.map_fst_zip (by rw [List.length_map, ← hgroups.1])]
  have hcontents : Py.collect (Py.always (verifyComponent setting (sortedRow (kinds.zip (groups.map listed)))))
    kinds =
      .ok (groups.map contents) := by
    rw [Py.collect_always_eq_ok_iff, List.forall₂_map_right_iff, List.forall₂_iff_zip]
    refine ⟨hgroups.1, fun {kind entries} hmem ↦ ?_⟩
    obtain ⟨hsorted, hsize⟩ := hgroups.2 hmem
    refine hsorted.verifyComponent_eq hreads ?_ ?_
    · have hle := List.single_le_sum (by simp) _ (List.mem_map.mpr ⟨kind, (List.of_mem_zip hmem).1, rfl⟩ :
        (sources.get kind).length ∈ kinds.map fun kind ↦ (sources.get kind).length)
      rw [← sources.count_eq hkinds] at hle
      exact hsize ▸ hle.trans hbuilt.count_le
    · rw [lookup_sortedRow, lookup_zip (by decide) (by
        rw [List.zip_map_right]
        exact List.mem_map.mpr ⟨_, hmem, rfl⟩ : (kind, listed entries) ∈ kinds.zip (groups.map listed))]
      rfl
  -- The contents are built again.
  have hget : ∀ kind entries, (kind, entries) ∈ kinds.zip groups →
      (components (groups.map contents)).get kind = contents entries := by
    intro kind entries hmem
    rw [Components.get, components, lookup_zip (by decide) (by
      rw [List.zip_map_right]
      exact List.mem_map.mpr ⟨_, hmem, rfl⟩ : (kind, contents entries) ∈ kinds.zip (groups.map contents))]
    rfl
  have hknown : ∀ group ∈ (components (groups.map contents)).groups, group.1 ∈ kinds :=
    fun group hgroup ↦ (List.of_mem_zip hgroup).1
  have hcount : (components (groups.map contents)).count = sources.count := by
    rw [Components.count_eq _ hknown, sources.count_eq hkinds]
    refine congrArg List.sum (List.map_congr_left fun kind hkind ↦ ?_)
    obtain ⟨entries, -, hmem⟩ := exists_of_mem_forall₂ hzip hkind
    rw [hget kind entries hmem, contents, List.length_map, (hgroups.2 hmem).2]
  have hsame : (Json.obj value).Same (.obj (manifestOf (.str content) (sortedRow agent) groups
      (components (groups.map contents)).count root)) := by
    rw [hcount, ← hvalue]
    exact same_manifestOf _ _ _ _ _
  have hagain : build setting (components (groups.map contents)) (.str content) (.obj (sortedRow agent)) =
      .ok (sortedRow value) := by
    refine build_eq_ok_iff.mpr ⟨sortedRow agent, groups, root, ⟨written, hmoment⟩,
      checkSource_eq_ok_iff.mpr ⟨rfl, hknown, haccepted.sorted⟩, hcount ▸ hbuilt.count_pos, hcount ▸ hbuilt.count_le,
      ?_, hbuilt.identities, hbuilt.rooted, ?_, ?_⟩
    · rw [Py.collect_always_eq_ok_iff, List.forall₂_iff_zip]
      exact ⟨hgroups.1, fun {kind entries} hmem ↦
        (hgroups.2 hmem).1.group_eq hreads (hget kind entries hmem)⟩
    · rwa [← canonicalBytes_congr hsame]
    · refine snapshot_eq_ok_iff.mpr ⟨wirable_of_same hwirable hsame, ?_⟩
      rw [← canonicalBytes_congr hsame, hreads _ hmanifest hwirable, sortKeys_obj]
  have hlookup : ∀ name, (sortedRow value).lookup name = (value.lookup name).map Json.sortKeys :=
    lookup_sortedRow value
  have hwired : wire (.obj (sortedRow value)) = .ok (canonicalBytes (.obj value)) := by
    have hsorted := (wirable_sortKeys_iff.mpr hwirable).wire_eq
    rwa [canonicalBytes_sortKeys, sortKeys_obj] at hsorted
  have hself : equal (.obj (sortedRow value)) (.obj (sortedRow value)) = true := by
    have hsorted := equal_of_same hmanifest.sortKeys (valued_of_wirable (wirable_sortKeys_iff.mpr hwirable)) rfl
    rwa [sortKeys_obj] at hsorted
  have hcomponents : (sortedRow value).lookup "components" =
    some (.obj (sortedRow (kinds.zip (groups.map listed)))) := by
    rw [hlookup, ← hvalue, ← sortKeys_obj]
    rfl
  have hcreated : field (sortedRow value) "created_at" = .ok (.str content) := by
    rw [field_eq_ok_iff, hlookup, ← hvalue]
    rfl
  have hsource : field (sortedRow value) "source_agent" = .ok (.obj (sortedRow agent)) := by
    rw [field_eq_ok_iff, hlookup, ← hvalue, ← sortKeys_obj]
    rfl
  rw [verify, hwired, Py.bind_ok, decide_eq_true hlength, Py.require_true, Py.bind_ok, hcomponents]
  dsimp only
  rw [hlisting, Py.require_true, Py.bind_ok, hcontents, Py.bind_ok, hcreated, Py.bind_ok, hsource, Py.bind_ok, hagain,
    Py.bind_ok, hself, Py.require_true, Py.bind_ok, Py.pure_eq_ok]

end Built

end UniMem.Passport
