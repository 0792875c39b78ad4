import UniMem.Library.JsonText
import UniMem.Passport.Building

/-!
# Passports that are accepted

What is accepted is what `build` makes of its contents. The root commits to the entries and their order, but not to
the component of an entry or the time and agent of the manifest.
-/

namespace UniMem.Passport

open Library FrontierProtocol TransparencyLog

section Accepted

variable {setting : Setting} {floats : Set Decimal} {manifest result : Row}

/-- What a manifest lists under a component. -/
def items (manifest : Row) (kind : String) : List Json :=
  match (manifest.lookup "components").bind (Json.get? kind) with
  | some (.arr values) => values
  | _ => []

/-- The content of a listed entry. -/
def itemContent : Json → Row
  | .obj fields => contentOf fields
  | _ => []

/-- The contents of the entries of a manifest. -/
def contentsOf (manifest : Row) : Components := components
    (kinds.map fun kind ↦ (items manifest kind).map itemContent)

variable {value createdAt : Json} {fields : Row} {name root : String}

theorem verifyEntry_eq {content : Row} (h : verifyEntry setting value = .ok content) :
    content = itemContent value := by
  cases value with
  | obj fields =>
    obtain ⟨_, h⟩ := Py.of_rest h
    obtain ⟨found, -, h⟩ := Py.of_bind h
    obtain ⟨_, h⟩ := Py.of_rest h
    exact (Except.ok.inj h).symm
  | _ => cases h

theorem verifyComponent_eq {listing : Row} {kind : String} {rows : List Row}
    (h : verifyComponent setting listing kind = .ok rows) :
    ∃ values, listing.lookup kind = some (.arr values) ∧ values.length ≤ maxEntries ∧ rows =
      values.map itemContent := by
  obtain ⟨value, hvalue, h⟩ := Py.of_bind h
  rw [field_eq_ok_iff] at hvalue
  cases value with
  | arr values =>
    obtain ⟨_, hlength, h⟩ := Py.of_bind h
    rw [Py.require_eq_ok_iff, decide_eq_true_eq] at hlength
    refine ⟨values, hvalue, hlength, eq_map_of_forall₂ ?_⟩
    exact (Py.collect_always_eq_ok_iff.mp h).imp fun _ _ ↦ verifyEntry_eq
  | _ => cases h

theorem build_of_verify (h : verify setting manifest = .ok result) :
    ∃ createdAt sourceAgent, manifest.lookup "created_at" = some createdAt ∧
      manifest.lookup "source_agent" = some sourceAgent ∧
      build setting (contentsOf manifest) createdAt sourceAgent = .ok result ∧
      equal (.obj result) (.obj manifest) = true := by
  obtain ⟨encoded, -, h⟩ := Py.of_bind h
  obtain ⟨_, h⟩ := Py.of_rest h
  split at h
  · next listing hlisting =>
    obtain ⟨_, h⟩ := Py.of_rest h
    obtain ⟨rows, hrows, h⟩ := Py.of_bind h
    obtain ⟨createdAt, hcreated, h⟩ := Py.of_bind h
    obtain ⟨sourceAgent, hsource, h⟩ := Py.of_bind h
    obtain ⟨expected, hexpected, h⟩ := Py.of_bind h
    obtain ⟨_, hequal, h⟩ := Py.of_bind h
    obtain rfl := Except.ok.inj h
    have hcontents : rows = kinds.map fun kind ↦ (items manifest kind).map itemContent := by
      apply eq_map_of_forall₂
      refine (Py.collect_always_eq_ok_iff.mp hrows).imp fun kind found hfound ↦ ?_
      obtain ⟨values, hvalues, -, rfl⟩ := verifyComponent_eq hfound
      rw [items, hlisting, Option.bind_some, Json.get?, hvalues]
    rw [hcontents] at hexpected
    exact ⟨createdAt, sourceAgent, field_eq_ok_iff.mp hcreated, field_eq_ok_iff.mp hsource, hexpected,
      Py.require_eq_ok_iff.mp hequal⟩
  · cases h

/-- The entries of a manifest in the order of the components. -/
def entriesOf (manifest : Row) : List Json := kinds.flatMap (items manifest)

theorem genuine_of_lookup (h : Genuine floats (.obj fields)) (hlookup : fields.lookup name = some value) :
    Genuine floats value :=
  (genuine_obj.mp h).2 _ (mem_of_lookup hlookup)

theorem genuine_items (h : Genuine floats (.obj manifest)) (kind : String) :
    ∀ value ∈ items manifest kind, Genuine floats value := by
  unfold items
  split
  · next values hvalues =>
    obtain ⟨listing, hlisting, hget⟩ := Option.bind_eq_some_iff.mp hvalues
    have hgenuine := genuine_of_lookup h hlisting
    cases listing with
    | obj fields => exact genuine_arr.mp (genuine_of_lookup hgenuine hget)
    | _ => cases hget
  · exact fun value hvalue ↦ absurd hvalue List.not_mem_nil

theorem genuine_contentsOf (h : Genuine floats (.obj manifest)) :
    ∀ group ∈ (contentsOf manifest).groups, ∀ value ∈ group.2, Genuine floats (.obj value) := by
  rintro ⟨kind, rows⟩ hgroup value hvalue
  obtain ⟨other, -, rfl⟩ := List.mem_map.mp (List.of_mem_zip hgroup).2
  obtain ⟨item, hitem, rfl⟩ := List.mem_map.mp hvalue
  have hgenuine := genuine_items h other item hitem
  cases item with
  | obj fields =>
    obtain ⟨hnodup, hfields⟩ := genuine_obj.mp hgenuine
    have hsublist : (contentOf fields).Sublist fields := List.filter_sublist
    exact genuine_obj.mpr ⟨(hsublist.map Prod.fst).nodup hnodup, fun field hfield ↦
      hfields field (hsublist.subset hfield)⟩
  | _ => exact genuine_obj.mpr ⟨List.nodup_nil, fun _ hfield ↦ absurd hfield List.not_mem_nil⟩

theorem Built.entriesOf_eq {sources : Components} {sourceAgent : Json} {agent : Row} {groups : List (List Entry)}
    (h : Built setting sources createdAt sourceAgent result agent groups root)
    (hresult : result = sortedRow (manifestOf createdAt agent groups sources.count root)) :
    entriesOf result = groups.flatten.map fun found ↦ .obj (sortedRow found.fields) := by
  have hitems : List.Forall₂ (fun kind entries ↦ items result kind =
      entries.map fun found : Entry ↦ .obj (sortedRow found.fields)) kinds groups := by
    rw [List.forall₂_iff_zip]
    refine ⟨h.forall₂.length_eq, fun {kind entries} hmem ↦ ?_⟩
    have hlookup := lookup_zip (by decide) (by
      rw [List.zip_map_right]
      exact List.mem_map.mpr ⟨_, hmem, rfl⟩ : (kind, listed entries) ∈ kinds.zip (groups.map listed))
    have hcomponents : result.lookup "components" = some (.obj (sortedRow (kinds.zip (groups.map listed)))) := by
      rw [hresult, lookup_sortedRow, ← sortKeys_obj]
      rfl
    rw [items, hcomponents, Option.bind_some, Json.get?, lookup_sortedRow, hlookup, Option.map_some, sortKeys_listed]
  rw [entriesOf, List.flatMap_def, List.map_flatten]
  refine congrArg List.flatten ?_
  generalize kinds = names at hitems
  clear h hresult
  induction hitems with
  | nil => rfl
  | cons hhead _ ih => rw [List.map_cons, List.map_cons, hhead, ih]

theorem leafHash_eq_ok_iff {leaf : String} : leafHash setting value = .ok leaf ↔
    Wirable value ∧ setting.runtime.sha256 (0 :: canonicalBytes value) = leaf := by
  unfold leafHash
  rw [Py.map_eq_ok_iff]
  constructor
  · rintro ⟨encoded, hencoded, rfl⟩
    obtain ⟨hwirable, rfl⟩ := wire_eq_ok_iff.mp hencoded
    exact ⟨hwirable, rfl⟩
  · rintro ⟨hwirable, rfl⟩
    exact ⟨_, hwirable.wire_eq, rfl⟩

theorem carrier_closed_atoms (hfree : setting.CollisionFree) :
    ∀ leaf ∈ Set.range fun encoded ↦ setting.runtime.sha256 (0 :: encoded), leaf ∈ setting.suite.carrier ∧
      ∀ a ∈ setting.suite.carrier, ∀ b ∈ setting.suite.carrier, leaf ≠ setting.suite.combine a b := by
  rintro _ ⟨encoded, rfl⟩
  exact ⟨hfree.canonical _, fun a ha b hb ↦ hfree.separated encoded a b ha hb⟩

theorem entries_eq_of_root (hreads : setting.Reads floats) (hfree : setting.CollisionFree)
    {first second : List Entry} {leaves others : List String}
    (hfirst : ∀ found ∈ first, Addressed setting floats found)
    (hsecond : ∀ found ∈ second, Addressed setting floats found) (hne : first ≠ []) (hne' : second ≠ [])
    (hlength : first.length ≤ maxEntries) (hlength' : second.length ≤ maxEntries)
    (hleaves : Py.collect (Py.always fun entry ↦ leafHash setting (.obj (Entry.fields entry))) first = .ok leaves)
    (hothers : Py.collect (Py.always fun entry ↦ leafHash setting (.obj (Entry.fields entry))) second = .ok others)
    (hroot : treeHash setting.suite leaves = .ok root) (hroot' : treeHash setting.suite others = .ok root) :
    first.map (fun found ↦ sortedRow found.fields) = second.map fun found ↦ sortedRow found.fields := by
  have hread : ∀ {entries : List Entry} {hashes : List String},
      Py.collect (Py.always fun entry ↦ leafHash setting (.obj (Entry.fields entry))) entries = .ok hashes →
      (∀ found ∈ entries, Wirable (.obj found.fields)) ∧
        hashes = entries.map fun found ↦ setting.runtime.sha256 (0 :: canonicalBytes (.obj found.fields)) := by
    intro entries hashes h
    have hall := (Py.collect_always_eq_ok_iff.mp h).imp fun _ _ ↦ leafHash_eq_ok_iff.mp
    refine ⟨fun found hfound ↦ ?_, eq_map_of_forall₂ (hall.imp fun _ _ hpair ↦ hpair.2.symm)⟩
    obtain ⟨_, -, hwirable, -⟩ := exists_of_mem_forall₂ hall hfound
    exact hwirable
  obtain ⟨hwirable, rfl⟩ := hread hleaves
  obtain ⟨hwirable', rfl⟩ := hread hothers
  have hatoms : ∀ entries : List Entry, ∀ leaf ∈ entries.map fun found ↦
      setting.runtime.sha256 (0 :: canonicalBytes (.obj found.fields)),
      leaf ∈ Set.range fun encoded ↦ setting.runtime.sha256 (0 :: encoded) := by
    intro entries leaf hleaf
    obtain ⟨found, -, rfl⟩ := List.mem_map.mp hleaf
    exact ⟨_, rfl⟩
  have hcanonical : ∀ entries : List Entry, ∀ leaf ∈ entries.map fun found ↦
      setting.runtime.sha256 (0 :: canonicalBytes (.obj found.fields)), setting.suite.canonical leaf :=
    fun entries leaf hleaf ↦ (carrier_closed_atoms hfree leaf (hatoms entries leaf hleaf)).1
  have hbound : maxEntries ≤ maxTreeLeaves := le_trans (by decide) two_pow_le_maxTreeLeaves
  rw [treeHash_eq_root _ (hcanonical first) (by rw [List.length_map]; exact hlength.trans hbound), Except.ok.injEq]
    at hroot
  rw [treeHash_eq_root _ (hcanonical second) (by rw [List.length_map]; exact hlength'.trans hbound), Except.ok.injEq]
    at hroot'
  have hhashes := Library.BalancedTree.root_inj carrier_closed hfree.nodes.injOn (carrier_closed_atoms hfree)
    (hatoms first)
    (hatoms second) (by simpa using hne) (by simpa using hne') (hroot.trans hroot'.symm)
  have hrows : List.Forall₂ (fun found other : Entry ↦ sortedRow found.fields = sortedRow other.fields) first
    second := by
    refine forall₂_of_map_eq hhashes fun found hfound other hother heq ↦ ?_
    have hbytes := (List.cons.inj (hfree.messages _ _ heq)).2
    have hloads := hreads _ (hfirst found hfound).genuine_fields (hwirable found hfound)
    rw [hbytes, hreads _ (hsecond other hother).genuine_fields (hwirable' other hother), sortKeys_obj, sortKeys_obj,
      Option.some.injEq, Json.obj.injEq] at hloads
    exact hloads.symm
  rwa [← List.forall₂_eq_eq_eq, List.forall₂_map_left_iff, List.forall₂_map_right_iff]

theorem equal_lookup {others : Row} (h : equal (.obj fields) (.obj others) = true)
    (hlookup : fields.lookup name = some value) : ∃ other, others.lookup name = some other ∧ equal value other =
      true := by
  rw [equal, Bool.and_eq_true] at h
  have hall : ∀ field ∈ fields, ∃ other, others.lookup field.1 = some other ∧ equal field.2 other = true := by
    have hfields := h.2
    clear h hlookup
    induction fields with
    | nil => exact fun field hfield ↦ absurd hfield List.not_mem_nil
    | cons field fields ih =>
      obtain ⟨key, content⟩ := field
      rw [equalFields, Bool.and_eq_true] at hfields
      refine List.forall_mem_cons.mpr ⟨?_, ih hfields.2⟩
      cases hfound : others.lookup key with
      | none => simp [hfound] at hfields
      | some other => exact ⟨other, rfl, by simpa [hfound] using hfields.1⟩
  exact hall _ (mem_of_lookup hlookup)

theorem lookup_manifestOf {createdAt' : Json} {agent agent' : Row} {groups groups' : List (List Entry)}
    (count : ℕ) (root : String) (h : name ∉ ["created_at", "source_agent", "components"]) :
    (manifestOf createdAt agent groups count root).lookup name =
      (manifestOf createdAt' agent' groups' count root).lookup name := by
  simp only [List.mem_cons, List.not_mem_nil, or_false, not_or] at h
  obtain ⟨hcreated, hsource, hcomponents⟩ := h
  simp only [manifestOf, List.lookup_cons, beq_eq_false_iff_ne.mpr hcreated, beq_eq_false_iff_ne.mpr hsource,
    beq_eq_false_iff_ne.mpr hcomponents]

theorem agree_of_root (hreads : setting.Reads floats) (hfree : setting.CollisionFree) {other result' : Row}
    (hmanifest : Genuine floats (.obj manifest)) (hother : Genuine floats (.obj other))
    (h : verify setting manifest = .ok result) (h' : verify setting other = .ok result')
    (hroot : manifest.lookup "root_hash" = other.lookup "root_hash") :
    entriesOf result = entriesOf result' ∧ ∀ name, name ∉ ["created_at", "source_agent", "components"] →
      result.lookup name = result'.lookup name := by
  have hspec : ∀ {manifest result : Row}, Genuine floats (.obj manifest) → verify setting manifest = .ok result →
      ∃ createdAt sourceAgent agent groups root,
        Built setting (contentsOf manifest) createdAt sourceAgent result agent groups root ∧
        result = sortedRow (manifestOf createdAt agent groups (contentsOf manifest).count root) ∧
        manifest.lookup "root_hash" = some (.str ("sha256:" ++ root)) := by
    intro manifest result hgenuine hverify
    obtain ⟨createdAt, sourceAgent, -, hsource, hbuild, hequal⟩ := build_of_verify hverify
    obtain ⟨agent, groups, root, hbuilt⟩ := build_eq_ok_iff.mp hbuild
    obtain ⟨-, hresult⟩ :=
      hbuilt.written_eq hreads (genuine_contentsOf hgenuine) (genuine_of_lookup hgenuine hsource)
    refine ⟨createdAt, sourceAgent, agent, groups, root, hbuilt, hresult, ?_⟩
    have hlookup : result.lookup "root_hash" = some (.str ("sha256:" ++ root)) := by
      rw [hresult, lookup_sortedRow]
      rfl
    obtain ⟨value, hvalue, htext⟩ := equal_lookup hequal hlookup
    rw [hvalue, equal_str_iff.mp htext]
  obtain ⟨createdAt, sourceAgent, agent, groups, root, hbuilt, hresult, hfound⟩ := hspec hmanifest h
  obtain ⟨createdAt', sourceAgent', agent', groups', root', hbuilt', hresult', hfound'⟩ := hspec hother h'
  have hsame : root = root' := by
    rw [hfound, hfound', Option.some.injEq, Json.str.injEq] at hroot
    exact (String.append_right_inj _).mp hroot
  subst hsame
  obtain ⟨leaves, hleaves, htree⟩ := hbuilt.rooted
  obtain ⟨leaves', hleaves', htree'⟩ := hbuilt'.rooted
  have hlength := hbuilt.length_flatten hreads (genuine_contentsOf hmanifest)
  have hlength' := hbuilt'.length_flatten hreads (genuine_contentsOf hother)
  have haddressed : ∀ found ∈ groups.flatten, Addressed setting floats found := by
    intro found hmem
    obtain ⟨entries, hentries, hin⟩ := List.mem_flatten.mp hmem
    exact (hbuilt.ordered hreads (genuine_contentsOf hmanifest) entries hentries).addressed found hin
  have haddressed' : ∀ found ∈ groups'.flatten, Addressed setting floats found := by
    intro found hmem
    obtain ⟨entries, hentries, hin⟩ := List.mem_flatten.mp hmem
    exact (hbuilt'.ordered hreads (genuine_contentsOf hother) entries hentries).addressed found hin
  have hrows := entries_eq_of_root hreads hfree haddressed haddressed'
    (List.ne_nil_of_length_pos (hlength ▸ hbuilt.count_pos))
      (List.ne_nil_of_length_pos (hlength' ▸ hbuilt'.count_pos))
    (hlength ▸ hbuilt.count_le) (hlength' ▸ hbuilt'.count_le) hleaves hleaves' htree htree'
  have hentries : entriesOf result = entriesOf result' := by
    have hobjects := congrArg (List.map Json.obj) hrows
    rw [List.map_map, List.map_map] at hobjects
    rw [hbuilt.entriesOf_eq hresult, hbuilt'.entriesOf_eq hresult']
    exact hobjects
  have hcount : (contentsOf manifest).count = (contentsOf other).count := by
    have hlengths := congrArg List.length hrows
    rwa [List.length_map, List.length_map, hlength, hlength'] at hlengths
  refine ⟨hentries, fun name hname ↦ ?_⟩
  rw [hresult, hresult', lookup_sortedRow, lookup_sortedRow, hcount, lookup_manifestOf _ _ hname]

end Accepted

/-- The contents of the entries to be passed are Python values. -/
def Components.Genuine (sources : Components) (floats : Set Decimal) : Prop :=
  ∀ group ∈ sources.groups, ∀ value ∈ group.2, UniMem.Genuine floats (.obj value)

/-- What `build` returns is accepted, what is accepted is built, and one root means one list. -/
theorem accepted_is_built (setting : Setting) (floats : Set Decimal) (hreads : setting.Reads floats)
    (hfree : setting.CollisionFree) :
    (∀ sources createdAt sourceAgent manifest, sources.Genuine floats → Genuine floats sourceAgent →
      build setting sources createdAt sourceAgent = .ok manifest → verify setting manifest = .ok manifest) ∧
    (∀ manifest result, verify setting manifest = .ok result →
      ∃ createdAt sourceAgent, manifest.lookup "created_at" = some createdAt ∧
        manifest.lookup "source_agent" = some sourceAgent ∧
        build setting (contentsOf manifest) createdAt sourceAgent = .ok result ∧
        equal (.obj result) (.obj manifest) = true) ∧
    ∀ manifest other result result', Genuine floats (.obj manifest) → Genuine floats (.obj other) →
      verify setting manifest = .ok result → verify setting other = .ok result' →
      manifest.lookup "root_hash" = other.lookup "root_hash" →
      entriesOf result = entriesOf result' ∧ ∀ name, name ∉ ["created_at", "source_agent", "components"] →
        result.lookup name = result'.lookup name :=
  ⟨fun _ _ _ _ hgenuine hagent h ↦ verify_of_build hreads hgenuine hagent h, fun _ _ h ↦ build_of_verify h,
    fun _ _ _ _ hmanifest hother h h' hroot ↦ agree_of_root hreads hfree hmanifest hother h h' hroot⟩

namespace Sample

noncomputable def parse (encoded : Bytes) : Option Json :=
  open Classical in
  if h : ∃ value, Json.Plain value ∧ canonicalBytes value = encoded then some (Classical.choose h).sortKeys else none

theorem parse_canonicalBytes {value : Json} (h : Json.Plain value) : parse (canonicalBytes value) =
    some value.sortKeys := by
  have hexists : ∃ other, Json.Plain other ∧ canonicalBytes other = canonicalBytes value := ⟨value, h, rfl⟩
  obtain ⟨hplain, hbytes⟩ := Classical.choose_spec hexists
  have hseparated : Json.Style.compact.Separated := ⟨[], rfl⟩
  rw [parse, dif_pos hexists, Option.some.injEq]
  exact Json.encode_injective hseparated (Json.plain_sortKeys _ hplain) (Json.plain_sortKeys _ h) hbytes

theorem plain_of_genuine {value : Json} : Genuine ∅ value → Json.Plain value := by
  induction value using Json.children_induction with
  | step value ih =>
    intro h
    obtain ⟨hproper, hchildren⟩ := genuine_iff.mp h
    refine Json.plain_iff.mpr ⟨?_, fun child hchild ↦ ih child hchild (hchildren child hchild)⟩
    cases value with
    | float decimal => exact absurd hproper (Set.notMem_empty decimal)
    | _ => rfl

def join (left right : String) : String :=
  String.ofList ('n' :: (List.replicate left.length 'a' ++ 'b' :: (left.toList ++ right.toList)))

theorem marked_inj {count other : ℕ} {first second : List Char}
    (h : List.replicate count 'a' ++ 'b' :: first = List.replicate other 'a' ++ 'b' :: second) :
    count = other ∧ first = second := by
  induction count generalizing other with
  | zero =>
    cases other with
    | zero => exact ⟨rfl, (List.cons.inj h).2⟩
    | succ other => exact absurd (List.cons.inj h).1 (by decide)
  | succ count ih =>
    cases other with
    | zero => exact absurd (List.cons.inj h).1 (by decide)
    | succ other =>
      obtain ⟨rfl, hrest⟩ := ih (List.cons.inj h).2
      exact ⟨rfl, hrest⟩

theorem join_inj {left right left' right' : String} (h : join left right = join left' right') :
    left = left' ∧ right = right' := by
  obtain ⟨hlength, hchars⟩ := marked_inj (List.cons.inj (String.ofList_injective h)).2
  obtain ⟨hleft, hright⟩ := List.append_inj hchars (by rwa [String.length_toList, String.length_toList])
  exact ⟨String.toList_injective hleft, String.toList_injective hright⟩

def suite : HashSuite String where
  canonical value := value ≠ ""
  combine := join
  emptyHash := "e"
  blank := ""
  canonical_combine left right := decide_eq_true fun h ↦ by simpa [join] using congrArg String.toList h
  canonical_emptyHash := rfl
  canonical_blank := rfl

def written : String := "2026-10-18T00:00:00+00:00"

def later : String := "2026-10-18T00:01:00+00:00"

def midnight : ℤ := 739_906 * 86_400 * 1_000_000

def calendar : Calendar where
  fromIsoformat text := if text = written then some (.aware midnight)
    else if text = later then some (.aware (midnight + 60_000_000)) else none
  isoformat instant := if instant = midnight then written else later

def source : Row :=
  [("parent_ids", .arr []), ("created_at", .str written), ("version", .str "1"),
    ("content", .obj [("statement", .str "offset 0.12")]),
    ("provenance", .obj [("source_id", .str "fact-1"), ("namespace", .str "facts")]), ("confidence", .null),
    ("timestamps", .obj []), ("consent_scope", .obj []), ("labels", .arr []), ("capability_tokens", .arr [])]

def agent : Row :=
  [("name", .str "support"), ("model_digest", .str ("sha256:" ++ String.ofList (List.replicate 64 'a'))),
    ("model_identity", .str "operator-declared digest; execution not attested"), ("runtime", .str "unimem")]

def sources (kind : String) : Components := ⟨[(kind, [source])], by simp⟩

def found : Entry := ⟨"sha256:c1", sortedRow source⟩

def groups (kind : String) : List (List Entry) := kinds.map fun name ↦ if name = kind then [found] else []

def known : List (Bytes × String) :=
  [(canonicalBytes (.obj (sortedRow source)), "c1"), (0 :: canonicalBytes (.obj found.fields), "c2")]

noncomputable def setting : Setting where
  runtime := Runtime.hashing known
  loads := parse
  calendar := calendar
  suite := suite

theorem reads : setting.Reads ∅ := fun _ hgenuine _ ↦ parse_canonicalBytes (plain_of_genuine hgenuine)

theorem head_knownDigest (message : Bytes) :
    (Runtime.knownDigest known message).toList.head? = some 'c' ∨
      (Runtime.knownDigest known message).toList.head? = some 'x' := by
  unfold Runtime.knownDigest
  cases hfound : known.lookup message with
  | none => exact Or.inr (by rw [String.toList_ofList]; rfl)
  | some digest =>
    have hmem := mem_of_lookup hfound
    simp only [known, List.mem_cons, List.not_mem_nil, or_false, Prod.mk.injEq] at hmem
    refine Or.inl ?_
    dsimp only
    rcases hmem with ⟨-, rfl⟩ | ⟨-, rfl⟩ <;> rfl

theorem collisionFree : setting.CollisionFree where
  messages := by
    refine Runtime.collisionFree_hashing ?_ ?_
    · intro first hfirst second hsecond heq
      simp only [known, List.mem_cons, List.not_mem_nil, or_false] at hfirst hsecond
      rcases hfirst with rfl | rfl <;> rcases hsecond with rfl | rfl
      · rfl
      · exact absurd heq (by decide)
      · exact absurd heq (by decide)
      · rfl
    · intro entry hentry
      simp only [known, List.mem_cons, List.not_mem_nil, or_false] at hentry
      rcases hentry with rfl | rfl <;> decide
  nodes _ _ _ _ _ _ _ _ h := join_inj h
  canonical message := decide_eq_true fun h ↦ by
    have hhead := head_knownDigest message
    rw [show Runtime.knownDigest known message = "" by exact h] at hhead
    simp at hhead
  separated message left right _ _ h := by
    have hhead := head_knownDigest (0 :: message)
    rw [show Runtime.knownDigest known (0 :: message) = join left right by exact h] at hhead
    simp [join] at hhead

def passport (kind time : String) : Row := sortedRow (manifestOf (.str time) agent (groups kind) 1 "c2")

theorem genuine_source : Genuine ∅ (.obj source) := by
  simp [Genuine, source, Json.Everywhere, Json.EverywhereFields, Json.EverywhereItems, Proper]

theorem genuine_agent : Genuine ∅ (.obj agent) := by
  simp [Genuine, agent, Json.Everywhere, Json.EverywhereFields, Proper]

theorem genuine_sources (kind : String) : (sources kind).Genuine ∅ := by
  intro group hgroup value hvalue
  obtain rfl := List.mem_singleton.mp hgroup
  obtain rfl := List.mem_singleton.mp hvalue
  exact genuine_source

theorem sortedRow_source : sortedRow source =
    [("capability_tokens", .arr []), ("confidence", .null), ("consent_scope", .obj []),
      ("content", .obj [("statement", .str "offset 0.12")]), ("created_at", .str written), ("labels", .arr []),
      ("parent_ids", .arr []), ("provenance", .obj [("namespace", .str "facts"), ("source_id", .str "fact-1")]),
      ("timestamps", .obj []), ("version", .str "1")] := by
  simp [sortedRow, source, Json.sortKeys, Json.sortKeysFields, Json.sortKeysItems, List.insertionSort]

def places : List (String × String) := [("semantic", written), ("semantic", later), ("episodic", written)]

theorem fits_records :
    (fits (.obj [("statement", .str "offset 0.12")]) = true ∧ fits (.obj []) = true ∧ fits (.obj source) = true ∧
      fits (.obj found.fields) = true) ∧
    (∀ place ∈ places,
      fits (.obj (manifestOf (.str place.2) agent (groups place.1) 1 "c2")) = true ∧
        (canonicalBytes (.obj (manifestOf (.str place.2) agent (groups place.1) 1 "c2"))).length ≤
          maxPassportBytes) ∧
    "sha256:" ++ setting.runtime.sha256 (canonicalBytes (.obj (sortedRow source))) = found.id ∧
    setting.runtime.sha256 (0 :: canonicalBytes (.obj found.fields)) = "c2" := by
  decide +kernel

theorem moment_written : moment setting.calendar (.str written) = .ok written := rfl

theorem checkEntry_source : checkEntry setting (sortedRow source) = .ok () := by
  have hcontent : wire (.obj [("statement", .str "offset 0.12")]) =
      .ok (canonicalBytes (.obj [("statement", .str "offset 0.12")])) :=
    (wirable_of_fits fits_records.1.1).wire_eq
  have hcount : count (canonicalBytes (.obj [("statement", .str "offset 0.12")])).length 1 32768
    "passport source bytes" =
      .ok 27 := rfl
  have hconsent : checkConsent (.obj []) = .ok () := by
    rw [checkConsent, (wirable_of_fits fits_records.1.2.1).wire_eq]
    rfl
  have hprovenance : checkProvenance [("namespace", .str "facts"), ("source_id", .str "fact-1")] = .ok () := rfl
  have hversion : textArgument (.str "1") "passport entry version" 128 = .ok "1" := rfl
  have hparents : checkNames (.arr []) 64 "parent" = .ok () := rfl
  have hlabels : checkNames (.arr []) 128 "label" = .ok () := rfl
  have hconfidence : checkConfidence .null = .ok () := rfl
  have htimestamps : checkTimestamps setting.calendar (.obj []) = .ok () := rfl
  have hgrants : checkGrants (.arr []) = .ok () := rfl
  rw [checkEntry, sortedRow_source]
  simp only [field, List.lookup_cons, Py.bind_ok, beq_self_eq_true, hcontent, hcount, hconsent, hprovenance,
    moment_written, hversion, hparents, hlabels, hconfidence, htimestamps, hgrants, String.reduceBEq]

theorem entry_source : entry setting source = .ok found := by
  have hwirable : Wirable (.obj source) := wirable_of_fits fits_records.1.2.2.1
  have hsorted : wire (.obj (sortedRow source)) = .ok (canonicalBytes (.obj (sortedRow source))) := by
    rw [← sortKeys_obj]
    exact (wirable_sortKeys_iff.mpr hwirable).wire_eq
  refine entry_eq_ok_iff.mpr ⟨by decide, (snapshot_eq_ok_of_reads reads genuine_source).mpr ⟨hwirable, rfl⟩,
    checkEntry_source, ?_⟩
  change hash setting (.obj (sortedRow source)) = _
  rw [hash, digest, hsorted, Py.map_ok, Py.map_ok]
  exact congrArg Except.ok fits_records.2.2.1

theorem modelDigest_agent : modelDigest (.str ("sha256:" ++ String.ofList (List.replicate 64 'a'))) =
    .ok ("sha256:" ++ String.ofList (List.replicate 64 'a')) := by
  have hchars : ("sha256:" ++ String.ofList (List.replicate 64 'a')).toList =
      "sha256:".toList ++ List.replicate 64 'a' := by
    rw [String.toList_append, String.toList_ofList, String.toList_ofList]
  have hseven : "sha256:".toList.length = 7 := rfl
  rw [modelDigest, hchars, List.take_left' hseven, List.drop_left' hseven]
  refine if_pos ⟨rfl, List.length_replicate, fun char hchar ↦ Or.inl ?_⟩
  rw [List.eq_of_mem_replicate hchar]
  decide

theorem agentAccepted : AgentAccepted agent :=
  ⟨by decide, ⟨"support", rfl, rfl⟩, ⟨_, _, rfl, modelDigest_agent⟩, rfl, rfl⟩

variable {kind time : String}

theorem flatten_groups (hkind : kind ∈ kinds) : (groups kind).flatten = [found] := by
  simp only [kinds, List.mem_cons, List.not_mem_nil, or_false] at hkind
  rcases hkind with rfl | rfl | rfl | rfl | rfl <;> rfl

theorem leafHash_found : leafHash setting (.obj found.fields) = .ok "c2" := by
  rw [leafHash, (wirable_of_fits fits_records.1.2.2.2).wire_eq, Py.map_ok]
  exact congrArg Except.ok fits_records.2.2.2

theorem treeHash_leaf : treeHash setting.suite ["c2"] = .ok "c2" := by
  rw [treeHash, count_of_mem _ (by decide) (by exact_mod_cast one_le_maxTreeLeaves), Py.bind_ok, hash_eq_ok (by rfl)]

theorem moment_later : moment setting.calendar (.str later) = .ok later := by
  have hread : setting.calendar.fromIsoformat (zoned later) = some (.aware (midnight + 60_000_000)) := rfl
  have htime : representable (midnight + 60_000_000) = .ok (midnight + 60_000_000) :=
    representable_eq_ok_iff.mpr ⟨by decide +kernel, rfl⟩
  have hne : midnight + 60_000_000 ≠ midnight := add_ne_left.mpr (by decide)
  have hwrite : setting.calendar.isoformat (midnight + 60_000_000) = later := by
    change (if midnight + 60_000_000 = midnight then written else later) = later
    rw [if_neg hne]
  have htext : textArgument (.str later) "timestamp" 64 = .ok later := rfl
  rw [moment, htext, Py.bind_ok]
  rw [hread]
  dsimp only
  rw [htime, Py.map_ok, hwrite]

theorem build_source (h : (kind, time) ∈ places) :
    build setting (sources kind) (.str time) (.obj agent) = .ok (passport kind time) := by
  have hgroup : ∀ name, group setting (sources kind) name = .ok (if name = kind then [found] else []) := by
    intro name
    rw [group, Components.get, sources, List.lookup_cons]
    by_cases hname : name = kind
    · rw [if_pos hname, beq_iff_eq.mpr hname, Option.getD_some, Py.collect, Py.always, entry_source]
      rfl
    · rw [if_neg hname, beq_eq_false_iff_ne.mpr hname]
      rfl
  have hplace : kind ∈ kinds ∧ moment setting.calendar (.str time) = .ok time := by
    simp only [places, List.mem_cons, List.not_mem_nil, or_false, Prod.mk.injEq] at h
    rcases h with ⟨rfl, rfl⟩ | ⟨rfl, rfl⟩ | ⟨rfl, rfl⟩
    · exact ⟨by decide, moment_written⟩
    · exact ⟨by decide, moment_later⟩
    · exact ⟨by decide, moment_written⟩
  obtain ⟨hkind, hmoment⟩ := hplace
  obtain ⟨hfits, hlength⟩ := fits_records.2.1 (kind, time) h
  have hordered : ∀ entries ∈ groups kind, Ordered setting ∅ entries := by
    intro entries hentries
    obtain ⟨name, -, rfl⟩ := List.mem_map.mp hentries
    exact (ordered_of_group reads (genuine_get (genuine_sources kind) name) (hgroup name)).1
  have hcount : (sources kind).count = 1 := rfl
  refine build_eq_ok_iff.mpr ⟨agent, groups kind, "c2", ⟨_, hmoment⟩,
    checkSource_eq_ok_iff.mpr ⟨rfl, ?_, agentAccepted⟩,
    hcount.ge, hcount.le.trans (by decide), ?_, ?_, ⟨["c2"], ?_, treeHash_leaf⟩, by rwa [hcount], ?_⟩
  · intro group hgroup
    obtain rfl := List.mem_singleton.mp hgroup
    exact hkind
  · rw [Py.collect_always_eq_ok_iff, groups, List.forall₂_map_right_iff, List.forall₂_same]
    exact fun name _ ↦ hgroup name
  · rw [flatten_groups hkind]
    exact List.nodup_singleton _
  · rw [flatten_groups hkind, Py.collect, Py.always, leafHash_found]
    rfl
  · rw [hcount]
    exact (snapshot_eq_ok_of_reads reads (genuine_manifestOf genuine_agent hordered)).mpr ⟨wirable_of_fits hfits, rfl⟩

theorem verify_passport (h : (kind, time) ∈ places) :
    verify setting (passport kind time) = .ok (passport kind time) :=
  verify_of_build reads (genuine_sources kind) genuine_agent (build_source h)

end Sample

open Sample in
/-- A passport of one source is accepted as it was built. -/
theorem accepted_is_built_sample : build setting (sources "semantic") (.str written) (.obj agent) =
      .ok (passport "semantic" written) ∧
    verify setting (passport "semantic" written) = .ok (passport "semantic" written) :=
  have hbuild := build_source (by decide)
  ⟨hbuild, (accepted_is_built setting ∅ reads collisionFree).1 _ _ _ _ (genuine_sources _) genuine_agent hbuild⟩

open Sample in
/-- The time of a manifest can be altered, and an entry moved to another component. -/
theorem altered_accepted : setting.Reads ∅ ∧ setting.CollisionFree ∧
    verify setting (passport "semantic" written) = .ok (passport "semantic" written) ∧
    verify setting (passport "semantic" later) = .ok (passport "semantic" later) ∧
    verify setting (passport "episodic" written) = .ok (passport "episodic" written) ∧
    (passport "semantic" written).lookup "created_at" ≠ (passport "semantic" later).lookup "created_at" ∧
    (items (passport "semantic" written) "semantic").length = 1 ∧
    items (passport "episodic" written) "semantic" = [] := by
  refine ⟨reads, collisionFree, verify_passport (by decide), verify_passport (by decide),
    verify_passport (by decide), ?_, ?_⟩
  · rw [passport, passport, lookup_sortedRow, lookup_sortedRow]
    intro h
    have htext : Json.str written = .str later := Option.some.inj h
    exact absurd (Json.str.inj htext) (by decide)
  · have hlengths : (items (passport "semantic" written) "semantic").length = 1 ∧
        (items (passport "episodic" written) "semantic").length = 0 := by decide +kernel
    exact ⟨hlengths.1, List.length_eq_zero_iff.mp hlengths.2⟩

end UniMem.Passport
