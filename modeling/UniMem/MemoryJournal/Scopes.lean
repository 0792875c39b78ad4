import UniMem.MemoryJournal.Tables

/-!
# Relationships stay within a scope

A link may be made before its source exists. Together the checks of the writers keep every link within the scope of
the record that was derived.
-/

namespace UniMem.MemoryJournal

open Library

/-- Every link leads to a record, and its ends have one scope as far as they exist. -/
structure Scoped (tables : Tables) : Prop where
  records : (tables.records.map Record.id).Nodup
  captures : (tables.captures.map Capture.id).Nodup
  derived : ∀ link ∈ tables.links, ∃ record ∈ tables.records, record.id = link.2
  sources : ∀ link ∈ tables.links, ∀ source ∈ tables.records, source.id = link.1 →
    ∀ record ∈ tables.records, record.id = link.2 → source.scope = record.scope
  evidence : ∀ link ∈ tables.links, ∀ row ∈ tables.captures, row.id = link.1 →
    ∀ record ∈ tables.records, record.id = link.2 → row.scope = record.scope
  shadows : ∀ record ∈ tables.records, ∀ row ∈ tables.captures, row.id = record.id →
    row.scope = record.scope

section Find

variable {ρ : Type} {key : ρ → String} {rows : List ρ} {row : ρ} {identity : String}

theorem find_key_eq_some_iff (hunique : (rows.map key).Nodup) :
    rows.find? (fun row ↦ key row = identity) = some row ↔ row ∈ rows ∧ key row = identity := by
  constructor
  · intro h
    exact ⟨List.mem_of_find?_eq_some h, by simpa using List.find?_some h⟩
  · rintro ⟨hmem, hkey⟩
    cases hfound : rows.find? fun row ↦ key row = identity with
    | none =>
      rw [List.find?_eq_none] at hfound
      exact absurd (decide_eq_true hkey) (hfound row hmem)
    | some found =>
      have hfoundKey : key found = identity := by simpa using List.find?_some hfound
      rw [List.inj_on_of_nodup_map hunique (List.mem_of_find?_eq_some hfound) hmem (hfoundKey.trans hkey.symm)]

theorem find_key_all_iff (hunique : (rows.map key).Nodup) {property : ρ → Bool} :
    (rows.find? fun row ↦ key row = identity).all property = true ↔
      ∀ row ∈ rows, key row = identity → property row = true := by
  rw [Option.all_eq_true]
  constructor
  · intro h row hrow hkey
    exact h row ((find_key_eq_some_iff hunique).mpr ⟨hrow, hkey⟩)
  · intro h row hrow
    obtain ⟨hmem, hkey⟩ := (find_key_eq_some_iff hunique).mp hrow
    exact h row hmem hkey

end Find

variable {tables result : Tables} {record given : Record} {records : List Record} {link : String × String}
  {context : Context} {expectedVersion : Option ℕ}

theorem mem_derived_iff (hunique : (tables.records.map Record.id).Nodup) {source : String} :
    record ∈ tables.derived source ↔ record ∈ tables.records ∧ (source, record.id) ∈ tables.links := by
  unfold Tables.derived Tables.record
  rw [List.mem_filterMap]
  constructor
  · rintro ⟨⟨first, second⟩, hlink, hfound⟩
    obtain ⟨hlink, hsource⟩ := List.mem_filter.mp hlink
    rw [decide_eq_true_eq] at hsource
    obtain ⟨hmem, hid⟩ := (find_key_eq_some_iff hunique).mp hfound
    rw [← hsource, hid]
    exact ⟨hmem, hlink⟩
  · rintro ⟨hmem, hlink⟩
    exact ⟨_, List.mem_filter.mpr ⟨hlink, decide_eq_true rfl⟩, (find_key_eq_some_iff hunique).mpr ⟨hmem, rfl⟩⟩

theorem mem_putRow {row : Record} :
    row ∈ putRow records record ↔ row = record ∨ row ∈ records ∧ row.id ≠ record.id := by
  unfold putRow
  split_ifs with hany
  · rw [List.mem_map]
    constructor
    · rintro ⟨old, hold, rfl⟩
      split_ifs with hid
      · exact Or.inl rfl
      · exact Or.inr ⟨hold, hid⟩
    · rintro (rfl | ⟨hmem, hid⟩)
      · obtain ⟨old, hold, hid⟩ := List.any_eq_true.mp hany
        rw [decide_eq_true_eq] at hid
        exact ⟨old, hold, if_pos hid⟩
      · exact ⟨row, hmem, if_neg hid⟩
  · rw [List.mem_append, List.mem_singleton, or_comm]
    refine or_congr_right ⟨fun hmem ↦ ⟨hmem, fun hid ↦ hany ?_⟩, And.left⟩
    exact List.any_eq_true.mpr ⟨row, hmem, decide_eq_true hid⟩

theorem nodup_putRow (h : (records.map Record.id).Nodup) (record : Record) :
    ((putRow records record).map Record.id).Nodup := by
  unfold putRow
  split_ifs with hany
  · have hids : (records.map fun row ↦ if row.id = record.id then record else row).map Record.id =
        records.map Record.id := by
      rw [List.map_map]
      apply List.map_congr_left
      intro row _
      rw [Function.comp_apply]
      split_ifs with hid
      · exact hid.symm
      · rfl
    rw [hids]
    exact h
  · rw [List.map_append, List.map_singleton, ← List.concat_eq_append]
    refine h.concat ?_
    intro hmem
    obtain ⟨row, hrow, hid⟩ := List.mem_map.mp hmem
    exact hany (List.any_eq_true.mpr ⟨row, hrow, decide_eq_true hid⟩)

theorem mem_insertLinks {links : List (String × String)} {identity : String} {sources : List String} :
    link ∈ sources.foldl (fun links source ↦ insertLink links (source, identity)) links ↔
      link ∈ links ∨ ∃ source ∈ sources, link = (source, identity) := by
  induction sources generalizing links with
  | nil => simp
  | cons source sources ih =>
    have hinsert : link ∈ insertLink links (source, identity) ↔ link ∈ links ∨ link = (source, identity) := by
      unfold insertLink
      split_ifs with hmem
      · exact ⟨Or.inl, fun h ↦ h.elim id fun heq ↦ heq ▸ hmem⟩
      · rw [List.mem_append, List.mem_singleton]
    rw [List.foldl_cons, ih, hinsert]
    simp only [List.mem_cons, exists_eq_or_imp, or_assoc]

theorem related_subset_sources (record : Record) (name : Relation) :
    ∀ source ∈ record.related name, source ∈ record.sources := by
  intro source hsource
  unfold Record.related at hsource
  cases hlookup : record.relations.lookup name with
  | none => simp [hlookup] at hsource
  | some ids =>
    rw [hlookup, Option.getD_some] at hsource
    obtain ⟨before, after, hsplit, -⟩ := List.lookup_eq_some_iff.mp hlookup
    refine List.mem_flatMap.mpr ⟨(name, ids), ?_, hsource⟩
    rw [hsplit]
    exact List.mem_append_right _ List.mem_cons_self

theorem mem_distinct {values : List String} {value : String} : value ∈ distinct values ↔ value ∈ values := by
  have hfold : ∀ kept : List String, value ∈ values.foldl (fun kept value ↦
      if value ∈ kept then kept else kept ++ [value]) kept ↔ value ∈ kept ∨ value ∈ values := by
    intro kept
    induction values generalizing kept with
    | nil => simp
    | cons first values ih =>
      rw [List.foldl_cons, ih, List.mem_cons]
      split_ifs with hmem
      · constructor
        · exact Or.imp_right Or.inr
        · rintro (hkept | rfl | hrest)
          · exact Or.inl hkept
          · exact Or.inl hmem
          · exact Or.inr hrest
      · rw [List.mem_append, List.mem_singleton, or_assoc]
  rw [distinct, hfold]
  simp

theorem lookup_setRelation (relations : List (Relation × List String)) (name : Relation) (ids : List String) :
    (setRelation relations name ids).lookup name = some ids := by
  unfold setRelation
  split_ifs with hsome
  · induction relations with
    | nil => cases hsome
    | cons entry relations ih =>
      rw [List.map_cons]
      by_cases hname : entry.1 = name
      · simp [hname]
      · rw [if_neg hname, List.lookup_cons, beq_eq_false_iff_ne.mpr (Ne.symm hname)]
        apply ih
        rw [List.lookup_cons, beq_eq_false_iff_ne.mpr (Ne.symm hname)] at hsome
        exact hsome
  · rw [Bool.not_eq_true, Option.isSome_eq_false_iff, Option.isNone_iff_eq_none] at hsome
    rw [List.lookup_append, hsome]
    simp

theorem captureIds_subset_sources (h : bindCaptureSources given = .ok record) :
    ∀ source ∈ record.captureIds, source ∈ record.sources := by
  simp only [bindCaptureSources, Py.bind_eq_ok_iff, Py.pure_eq_ok, Except.ok.injEq] at h
  obtain ⟨_, -, rfl⟩ := h
  intro source hsource
  split_ifs at hsource ⊢ with hempty
  · rw [Record.captureIds, List.isEmpty_iff.mp hempty, List.nil_append] at hsource
    exact related_subset_sources given .causedBy source hsource
  · apply related_subset_sources _ .causedBy
    unfold Record.captureIds Record.related at hsource
    unfold Record.related
    rw [lookup_setRelation, Option.getD_some] at hsource ⊢
    obtain hmessage | hcause := List.mem_append.mp hsource
    · exact mem_distinct.mpr (List.mem_append_right _ hmessage)
    · exact hcause

/-- What `_put` has checked, and what it writes. -/
structure Stored (context : Context) (tables result : Tables) (record : Record) : Prop where
  bound : ∀ source ∈ record.captureIds, source ∈ record.sources
  shadow : (tables.capture record.id).all (fun row ↦ decide (row.scope = record.scope)) = true
  version : record.version = nextVersion (tables.record record.id)
  identity : (tables.record record.id).all (fun old ↦ decide (old.scope = record.scope)) = true
  sources : ∀ source ∈ record.sources,
    (tables.record source).all (fun row ↦ decide (row.scope = record.scope)) = true ∧
      (tables.capture source).all (fun row ↦ decide (row.scope = record.scope)) = true
  incoming : ∀ row ∈ Tables.derived { tables with
      links := record.sources.foldl (fun links source ↦ insertLink links (source, record.id)) tables.links }
      record.id, row.scope = record.scope
  result_eq : result = Tables.insert { tables with
      links := record.sources.foldl (fun links source ↦ insertLink links (source, record.id)) tables.links }
      context record

theorem putRecord_spec (h : putRecord context tables given expectedVersion = .ok (result, record)) :
    Stored context tables result record := by
  simp only [putRecord, Py.bind_eq_ok_iff, Py.require_eq_ok_iff, Py.pure_eq_ok, Except.ok.injEq, Prod.mk.injEq] at h
  obtain ⟨bound, hbound, _, -, _, hshadow, _, hversion, _, hidentity, _, hsources, _, hincoming, _, -, rfl, rfl⟩ := h
  refine ⟨captureIds_subset_sources hbound, ?_, ?_, ?_, ?_, ?_, rfl⟩
  · rw [Option.all_eq_true] at hshadow ⊢
    intro row hrow
    exact (Bool.and_eq_true_iff.mp (hshadow row hrow)).2
  · rw [Bool.and_eq_true, decide_eq_true_eq] at hversion
    exact hversion.2
  · rw [Option.all_eq_true] at hidentity ⊢
    intro old hold
    exact (Bool.and_eq_true_iff.mp (hidentity old hold)).2
  · intro source hsource
    have hchecked := Py.forM_eq_ok_iff.mp hsources source hsource
    simp only [checkSource, Py.bind_eq_ok_iff, Py.require_eq_ok_iff] at hchecked
    obtain ⟨_, hrecord, hcapture⟩ := hchecked
    exact ⟨hrecord, hcapture⟩
  · intro row hrow
    simpa using List.all_eq_true.mp hincoming row hrow

section

variable (h : Stored context tables result record)
include h

theorem Stored.mem_links :
    link ∈ result.links ↔ link ∈ tables.links ∨ ∃ source ∈ record.sources, link = (source, record.id) := by
  rw [h.result_eq]
  exact mem_insertLinks

theorem Stored.mem_records {row : Record} :
    row ∈ result.records ↔ row = record ∨ row ∈ tables.records ∧ row.id ≠ record.id := by
  rw [h.result_eq]
  exact mem_putRow

theorem Stored.captures_eq : result.captures = tables.captures := by
  rw [h.result_eq]
  rfl

theorem Stored.scope_eq {row : Record} (hscoped : Scoped tables)
    (hrow : row ∈ tables.records) (hid : row.id = record.id) : row.scope = record.scope := by
  have hall := (find_key_all_iff hscoped.records).mp h.identity row hrow hid
  simpa using hall

theorem Stored.source_scope {row : Record} (hscoped : Scoped tables)
    (hrow : row ∈ tables.records) (hsource : row.id ∈ record.sources) : row.scope = record.scope := by
  have hall := (find_key_all_iff hscoped.records).mp (h.sources row.id hsource).1 row hrow rfl
  simpa using hall

theorem Stored.capture_scope {row : Capture} (hscoped : Scoped tables)
    (hrow : row ∈ tables.captures) (hsource : row.id ∈ record.sources) : row.scope = record.scope := by
  have hall := (find_key_all_iff hscoped.captures).mp (h.sources row.id hsource).2 row hrow rfl
  simpa using hall

theorem Stored.incoming_scope {row : Record} (hscoped : Scoped tables)
    (hrow : row ∈ tables.records) (hlink : (record.id, row.id) ∈ tables.links) : row.scope = record.scope := by
  apply h.incoming row
  refine (mem_derived_iff ?_).mpr ⟨hrow, mem_insertLinks.mpr (Or.inl hlink)⟩
  exact hscoped.records

end

theorem Scoped.stored (hscoped : Scoped tables) (h : Stored context tables result record) : Scoped result := by
  refine ⟨?_, ?_, ?_, ?_, ?_, ?_⟩
  · rw [h.result_eq]
    exact nodup_putRow hscoped.records record
  · rw [h.captures_eq]
    exact hscoped.captures
  · intro link hlink
    obtain hold | ⟨source, -, rfl⟩ := h.mem_links.mp hlink
    · obtain ⟨row, hrow, hid⟩ := hscoped.derived link hold
      by_cases hsame : row.id = record.id
      · exact ⟨record, h.mem_records.mpr (Or.inl rfl), hsame.symm.trans hid⟩
      · exact ⟨row, h.mem_records.mpr (Or.inr ⟨hrow, hsame⟩), hid⟩
    · exact ⟨record, h.mem_records.mpr (Or.inl rfl), rfl⟩
  · intro link hlink source hsource hfirst row hrow hsecond
    obtain rfl | ⟨hrow, hne⟩ := h.mem_records.mp hrow
    · -- the derived record is the stored one
      obtain rfl | ⟨hsource, hother⟩ := h.mem_records.mp hsource
      · rfl
      · obtain hold | ⟨name, hname, rfl⟩ := h.mem_links.mp hlink
        · obtain ⟨old, hmem, hid⟩ := hscoped.derived link hold
          rw [hscoped.sources link hold source hsource hfirst old hmem hid]
          exact h.scope_eq hscoped hmem (hid.trans hsecond.symm)
        · exact h.source_scope hscoped hsource (hfirst ▸ hname)
    · have hold : link ∈ tables.links := by
        refine (h.mem_links.mp hlink).resolve_right ?_
        rintro ⟨name, -, rfl⟩
        exact hne hsecond
      obtain rfl | ⟨hsource, hother⟩ := h.mem_records.mp hsource
      · have hincoming : (source.id, row.id) ∈ tables.links := by
          rw [hfirst, hsecond]
          exact hold
        exact (h.incoming_scope hscoped hrow hincoming).symm
      · exact hscoped.sources link hold source hsource hfirst row hrow hsecond
  · rw [h.captures_eq]
    intro link hlink capture hcapture hfirst row hrow hsecond
    obtain rfl | ⟨hrow, hne⟩ := h.mem_records.mp hrow
    · obtain hold | ⟨name, hname, rfl⟩ := h.mem_links.mp hlink
      · obtain ⟨old, hmem, hid⟩ := hscoped.derived link hold
        rw [hscoped.evidence link hold capture hcapture hfirst old hmem hid]
        exact h.scope_eq hscoped hmem (hid.trans hsecond.symm)
      · exact h.capture_scope hscoped hcapture (hfirst ▸ hname)
    · have hold : link ∈ tables.links := by
        refine (h.mem_links.mp hlink).resolve_right ?_
        rintro ⟨name, -, rfl⟩
        exact hne hsecond
      exact hscoped.evidence link hold capture hcapture hfirst row hrow hsecond
  · rw [h.captures_eq]
    intro row hrow capture hcapture hid
    obtain rfl | ⟨hrow, -⟩ := h.mem_records.mp hrow
    · have hall := (find_key_all_iff hscoped.captures).mp h.shadow capture hcapture hid
      simpa using hall
    · exact hscoped.shadows row hrow capture hcapture hid

theorem refreshFacet_cases (h : refreshFacet context tables record = .ok result) :
    result = tables ∨ ∃ observation, Stored context tables result observation := by
  unfold refreshFacet at h
  split at h
  · split at h
    · cases h
      exact Or.inl rfl
    · dsimp only at h
      split at h
      · cases h
        exact Or.inl rfl
      · rw [Py.bind_eq_ok_iff] at h
        obtain ⟨first, -, h⟩ := h
        split at h
        · cases h
          exact Or.inl rfl
        · simp only [Py.bind_eq_ok_iff] at h
          obtain ⟨observation, -, ⟨last, stored⟩, hobservation, heq⟩ := h
          cases heq
          exact Or.inr ⟨stored, putRecord_spec hobservation⟩
  · cases h
    exact Or.inl rfl

section Invariant

variable {property : Tables → Prop}

theorem put_invariant
    (hstored : ∀ tables result record, property tables → Stored context tables result record → property result)
    (h : property tables) (hput : put context tables given expectedVersion = .ok result) : property result := by
  simp only [put, Py.bind_eq_ok_iff] at hput
  obtain ⟨⟨middle, record⟩, hrecord, hput⟩ := hput
  have hmiddle := hstored tables middle record h (putRecord_spec hrecord)
  dsimp only at hput
  split_ifs at hput
  · obtain rfl | ⟨observation, hobservation⟩ := refreshFacet_cases hput
    · exact hmiddle
    · exact hstored middle result observation hmiddle hobservation
  · cases hput
    exact hmiddle

theorem putMany_invariant
    (hstored : ∀ tables result record, property tables → Stored context tables result record → property result)
    (h : property tables) (hput : putMany context tables records = .ok result) : property result := by
  simp only [putMany, Py.bind_eq_ok_iff] at hput
  obtain ⟨_, -, hput⟩ := hput
  induction records generalizing tables with
  | nil =>
    cases hput
    exact h
  | cons record records ih =>
    rw [List.foldlM_cons, Py.bind_eq_ok_iff] at hput
    obtain ⟨middle, hmiddle, hput⟩ := hput
    exact ih (put_invariant hstored h hmiddle) hput

end Invariant

theorem capture_spec {given : Capture} (h : capture context tables given = .ok result) :
    result = tables ∨ (tables.record given.id).all (fun row ↦ decide (row.scope = given.scope)) = true ∧
        (∀ row ∈ tables.derived given.id, row.scope = given.scope) ∧ tables.capture given.id = none ∧
        result = { tables with
          captures := tables.captures ++ [given]
          refs := stageRef context tables.refs (given.id, .capture) } := by
  simp only [capture, Py.bind_eq_ok_iff, Py.require_eq_ok_iff] at h
  obtain ⟨_, -, _, -, _, hshadow, _, hderived, h⟩ := h
  split at h
  · rw [Py.bind_eq_ok_iff] at h
    obtain ⟨_, -, h⟩ := h
    cases h
    exact Or.inl rfl
  next hnone =>
    cases h
    refine Or.inr ⟨?_, ?_, hnone, rfl⟩
    · rw [Option.all_eq_true] at hshadow ⊢
      intro row hrow
      exact (Bool.and_eq_true_iff.mp (hshadow row hrow)).2
    · intro row hrow
      simpa using List.all_eq_true.mp hderived row hrow

theorem Scoped.capture {given : Capture} (h : Scoped tables)
    (hcapture : capture context tables given = .ok result) : Scoped result := by
  obtain rfl | ⟨hshadow, hderived, hnone, rfl⟩ := capture_spec hcapture
  · exact h
  · refine ⟨h.records, ?_, h.derived, h.sources, ?_, ?_⟩
    · rw [List.map_append, List.map_singleton, ← List.concat_eq_append]
      refine h.captures.concat ?_
      intro hmem
      obtain ⟨row, hrow, hid⟩ := List.mem_map.mp hmem
      have hfound := (find_key_eq_some_iff h.captures).mpr ⟨hrow, hid⟩
      rw [Tables.capture, hfound] at hnone
      cases hnone
    · intro link hlink row hrow hfirst record hrecord hsecond
      obtain hold | hnew := List.mem_append.mp hrow
      · exact h.evidence link hlink row hold hfirst record hrecord hsecond
      · rw [List.mem_singleton] at hnew
        subst hnew
        refine (hderived record ((mem_derived_iff h.records).mpr ⟨hrecord, ?_⟩)).symm
        rw [hfirst, hsecond]
        exact hlink
    · intro record hrecord row hrow hid
      obtain hold | hnew := List.mem_append.mp hrow
      · exact h.shadows record hrecord row hold hid
      · rw [List.mem_singleton] at hnew
        subst hnew
        have hall := (find_key_all_iff h.records).mp hshadow record hrecord hid.symm
        simp only [decide_eq_true_eq] at hall
        exact hall.symm

theorem Scoped.erase (h : Scoped tables) (deleted : List String) (captures : List (String × Scope)) :
    Scoped (tables.erase deleted captures) := by
  have hrecords : ∀ record ∈ (tables.erase deleted captures).records, record ∈ tables.records :=
    fun record hrecord ↦ (List.mem_filter.mp hrecord).1
  have hcaptures : ∀ row ∈ (tables.erase deleted captures).captures, row ∈ tables.captures :=
    fun row hrow ↦ (List.mem_filter.mp hrow).1
  have hlinks : ∀ link ∈ (tables.erase deleted captures).links,
      link ∈ tables.links ∧ link.1 ∉ deleted ∧ link.2 ∉ deleted := by
    intro link hlink
    obtain ⟨hold, hkept⟩ := List.mem_filter.mp hlink
    exact ⟨hold, of_decide_eq_true hkept⟩
  refine ⟨?_, ?_, ?_, ?_, ?_, ?_⟩
  · exact h.records.sublist (List.filter_sublist.map _)
  · exact h.captures.sublist (List.filter_sublist.map _)
  · intro link hlink
    obtain ⟨hold, -, hkept⟩ := hlinks link hlink
    obtain ⟨record, hrecord, hid⟩ := h.derived link hold
    refine ⟨record, List.mem_filter.mpr ⟨hrecord, ?_⟩, hid⟩
    rw [hid]
    exact decide_eq_true hkept
  · intro link hlink source hsource hfirst record hrecord hsecond
    exact h.sources link (hlinks link hlink).1 source (hrecords source hsource) hfirst record
      (hrecords record hrecord) hsecond
  · intro link hlink row hrow hfirst record hrecord hsecond
    exact h.evidence link (hlinks link hlink).1 row (hcaptures row hrow) hfirst record
      (hrecords record hrecord) hsecond
  · intro record hrecord row hrow hid
    exact h.shadows record (hrecords record hrecord) row (hcaptures row hrow) hid

theorem forget_eq_ok {given : Forget} {deleted : List String} (h : forget tables given = .ok (result, deleted)) :
    deleted = tables.deleted given.identity ∧
      result = tables.erase (tables.deleted given.identity) (tables.captureIds given.identity) := by
  simp only [forget, Py.bind_eq_ok_iff, Py.pure_eq_ok, Except.ok.injEq, Prod.mk.injEq] at h
  obtain ⟨_, -, _, -, _, -, _, -, _, -, rfl, rfl⟩ := h
  exact ⟨rfl, rfl⟩

theorem Scoped.step {next : Tables} {action : Action} (h : Scoped tables) (hstep : step tables action = .ok next) :
    Scoped next := by
  cases action with
  | put context record expectedVersion => exact put_invariant (fun _ _ _ ↦ Scoped.stored) h hstep
  | putMany context records => exact putMany_invariant (fun _ _ _ ↦ Scoped.stored) h hstep
  | capture context given => exact h.capture hstep
  | forget given =>
    obtain ⟨⟨result, deleted⟩, hforget, heq⟩ := Py.of_bind hstep
    cases heq
    rw [(forget_eq_ok hforget).2]
    exact h.erase _ _
  | note table identity =>
    cases hstep
    exact ⟨h.records, h.captures, h.derived, h.sources, h.evidence, h.shadows⟩
  | deliver row =>
    cases hstep
    exact ⟨h.records, h.captures, h.derived, h.sources, h.evidence, h.shadows⟩

theorem scoped_run (actions : List Action) : Scoped (run MemoryJournal.step .empty actions) := by
  refine run_invariant (fun tables action next h hstep ↦ h.step hstep) ?_ actions
  refine ⟨.nil, .nil, ?_, ?_, ?_, ?_⟩ <;> simp [Tables.empty]

/-- In every run each link leads to a record of the scope of its source. -/
theorem relationships_scoped (actions : List Action) :
    let tables := run step .empty actions
    (∀ link ∈ tables.links, ∃ derived, tables.record link.2 = some derived ∧
      (∀ source, tables.record link.1 = some source → source.scope = derived.scope) ∧
      ∀ row, tables.capture link.1 = some row → row.scope = derived.scope) ∧
    ∀ identity record row, tables.record identity = some record → tables.capture identity = some row →
      row.scope = record.scope := by
  intro tables
  have h := scoped_run actions
  constructor
  · intro link hlink
    obtain ⟨derived, hderived, hid⟩ := h.derived link hlink
    refine ⟨derived, (find_key_eq_some_iff h.records).mpr ⟨hderived, hid⟩, ?_, ?_⟩
    · intro source hsource
      obtain ⟨hmem, hfirst⟩ := (find_key_eq_some_iff h.records).mp hsource
      exact h.sources link hlink source hmem hfirst derived hderived hid
    · intro row hrow
      obtain ⟨hmem, hfirst⟩ := (find_key_eq_some_iff h.captures).mp hrow
      exact h.evidence link hlink row hmem hfirst derived hderived hid
  · intro identity record row hrecord hrow
    obtain ⟨hmem, rfl⟩ := (find_key_eq_some_iff h.records).mp hrecord
    obtain ⟨hmem', hid⟩ := (find_key_eq_some_iff h.captures).mp hrow
    exact h.shadows record hmem row hmem' hid

end UniMem.MemoryJournal
