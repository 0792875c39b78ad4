import UniMem.MemoryJournal.Scopes

/-!
# Erasure is closed under derivation

The loop of `_forget` follows the links of a record and the captures of its versions. Where the two texts of a scope
agree, everything that was derived from the record is deleted.
-/

namespace UniMem.MemoryJournal

open Library

/-- A scope whose text is the same with and without `ensure_ascii`. -/
def Plain (scope : Scope) : Prop := ∀ char ∈ scopeText scope, char.toNat < 127

/-- A version names the other record, or a capture of one of its versions. -/
def Derives (tables : Tables) (first second : String) : Prop :=
  (∃ event ∈ tables.events, event.id = second ∧ first ∈ event.sources) ∨
    ∃ event ∈ tables.events, event.id = first ∧ ∃ row ∈ tables.captures, row.id ∈ event.captureIds ∧
      row.scope = event.scope ∧ ∃ other ∈ tables.events, other.id = second ∧ row.id ∈ other.sources

/-- Every version has its links and the scope of its record. -/
structure Traced (tables : Tables) : Prop where
  scopes : Scoped tables
  linked : ∀ event ∈ tables.events, ∀ source ∈ event.sources, (source, event.id) ∈ tables.links
  bound : ∀ event ∈ tables.events, ∀ source ∈ event.captureIds, source ∈ event.sources
  current : ∀ event ∈ tables.events, ∃ record ∈ tables.records, record.id = event.id ∧
    record.scope = event.scope
  recorded : ∀ record ∈ tables.records, ∃ event ∈ tables.events, event.id = record.id
  referenced : ∀ identity, (identity, Resource.capture) ∈ tables.refs → ∃ row ∈ tables.captures, row.id = identity

theorem mem_stageRef {context : Context} {refs : List (String × Resource)} {entry added : String × Resource}
    (h : entry ∈ stageRef context refs added) : entry ∈ refs ∨ entry = added := by
  unfold stageRef at h
  split_ifs at h
  · obtain hold | hnew := List.mem_append.mp h
    · exact Or.inl (List.mem_filter.mp hold).1
    · exact Or.inr (List.mem_singleton.mp hnew)
  · exact Or.inl h

variable {result : Tables} {record : Record} {identity current : String} {row : Capture}

theorem Traced.stored {context : Context} {tables : Tables} (h : Traced tables)
    (hstored : Stored context tables result record) : Traced result := by
  have hevents : ∀ event ∈ result.events, event ∈ tables.events ∨ event = record := by
    intro event hevent
    rw [hstored.result_eq] at hevent
    exact (List.mem_append.mp hevent).imp_right List.mem_singleton.mp
  refine ⟨h.scopes.stored hstored, ?_, ?_, ?_, ?_, ?_⟩
  · intro event hevent source hsource
    obtain hold | rfl := hevents event hevent
    · exact hstored.mem_links.mpr (Or.inl (h.linked event hold source hsource))
    · exact hstored.mem_links.mpr (Or.inr ⟨source, hsource, rfl⟩)
  · intro event hevent
    obtain hold | rfl := hevents event hevent
    · exact h.bound event hold
    · exact hstored.bound
  · intro event hevent
    obtain hold | rfl := hevents event hevent
    · obtain ⟨row, hrow, hid, hscope⟩ := h.current event hold
      by_cases hsame : row.id = record.id
      · refine ⟨record, hstored.mem_records.mpr (Or.inl rfl), hsame.symm.trans hid, ?_⟩
        rw [← hscope, hstored.scope_eq h.scopes hrow hsame]
      · exact ⟨row, hstored.mem_records.mpr (Or.inr ⟨hrow, hsame⟩), hid, hscope⟩
    · exact ⟨event, hstored.mem_records.mpr (Or.inl rfl), rfl, rfl⟩
  · intro row hrow
    rw [hstored.result_eq]
    obtain rfl | ⟨hold, -⟩ := hstored.mem_records.mp hrow
    · exact ⟨row, List.mem_append_right _ List.mem_cons_self, rfl⟩
    · obtain ⟨event, hevent, hid⟩ := h.recorded row hold
      exact ⟨event, List.mem_append_left _ hevent, hid⟩
  · intro identity hidentity
    rw [hstored.captures_eq]
    rw [hstored.result_eq] at hidentity
    obtain hold | hnew := mem_stageRef hidentity
    · exact h.referenced identity hold
    · cases hnew

theorem Traced.capture {context : Context} {tables : Tables} {given : Capture} (h : Traced tables)
    (hcapture : capture context tables given = .ok result) : Traced result := by
  have hscoped := h.scopes.capture hcapture
  obtain rfl | ⟨-, -, -, rfl⟩ := capture_spec hcapture
  · exact h
  · refine ⟨hscoped, h.linked, h.bound, h.current, h.recorded, ?_⟩
    intro identity hidentity
    obtain hold | hnew := mem_stageRef hidentity
    · obtain ⟨row, hrow, hid⟩ := h.referenced identity hold
      exact ⟨row, List.mem_append_left _ hrow, hid⟩
    · cases hnew
      exact ⟨given, List.mem_append_right _ List.mem_cons_self, rfl⟩

theorem successors_dependents (tables : Tables) (current : String) :
    Worklist.successors tables.dependents current = tables.pushed current := by
  refine Worklist.successors_map (fun name hname ↦ ?_) current
  rw [List.mem_dedup, List.mem_append, not_or] at hname
  have hlinks : tables.links.filter (·.1 = name) = [] := by
    rw [List.filter_eq_nil_iff]
    intro link hlink hsource
    exact hname.1 (List.mem_map.mpr ⟨link, hlink, by simpa using hsource⟩)
  have hevents : tables.events.filter (·.id = name) = [] := by
    rw [List.filter_eq_nil_iff]
    intro event hevent hid
    exact hname.2 (List.mem_map.mpr ⟨event, hevent, by simpa using hid⟩)
  unfold Tables.pushed
  rw [hlinks, hevents]
  rfl

theorem self_mem_deleted (tables : Tables) (identity : String) : identity ∈ tables.deleted identity :=
  Worklist.pending_subset_reach tables.dependents [identity] [] List.mem_cons_self

theorem pushed_subset_deleted {tables : Tables} {next : String} (hcurrent : current ∈ tables.deleted identity)
    (hnext : next ∈ tables.pushed current) :
    next ∈ tables.deleted identity := by
  refine Worklist.reach_closed tables.dependents ?_ hcurrent ?_
  · exact fun node hnode ↦ absurd hnode List.not_mem_nil
  · rw [Worklist.Step, successors_dependents]
    exact hnext

theorem link_mem_deleted {tables : Tables} {source derived : String} (hsource : source ∈ tables.deleted identity)
    (hlink : (source, derived) ∈ tables.links) :
    derived ∈ tables.deleted identity := by
  apply pushed_subset_deleted hsource
  apply List.mem_append_left
  exact List.mem_map.mpr ⟨_, List.mem_filter.mpr ⟨hlink, decide_eq_true rfl⟩, rfl⟩

theorem Traced.erase {tables : Tables} (h : Traced tables) (identity : String)
    (captures : List (String × Scope)) : Traced (tables.erase (tables.deleted identity) captures) := by
  have hevents : ∀ event ∈ (tables.erase (tables.deleted identity) captures).events,
      event ∈ tables.events ∧ event.id ∉ tables.deleted identity := by
    intro event hevent
    obtain ⟨hold, hkept⟩ := List.mem_filter.mp hevent
    exact ⟨hold, of_decide_eq_true hkept⟩
  refine ⟨h.scopes.erase _ _, ?_, ?_, ?_, ?_, ?_⟩
  · intro event hevent source hsource
    obtain ⟨hold, hkept⟩ := hevents event hevent
    have hlink := h.linked event hold source hsource
    refine List.mem_filter.mpr ⟨hlink, decide_eq_true ⟨?_, hkept⟩⟩
    intro hdeleted
    exact hkept (link_mem_deleted hdeleted hlink)
  · intro event hevent
    exact h.bound event (hevents event hevent).1
  · intro event hevent
    obtain ⟨hold, hkept⟩ := hevents event hevent
    obtain ⟨record, hrecord, hid, hscope⟩ := h.current event hold
    refine ⟨record, List.mem_filter.mpr ⟨hrecord, ?_⟩, hid, hscope⟩
    rw [hid]
    exact decide_eq_true hkept
  · intro record hrecord
    obtain ⟨hold, hkept⟩ := List.mem_filter.mp hrecord
    obtain ⟨event, hevent, hid⟩ := h.recorded record hold
    refine ⟨event, List.mem_filter.mpr ⟨hevent, ?_⟩, hid⟩
    rw [hid]
    exact hkept
  · intro name hname
    obtain ⟨hold, hkept⟩ := List.mem_filter.mp hname
    have hremains : name ∉ captures.map Prod.fst := of_decide_eq_true hkept
    obtain ⟨row, hrow, rfl⟩ := h.referenced name hold
    refine ⟨row, List.mem_filter.mpr ⟨hrow, decide_eq_true ?_⟩, rfl⟩
    intro hmem
    exact hremains (List.mem_map.mpr ⟨_, hmem, rfl⟩)

theorem Traced.step {tables next : Tables} {action : Action} (h : Traced tables)
    (hstep : step tables action = .ok next) : Traced next := by
  cases action with
  | put context record expectedVersion => exact put_invariant (fun _ _ _ ↦ Traced.stored) h hstep
  | putMany context records => exact putMany_invariant (fun _ _ _ ↦ Traced.stored) h hstep
  | capture context given => exact h.capture hstep
  | forget given =>
    obtain ⟨⟨result, deleted⟩, hforget, heq⟩ := Py.of_bind hstep
    cases heq
    rw [(forget_eq_ok hforget).2]
    exact h.erase _ _
  | note table identity =>
    have hscoped := h.scopes.step hstep
    cases hstep
    exact ⟨hscoped, h.linked, h.bound, h.current, h.recorded, h.referenced⟩
  | deliver row =>
    have hscoped := h.scopes.step hstep
    cases hstep
    exact ⟨hscoped, h.linked, h.bound, h.current, h.recorded, h.referenced⟩

theorem traced_run (actions : List Action) : Traced (run MemoryJournal.step .empty actions) := by
  refine run_invariant (fun tables action next h hstep ↦ h.step hstep) ?_ actions
  refine ⟨scoped_run [], ?_, ?_, ?_, ?_, ?_⟩ <;> simp [Tables.empty]

theorem asciiText_of_plain {scope : Scope} (h : Plain scope) : asciiText scope = scopeText scope := by
  unfold asciiText
  unfold Plain at h
  generalize scopeText scope = chars at h ⊢
  induction chars with
  | nil => rfl
  | cons char chars ih =>
    rw [List.forall_mem_cons] at h
    rw [List.flatMap_cons, ih h.2, asciiChar, if_pos h.1, List.singleton_append]

theorem mem_capturesOf_iff {tables : Tables} (h : Scoped tables) :
    row ∈ tables.capturesOf record ↔
      row ∈ tables.captures ∧ row.id ∈ record.captureIds ∧ row.scope = record.scope := by
  unfold Tables.capturesOf
  rw [List.mem_filterMap]
  constructor
  · rintro ⟨source, hsource, hrow⟩
    obtain ⟨hfound, hscope⟩ := Option.filter_eq_some_iff.mp hrow
    obtain ⟨hmem, rfl⟩ := (find_key_eq_some_iff h.captures).mp hfound
    exact ⟨hmem, hsource, of_decide_eq_true hscope⟩
  · rintro ⟨hmem, hsource, hscope⟩
    exact ⟨row.id, hsource, Option.filter_eq_some_iff.mpr
      ⟨(find_key_eq_some_iff h.captures).mpr ⟨hmem, rfl⟩, decide_eq_true hscope⟩⟩

theorem sharing_mem_deleted {tables : Tables} (h : Traced tables) {event other : Record}
    (hevent : event ∈ tables.events) (hdeleted : event.id ∈ tables.deleted identity) (hplain : Plain event.scope)
    (hrow : row ∈ tables.capturesOf event) (hother : other ∈ tables.events) (hsource : row.id ∈ other.sources) :
    other.id ∈ tables.deleted identity := by
  have hlink := h.linked other hother row.id hsource
  obtain ⟨record, hrecord, hid, -⟩ := h.current other hother
  obtain ⟨hmem, -, hscope⟩ := (mem_capturesOf_iff h.scopes).mp hrow
  have hsame : record.scope = event.scope := by
    rw [← hscope]
    exact (h.scopes.evidence _ hlink row hmem rfl record hrecord hid).symm
  apply pushed_subset_deleted hdeleted
  apply List.mem_append_right
  refine List.mem_flatMap.mpr ⟨event, List.mem_filter.mpr ⟨hevent, decide_eq_true rfl⟩, ?_⟩
  refine List.mem_flatMap.mpr ⟨row, hrow, List.mem_map.mpr ⟨record, ?_, hid⟩⟩
  refine List.mem_filter.mpr ⟨(mem_derived_iff h.scopes.records).mpr ⟨hrecord, hid ▸ hlink⟩, ?_⟩
  rw [hsame, asciiText_of_plain hplain]
  exact decide_eq_true rfl

theorem exists_event_of_deleted {tables : Tables} (h : Traced tables)
    (hdeleted : current ∈ tables.deleted identity) :
    current = identity ∨ ∃ event ∈ tables.events, event.id = current := by
  obtain hnil | ⟨start, hstart, hpath⟩ := Worklist.mem_reach tables.dependents hdeleted
  · cases hnil
  · rw [List.mem_singleton] at hstart
    subst hstart
    obtain rfl | ⟨before, -, hstep⟩ := Relation.ReflTransGen.cases_tail hpath
    · exact Or.inl rfl
    · right
      have hrecord : ∃ record ∈ tables.records, record.id = current := by
        rw [Worklist.Step, successors_dependents] at hstep
        obtain hlink | hshared := List.mem_append.mp hstep
        · obtain ⟨link, hmem, rfl⟩ := List.mem_map.mp hlink
          exact h.scopes.derived link (List.mem_filter.mp hmem).1
        · obtain ⟨event, -, hshared⟩ := List.mem_flatMap.mp hshared
          obtain ⟨row, -, hshared⟩ := List.mem_flatMap.mp hshared
          obtain ⟨record, hrecord, rfl⟩ := List.mem_map.mp hshared
          have hderived := (List.mem_filter.mp hrecord).1
          exact ⟨record, ((mem_derived_iff h.scopes.records).mp hderived).1, rfl⟩
      obtain ⟨record, hmem, rfl⟩ := hrecord
      exact h.recorded record hmem

theorem capture_mem_captureIds {tables : Tables} (h : Traced tables) (hrow : row ∈ tables.captures)
    (hdeleted : row.id ∈ tables.deleted identity) :
    (row.id, row.scope) ∈ tables.captureIds identity := by
  unfold Tables.captureIds
  obtain hsame | ⟨event, hevent, hid⟩ := exists_event_of_deleted h hdeleted
  · apply List.mem_append_left
    have hfound : tables.capture identity = some row :=
      (find_key_eq_some_iff h.scopes.captures).mpr ⟨hrow, hsame⟩
    rw [hfound, Option.map_some, Option.toList_some, hsame]
    exact List.mem_cons_self
  · apply List.mem_append_right
    obtain ⟨record, hrecord, hrecordId, hscope⟩ := h.current event hevent
    have hshadow := h.scopes.shadows record hrecord row hrow (hid.symm.trans hrecordId.symm)
    refine List.mem_flatMap.mpr ⟨row.id, hdeleted, List.mem_flatMap.mpr ⟨event, ?_, ?_⟩⟩
    · exact List.mem_filter.mpr ⟨hevent, decide_eq_true hid⟩
    · rw [hshadow, hscope]
      exact List.mem_cons_self

theorem captureIds_cases {tables : Tables} (h : Traced tables) (hrow : row ∈ tables.captures)
    (herased : (row.id, row.scope) ∈ tables.captureIds identity) :
    row.id ∈ tables.deleted identity ∨
      ∃ event ∈ tables.events, event.id ∈ tables.deleted identity ∧ row ∈ tables.capturesOf event := by
  obtain hdirect | hsource := List.mem_append.mp herased
  · left
    rw [Option.mem_toList, Option.map_eq_some_iff] at hdirect
    obtain ⟨found, -, heq⟩ := hdirect
    rw [← (Prod.mk.inj heq).1]
    exact self_mem_deleted tables identity
  · obtain ⟨current, hcurrent, hsource⟩ := List.mem_flatMap.mp hsource
    obtain ⟨event, hversion, hsource⟩ := List.mem_flatMap.mp hsource
    obtain ⟨hevent, hid⟩ := List.mem_filter.mp hversion
    rw [decide_eq_true_eq] at hid
    subst hid
    obtain hself | hcapture := List.mem_cons.mp hsource
    · exact Or.inl ((Prod.mk.inj hself).1 ▸ hcurrent)
    · right
      obtain ⟨found, hfound, heq⟩ := List.mem_map.mp hcapture
      refine ⟨event, hevent, hcurrent, ?_⟩
      have hmem := ((mem_capturesOf_iff h.scopes).mp hfound).1
      rw [← List.inj_on_of_nodup_map h.scopes.captures hmem hrow (Prod.mk.inj heq).1]
      exact hfound

theorem derives_mem_deleted {tables : Tables} (h : Traced tables)
    (hplain : ∀ event ∈ tables.events, tables.capturesOf event ≠ [] → Plain event.scope) {first second : String}
    (hfirst : first ∈ tables.deleted identity) (hderives : Derives tables first second) :
    second ∈ tables.deleted identity := by
  obtain ⟨event, hevent, rfl, hsource⟩ | ⟨event, hevent, rfl, row, hrow, hcites, hscope, other, hother, rfl,
    hsource⟩ := hderives
  · exact link_mem_deleted hfirst (h.linked event hevent first hsource)
  · have hcapture : row ∈ tables.capturesOf event := (mem_capturesOf_iff h.scopes).mpr ⟨hrow, hcites, hscope⟩
    exact sharing_mem_deleted h hevent hfirst (hplain event hevent (List.ne_nil_of_mem hcapture)) hcapture
      hother hsource

/-- When captures are cited in one spelling, what remains names nothing forgotten or derived from it. -/
theorem forget_closed_under_derivation (actions : List Action) (given : Forget) (result : Tables)
    (deleted : List String) (hforget : forget (run step .empty actions) given = .ok (result, deleted))
    (hplain : ∀ event ∈ (run step .empty actions).events,
      (run step .empty actions).capturesOf event ≠ [] → Plain event.scope) :
    (∀ event ∈ result.events, ∀ source ∈ event.sources, source ∉ deleted ∧
      ∀ row ∈ (run step .empty actions).captures, row.id = source → row ∈ result.captures) ∧
    (∀ identity ∈ deleted, (∀ event ∈ result.events, event.id ≠ identity) ∧
      (∀ record ∈ result.records, record.id ≠ identity) ∧
      (∀ link ∈ result.links, link.1 ≠ identity ∧ link.2 ≠ identity) ∧
      (∀ row ∈ result.captures, row.id ≠ identity) ∧ (∀ entry ∈ result.refs, entry.1 ≠ identity) ∧
      (∀ entry ∈ result.side, entry.2 ≠ identity) ∧
      ∀ row ∈ result.deliveries, identity ∉ row.ids ∧ identity ∉ row.lessons) ∧
    ∀ identity, Relation.ReflTransGen (Derives (run step .empty actions)) given.identity identity →
      identity ∈ deleted := by
  obtain ⟨rfl, hresult⟩ := forget_eq_ok hforget
  have h := traced_run actions
  have herased := h.erase given.identity ((run step .empty actions).captureIds given.identity)
  rw [← hresult] at herased
  generalize run step .empty actions = tables at *
  have hcaptures : ∀ row ∈ tables.captures, row.id ∈ tables.deleted given.identity → row ∉ result.captures := by
    intro row hrow hdeleted hmem
    rw [hresult] at hmem
    exact of_decide_eq_true (List.mem_filter.mp hmem).2 (capture_mem_captureIds h hrow hdeleted)
  refine ⟨?_, ?_, ?_⟩
  · intro event hevent source hsource
    have hlink := herased.linked event hevent source hsource
    rw [hresult] at hlink hevent
    obtain ⟨hold, hkept⟩ := List.mem_filter.mp hlink
    have hremains := (of_decide_eq_true hkept)
    refine ⟨hremains.1, ?_⟩
    intro row hrow hid
    rw [hresult]
    refine List.mem_filter.mpr ⟨hrow, decide_eq_true ?_⟩
    intro hcapture
    subst hid
    obtain hdeleted | ⟨other, hother, hdeleted, hcites⟩ := captureIds_cases h hrow hcapture
    · exact hremains.1 hdeleted
    · apply hremains.2
      exact sharing_mem_deleted h hother hdeleted (hplain other hother (List.ne_nil_of_mem hcites)) hcites
        (List.mem_filter.mp hevent).1 hsource
  · intro identity hidentity
    have hcapture : ∀ row ∈ result.captures, row.id ≠ identity := by
      rintro row hrow rfl
      have hold : row ∈ tables.captures := by
        rw [hresult] at hrow
        exact (List.mem_filter.mp hrow).1
      exact hcaptures row hold hidentity hrow
    refine ⟨?_, ?_, ?_, hcapture, ?_, ?_, ?_⟩
    · rintro event hevent rfl
      rw [hresult] at hevent
      exact of_decide_eq_true (List.mem_filter.mp hevent).2 hidentity
    · rintro record hrecord rfl
      rw [hresult] at hrecord
      exact of_decide_eq_true (List.mem_filter.mp hrecord).2 hidentity
    · intro link hlink
      rw [hresult] at hlink
      have hkept := of_decide_eq_true (List.mem_filter.mp hlink).2
      exact ⟨fun heq ↦ hkept.1 (heq ▸ hidentity), fun heq ↦ hkept.2 (heq ▸ hidentity)⟩
    · rintro ⟨name, kind⟩ hentry rfl
      cases kind with
      | record =>
        rw [hresult] at hentry
        exact of_decide_eq_true (List.mem_filter.mp hentry).2 hidentity
      | capture =>
        obtain ⟨row, hrow, hid⟩ := herased.referenced name hentry
        exact hcapture row hrow hid
    · rintro entry hentry rfl
      rw [hresult] at hentry
      exact of_decide_eq_true (List.mem_filter.mp hentry).2 hidentity
    · intro row hrow
      rw [hresult] at hrow
      have hkept := List.all_eq_true.mp (List.mem_filter.mp hrow).2
      exact ⟨fun hmem ↦ of_decide_eq_true (hkept identity (List.mem_append_left _ hmem)) hidentity,
        fun hmem ↦ of_decide_eq_true (hkept identity (List.mem_append_right _ hmem)) hidentity⟩
  · intro identity hpath
    induction hpath with
    | refl => exact self_mem_deleted tables given.identity
    | tail _ hderives ih => exact derives_mem_deleted h hplain ih hderives

namespace Sample

def context : Context where
  runtime := {
    sha256 bytes := toString bytes.length
    hmacSha256 _ _ := ""
    ed25519PublicBytes := id
    ed25519Sign _ _ := ""
    ed25519Verify _ _ _ := false
    jsonLoads _ := none
    retainedSize _ := 0 }
  delegated := false
  streaming := false
  writable _ := true
  readable _ := true

def episode (scope : Scope) (identity : String) : Record :=
  ⟨identity, .episode, 1, ⟨[], none, none, .null⟩, .active, [(.causedBy, ["c"])], scope, .null⟩

def message (scope : Scope) : Capture := ⟨"c", "s", "message", .null, scope⟩

def sharing (scope : Scope) : List Action :=
  [.capture context (message scope), .put context (episode scope "a") none, .put context (episode scope "b") none]

def tables (scope : Scope) : Tables where
  events := [episode scope "a", episode scope "b"]
  records := [episode scope "a", episode scope "b"]
  links := [("c", "a"), ("c", "b")]
  captures := [message scope]
  refs := []
  side := [(.recordFts, "a"), (.recordFts, "b")]
  deliveries := []

def request : Forget := ⟨"a", "request", none, none, false, true⟩

def plain : Scope := [("user", .text "e")]

def accented : Scope := [("user", .text "é")]

theorem run_plain : run step .empty (sharing plain) = tables plain := by rfl

theorem run_accented : run step .empty (sharing accented) = tables accented := by rfl

theorem forget_tables (scope : Scope) :
    forget (tables scope) request = .ok ((tables scope).erase ((tables scope).deleted "a")
      ((tables scope).captureIds "a"), (tables scope).deleted "a") := by rfl

theorem pushed_accented : (tables accented).pushed "a" = [] := by decide +kernel

theorem deleted_accented : (tables accented).deleted "a" = ["a"] := by
  have hnil : Worklist.successors (tables accented).dependents "a" = [] := by
    rw [successors_dependents, pushed_accented]
  rw [Tables.deleted, Worklist.reach, if_neg List.not_mem_nil, hnil, List.reverse_nil, List.nil_append,
    Worklist.reach]

end Sample

/-- A capture is erased while an episode with another spelling still names it. -/
theorem shared_capture_dangles :
    ∃ result deleted,
      forget (run step .empty (Sample.sharing Sample.accented)) Sample.request = .ok (result, deleted) ∧
      Sample.message Sample.accented ∈ (run step .empty (Sample.sharing Sample.accented)).captures ∧
      result.captures = [] ∧ Sample.episode Sample.accented "b" ∈ result.events ∧
      (Sample.message Sample.accented).id ∈ (Sample.episode Sample.accented "b").sources := by
  rw [Sample.run_accented]
  refine ⟨_, _, Sample.forget_tables Sample.accented, List.mem_cons_self, ?_, ?_, by decide +kernel⟩
  · rw [Tables.captureIds, Sample.deleted_accented]
    rfl
  · rw [Sample.deleted_accented]
    exact List.mem_cons_self

theorem forget_closed_under_derivation_plain :
    ∃ result, ∃ deleted : List String,
      forget (run step .empty (Sample.sharing Sample.plain)) Sample.request = .ok (result, deleted) ∧
      "b" ∈ deleted := by
  have hforget := Sample.forget_tables Sample.plain
  rw [← Sample.run_plain] at hforget
  have hplain : ∀ event ∈ (run step .empty (Sample.sharing Sample.plain)).events,
      (run step .empty (Sample.sharing Sample.plain)).capturesOf event ≠ [] → Plain event.scope := by
    rw [Sample.run_plain]
    intro event hevent _
    have hscope : event.scope = Sample.plain := by
      simp only [Sample.tables, List.mem_cons, List.not_mem_nil, or_false] at hevent
      obtain rfl | rfl := hevent <;> rfl
    rw [hscope]
    unfold Plain
    simp [scopeText, encodeScope, Sample.plain, quoteText, escapeChar, ScopeValue.encode]
  refine ⟨_, _, hforget, ?_⟩
  apply (forget_closed_under_derivation (Sample.sharing Sample.plain) Sample.request _ _ hforget hplain).2.2
  rw [Sample.run_plain]
  apply Relation.ReflTransGen.single
  refine Or.inr ⟨Sample.episode Sample.plain "a", List.mem_cons_self, rfl, Sample.message Sample.plain,
    List.mem_cons_self, by decide +kernel, rfl, Sample.episode Sample.plain "b", ?_, rfl, by decide +kernel⟩
  exact List.mem_cons_of_mem _ List.mem_cons_self

end UniMem.MemoryJournal
