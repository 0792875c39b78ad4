import UniMem.Library.BoundedDepth
import UniMem.MemoryJournal.Scopes

/-!
# Grounded records

`_grounded` follows the sources of a record, each of which must exist, be readable and have the version that is
named. The walk is bounded. Other modules answer through parameters.
-/

namespace UniMem.MemoryJournal

open Library

/-- A moment of a record; an empty text is none. -/
def momentField (moment : String → ℤ) (value : Option Json) : Option ℤ :=
  match value with
  | some (.str text) => if text = "" then none else some (moment text)
  | _ => none

/-- The labels of a scope. -/
def labelsOf (scope : Scope) : List String :=
  match scope.lookup "labels" with
  | some (.labels labels) => labels
  | _ => []

/-- `visible`: the latest admitted version, in scope and valid. -/
def visible (moment : String → ℤ) (record : Record) (scope : Scope) (statuses : List Status) (stamp : ℤ) : Bool :=
  (match record.envelope.get? "is_latest" with
    | some (.bool latest) => latest
    | _ => true) &&
  decide (record.status ∈ statuses) &&
  (record.scope.all fun entry ↦ entry.1 = "labels" || scope.lookup entry.1 = some entry.2) &&
  ((labelsOf record.scope).all fun label ↦ decide (label ∈ labelsOf scope)) &&
  ((momentField moment (record.envelope.get? "valid_from")).all fun start ↦ decide (start ≤ stamp)) &&
  ((momentField moment (record.envelope.get? "valid_until")).all fun stop ↦ decide (stamp < stop)) &&
  ((momentField moment (record.envelope.get? "retracted_at")).all fun stop ↦ decide (stamp < stop)) &&
  ((momentField moment (record.payload.content.get? "forget_after")).all fun stop ↦ decide (stamp < stop))

/-- The answers of policies, capabilities and code evidence, and the request. -/
structure Admission where
  /-- `_runtime_readable`. -/
  runtimeReadable : Record → Bool
  delegated : Bool
  /-- Whether a policy, a purpose, a subject policy or a relation of records is enabled. -/
  restricted : Bool
  /-- `policy_io.permits` on the descriptor of a capture. -/
  permits : Capture → Bool
  /-- `policy_relations.authorized_ids`. -/
  authorized : String → Bool
  /-- `capability_io.permits` on the descriptor of a capture. -/
  capable : Capture → Bool
  quarantined : String → Bool
  codeEvidenceCurrent : Json → Bool
  /-- `record_visibility.moment`. -/
  moment : String → ℤ
  scope : Scope
  stamp : ℤ

/-- `record.provenance.get(name)`. -/
def Record.provenance (record : Record) (name : String) : Option Json :=
  (record.envelope.get? "provenance").bind (Json.get? name)

/-- The checks on a capture that caused a record. -/
def admitsCapture (admission : Admission) (tables : Tables) (record : Record) (identity : String) : Bool :=
  match tables.capture identity with
  | none => false
  | some capture =>
    decide (capture.scope = record.scope) && admission.permits capture && admission.authorized identity &&
      !(admission.delegated && (!admission.capable capture || admission.quarantined identity))

/-- The checks of `_grounded_record` on the record itself. -/
def admitsRecord (admission : Admission) (tables : Tables) (record : Record) : Bool :=
  admission.runtimeReadable record &&
  (!(admission.delegated || admission.restricted) ||
    (record.related .causedBy).all (admitsCapture admission tables record)) &&
  (record.provenance "code_evidence").all fun evidence ↦
    !truthy evidence || admission.codeEvidenceCurrent evidence

/-- The version of a source is the one that the record names, if it names any. -/
def sourceVersion (record : Record) (source : String) (parent : Record) : Bool :=
  match record.provenance "source_versions" with
  | none | some .null => true
  | some (.obj versions) =>
    match versions.lookup source with
    | some (.int version) => version = parent.version
    | _ => false
  | some _ => false

/-- `MAX_GROUNDING_DEPTH`. -/
def maxGroundingDepth : ℕ := 64

/-- `MAX_GROUNDING_STEPS`. -/
def maxGroundingSteps : ℕ := 4096

/-- A record at a depth of the walk. -/
structure Place where
  identity : String
  depth : ℕ
  deriving DecidableEq

/-- `GroundingState`. -/
structure GroundingState where
  remaining : ℕ
  results : List (Place × Bool)

def GroundingState.init : GroundingState := ⟨maxGroundingSteps, []⟩

/-- `enter`: a verdict that is known, and the state after the step. -/
def GroundingState.enter (state : GroundingState) (identity : String) (ancestors : List String) :
    Option Bool × GroundingState :=
  if identity ∈ ancestors ∨ maxGroundingDepth ≤ ancestors.length ∨ state.remaining = 0 then (some false, state)
  else (state.results.lookup ⟨identity, ancestors.length⟩, { state with remaining := state.remaining - 1 })

/-- `remember`. -/
def GroundingState.remember (state : GroundingState) (identity : String) (ancestors : List String)
    (eligible : Bool) : GroundingState :=
  { state with results := assign ⟨identity, ancestors.length⟩ eligible state.results }

/-- The loop of `_grounded_record` over the sources, with the call for a source. -/
def groundedSources (admission : Admission) (tables : Tables) (record : Record)
    (call : Record → GroundingState → Bool × GroundingState) : List String → GroundingState → Bool × GroundingState
  | [], state => (true, state)
  | source :: sources, state =>
    if state.remaining = 0 then (false, state)
    else
      match tables.record source with
      | none => (false, state)
      | some parent =>
        if sourceVersion record source parent = false ∨
            visible admission.moment parent admission.scope [.active] admission.stamp = false then (false, state)
        else
          match call parent state with
          | (false, state) => (false, state)
          | (true, state) => groundedSources admission tables record call sources state

/-- `_grounded_record`. -/
def groundedRecord (admission : Admission) (tables : Tables) (record : Record)
    (call : Record → GroundingState → Bool × GroundingState) (state : GroundingState) : Bool × GroundingState :=
  if admitsRecord admission tables record = false then (false, state)
  else groundedSources admission tables record call (distinct (record.related .derives)) state

/-- `_grounded` with a bound on the recursion that the depth limit keeps away. -/
def groundedFrom (admission : Admission) (tables : Tables) :
    ℕ → Record → List String → GroundingState → Bool × GroundingState
  | 0, _, _, state => (false, state)
  | fuel + 1, record, seen, state =>
    match state.enter record.id seen with
    | (some cached, state) => (cached, state)
    | (none, state) =>
      let result := groundedRecord admission tables record
        (fun parent state ↦ groundedFrom admission tables fuel parent (record.id :: seen) state) state
      (result.1, result.2.remember record.id seen result.1)

/-- `_grounded` on a candidate. -/
def grounded (admission : Admission) (tables : Tables) (record : Record) (state : GroundingState) :
    Bool × GroundingState :=
  groundedFrom admission tables (maxGroundingDepth + 1) record [] state

/-- The state after the candidates of a request. -/
def groundedAll (admission : Admission) (tables : Tables) (candidates : List Record) : GroundingState :=
  candidates.foldl (fun state record ↦ (grounded admission tables record state).2) .init

/-- A stored source that a record derives from. -/
def DerivesFrom (tables : Tables) (record parent : Record) : Prop :=
  ∃ source ∈ record.related .derives, tables.record source = some parent

/-- A record passes its checks, and its sources exist, are visible and have their version. -/
structure Admitted (admission : Admission) (tables : Tables) (record : Record) : Prop where
  own : admitsRecord admission tables record = true
  sources : ∀ source ∈ record.related .derives, ∃ parent, tables.record source = some parent ∧
    sourceVersion record source parent = true ∧
    visible admission.moment parent admission.scope [.active] admission.stamp = true

/-- A record and what it derives from is admitted, within 63 levels. -/
def Grounded (admission : Admission) (tables : Tables) (record : Record) : Prop :=
  ∀ levels other, Steps (DerivesFrom tables) levels record other →
    levels < maxGroundingDepth ∧ Admitted admission tables other

/-- Grounded within the levels that are left at a depth. -/
def GroundedAt (admission : Admission) (tables : Tables) (depth : ℕ) (record : Record) : Prop :=
  Within (Admitted admission tables) (DerivesFrom tables) (maxGroundingDepth - depth) record

variable {admission : Admission} {tables : Tables} {record parent : Record} {state : GroundingState}
    {seen : List String}

theorem groundedAt_zero_iff : GroundedAt admission tables 0 record ↔ Grounded admission tables record := within_iff

variable {depth : ℕ} {property : Prop} {call : Record → GroundingState → Bool × GroundingState}

theorem groundedAt_succ_iff (h : depth < maxGroundingDepth) :
    GroundedAt admission tables depth record ↔ Admitted admission tables record ∧
      ∀ parent, DerivesFrom tables record parent → GroundedAt admission tables (depth + 1) parent := by
  obtain ⟨levels, hlevels⟩ : ∃ levels, maxGroundingDepth - depth = levels + 1 :=
    ⟨maxGroundingDepth - depth - 1, by omega⟩
  have hnext : maxGroundingDepth - (depth + 1) = levels := by omega
  rw [GroundedAt, hlevels, Within]
  simp only [GroundedAt, hnext]

/-- The kept verdicts are right, unless no steps are left. -/
def Sound (admission : Admission) (tables : Tables) (state : GroundingState) : Prop :=
  ∀ identity depth verdict record, state.results.lookup ⟨identity, depth⟩ = some verdict →
    tables.record identity = some record →
    (verdict = true → GroundedAt admission tables depth record) ∧
      (verdict = false → state.remaining = 0 ∨ ¬GroundedAt admission tables depth record)

/-- A walk answers whether a property holds, or wrongly rejects when no steps are left. -/
structure Answers (admission : Admission) (tables : Tables) (state : GroundingState) (property : Prop)
    (result : Bool × GroundingState) : Prop where
  sound : Sound admission tables result.2
  spent : result.2.remaining ≤ state.remaining
  accepted : result.1 = true → property
  rejected : result.1 = false → result.2.remaining = 0 ∨ ¬property

theorem Sound.mono {next : GroundingState} (h : Sound admission tables state)
    (hresults : next.results = state.results)
    (hremaining : next.remaining ≤ state.remaining) : Sound admission tables next := by
  intro identity depth verdict record hlookup hrecord
  obtain ⟨haccepted, hrejected⟩ := h identity depth verdict record (hresults ▸ hlookup) hrecord
  exact ⟨haccepted, fun hverdict ↦ (hrejected hverdict).imp_left fun hzero ↦ by omega⟩

theorem Answers.reject (h : Sound admission tables state) (hnot : state.remaining = 0 ∨ ¬property) :
    Answers admission tables state property (false, state) :=
  ⟨h, le_rfl, fun htrue ↦ absurd htrue (by simp), fun _ ↦ hnot⟩

theorem Answers.congr {other : Prop} {result : Bool × GroundingState}
    (h : Answers admission tables state property result) (hiff : property ↔ other) :
    Answers admission tables state other result :=
  ⟨h.sound, h.spent, fun htrue ↦ hiff.mp (h.accepted htrue), fun hfalse ↦ (h.rejected hfalse).imp_right (mt hiff.mpr)⟩

/-- A source that lets a record pass at a depth. -/
def SourceOk (admission : Admission) (tables : Tables) (record : Record) (depth : ℕ) (source : String) : Prop :=
  ∃ parent, tables.record source = some parent ∧ sourceVersion record source parent = true ∧
    visible admission.moment parent admission.scope [.active] admission.stamp = true ∧
    GroundedAt admission tables depth parent

theorem groundedSources_spec
    (hcall : ∀ parent, DerivesFrom tables record parent → ∀ state, Sound admission tables state →
      Answers admission tables state (GroundedAt admission tables depth parent) (call parent state))
    {sources : List String} (hsources : ∀ source ∈ sources, source ∈ record.related .derives)
    (h : Sound admission tables state) :
    Answers admission tables state (∀ source ∈ sources, SourceOk admission tables record depth source)
      (groundedSources admission tables record call sources state) := by
  induction sources generalizing state with
  | nil =>
    exact ⟨h, le_rfl, fun _ source hsource ↦ absurd hsource List.not_mem_nil, fun hfalse ↦
      absurd hfalse (by simp [groundedSources])⟩
  | cons source sources ih =>
    obtain ⟨hfirst, hrest⟩ := List.forall_mem_cons.mp hsources
    rw [groundedSources]
    by_cases hzero : state.remaining = 0
    · rw [if_pos hzero]
      exact .reject h (.inl hzero)
    rw [if_neg hzero]
    cases hparent : tables.record source with
    | none =>
      refine .reject h (.inr fun hall ↦ ?_)
      obtain ⟨parent, hfound, -⟩ := hall source List.mem_cons_self
      rw [hparent] at hfound
      cases hfound
    | some parent =>
      dsimp only
      have hfound : SourceOk admission tables record depth source ↔ sourceVersion record source parent = true ∧
          visible admission.moment parent admission.scope [.active] admission.stamp = true ∧
          GroundedAt admission tables depth parent := by
        simp [SourceOk, hparent]
      by_cases hbad : sourceVersion record source parent = false ∨
          visible admission.moment parent admission.scope [.active] admission.stamp = false
      · rw [if_pos hbad]
        refine .reject h (.inr fun hall ↦ ?_)
        obtain ⟨hversion, hvisible, -⟩ := hfound.mp (hall source List.mem_cons_self)
        rw [hversion, hvisible] at hbad
        simp at hbad
      rw [if_neg hbad]
      rw [not_or, Bool.not_eq_false, Bool.not_eq_false] at hbad
      have hanswer := hcall parent ⟨source, hfirst, hparent⟩ state h
      cases hresult : call parent state with
      | mk verdict next =>
        rw [hresult] at hanswer
        cases verdict with
        | false =>
          refine ⟨hanswer.sound, hanswer.spent, fun htrue ↦ absurd htrue (by simp), fun _ ↦ ?_⟩
          exact (hanswer.rejected rfl).imp_right fun hnot hall ↦
            hnot (hfound.mp (hall source List.mem_cons_self)).2.2
        | true =>
          have hrestAnswer := ih hrest hanswer.sound
          refine ⟨hrestAnswer.sound, hrestAnswer.spent.trans hanswer.spent, fun htrue ↦ ?_, fun hfalse ↦ ?_⟩
          · exact List.forall_mem_cons.mpr ⟨hfound.mpr ⟨hbad.1, hbad.2, hanswer.accepted rfl⟩,
              hrestAnswer.accepted htrue⟩
          · exact (hrestAnswer.rejected hfalse).imp_right fun hnot hall ↦ hnot (List.forall_mem_cons.mp hall).2

theorem groundedAt_iff_sources (h : depth < maxGroundingDepth) :
    GroundedAt admission tables depth record ↔ admitsRecord admission tables record = true ∧
      ∀ source ∈ distinct (record.related .derives), SourceOk admission tables record (depth + 1) source := by
  rw [groundedAt_succ_iff h]
  simp only [mem_distinct]
  constructor
  · rintro ⟨hadmitted, hparents⟩
    refine ⟨hadmitted.own, fun source hsource ↦ ?_⟩
    obtain ⟨parent, hparent, hversion, hvisible⟩ := hadmitted.sources source hsource
    exact ⟨parent, hparent, hversion, hvisible, hparents parent ⟨source, hsource, hparent⟩⟩
  · rintro ⟨hown, hsources⟩
    refine ⟨⟨hown, fun source hsource ↦ ?_⟩, fun parent ⟨source, hsource, hparent⟩ ↦ ?_⟩
    · obtain ⟨parent, hparent, hversion, hvisible, -⟩ := hsources source hsource
      exact ⟨parent, hparent, hversion, hvisible⟩
    · obtain ⟨found, hfound, -, -, hgrounded⟩ := hsources source hsource
      exact Option.some.inj (hfound.symm.trans hparent) ▸ hgrounded

theorem groundedRecord_spec (hdepth : depth < maxGroundingDepth)
    (hcall : ∀ parent, DerivesFrom tables record parent → ∀ state, Sound admission tables state →
      Answers admission tables state (GroundedAt admission tables (depth + 1) parent) (call parent state))
    (h : Sound admission tables state) :
    Answers admission tables state (GroundedAt admission tables depth record)
      (groundedRecord admission tables record call state) := by
  unfold groundedRecord
  by_cases hown : admitsRecord admission tables record = false
  · rw [if_pos hown]
    refine .reject h (.inr fun hgrounded ↦ ?_)
    rw [((groundedAt_iff_sources hdepth).mp hgrounded).1] at hown
    cases hown
  · rw [if_neg hown]
    have hsources : ∀ source ∈ distinct (record.related .derives), source ∈ record.related .derives :=
      fun source hsource ↦ mem_distinct.mp hsource
    refine (groundedSources_spec hcall hsources h).congr ?_
    rw [groundedAt_iff_sources hdepth, and_iff_right (Bool.not_eq_false _ ▸ hown)]

/-- The records of the ids that were passed lead to the record. -/
def Leads (tables : Tables) (seen : List String) (record : Record) : Prop :=
  ∀ identity ∈ seen, ∃ ancestor count, tables.record identity = some ancestor ∧
    Steps (DerivesFrom tables) (count + 1) ancestor record

theorem Leads.source (h : Leads tables seen record) (hrecord : tables.record record.id = some record)
    (hparent : DerivesFrom tables record parent) : Leads tables (record.id :: seen) parent := by
  intro identity hidentity
  rcases List.mem_cons.mp hidentity with rfl | hseen
  · exact ⟨record, 0, hrecord, .single hparent⟩
  · obtain ⟨ancestor, count, hancestor, hsteps⟩ := h identity hseen
    exact ⟨ancestor, count + 1, hancestor, hsteps.trans (.single hparent)⟩

theorem id_eq_of_record {identity : String} (h : tables.record identity = some record) : record.id = identity :=
  of_decide_eq_true (List.find?_some (p := fun row : Record ↦ decide (row.id = identity)) h)

theorem Sound.remember (h : Sound admission tables state) {verdict : Bool}
    (hrecord : tables.record record.id = some record)
    (haccepted : verdict = true → GroundedAt admission tables seen.length record)
    (hrejected : verdict = false → state.remaining = 0 ∨ ¬GroundedAt admission tables seen.length record) :
    Sound admission tables (state.remember record.id seen verdict) := by
  intro identity depth kept found hlookup hfound
  change (assign ⟨record.id, seen.length⟩ verdict state.results).lookup ⟨identity, depth⟩ = some kept at hlookup
  rw [lookup_assign] at hlookup
  split_ifs at hlookup with hkey
  · obtain ⟨rfl, rfl⟩ := Place.mk.inj hkey
    obtain rfl := Option.some.inj hlookup
    obtain rfl := Option.some.inj (hrecord.symm.trans hfound)
    exact ⟨haccepted, hrejected⟩
  · exact h identity depth kept found hlookup hfound

theorem groundedFrom_spec {fuel : ℕ} (hfuel : maxGroundingDepth < fuel + seen.length)
    (hrecord : tables.record record.id = some record) (hleads : Leads tables seen record)
    (h : Sound admission tables state) :
    Answers admission tables state (GroundedAt admission tables seen.length record)
      (groundedFrom admission tables fuel record seen state) := by
  induction fuel generalizing record seen state with
  | zero =>
    refine .reject h (.inr fun hgrounded ↦ ?_)
    have hlevels : maxGroundingDepth - seen.length = 0 := by omega
    rw [GroundedAt, hlevels] at hgrounded
    exact hgrounded
  | succ fuel ih =>
    rw [groundedFrom, GroundingState.enter]
    split_ifs with hstop
    · -- A cycle, the depth limit or the end of the steps.
      refine .reject h ?_
      obtain hseen | hdeep | hzero := hstop
      · obtain ⟨ancestor, count, hancestor, hsteps⟩ := hleads record.id hseen
        obtain rfl := Option.some.inj (hancestor.symm.trans hrecord)
        exact .inr (not_within_of_cycle hsteps)
      · refine .inr fun hgrounded ↦ ?_
        rw [GroundedAt, Nat.sub_eq_zero_of_le hdeep] at hgrounded
        exact hgrounded
      · exact .inl hzero
    · have hzero : state.remaining ≠ 0 := fun hzero ↦ hstop (.inr (.inr hzero))
      have hdepth : seen.length < maxGroundingDepth := not_le.mp fun hdeep ↦ hstop (.inr (.inl hdeep))
      have hentered : Sound admission tables { state with remaining := state.remaining - 1 } :=
        h.mono rfl (Nat.sub_le _ _)
      cases hcached : state.results.lookup ⟨record.id, seen.length⟩ with
      | some verdict =>
        obtain ⟨haccepted, hrejected⟩ := h record.id seen.length verdict record hcached hrecord
        exact ⟨hentered, Nat.sub_le _ _, haccepted, fun hfalse ↦ .inr ((hrejected hfalse).resolve_left hzero)⟩
      | none =>
        have hanswer := groundedRecord_spec hdepth (fun parent hparent next hnext ↦ by
          obtain ⟨source, -, hsource⟩ := id hparent
          have hparentRecord : tables.record parent.id = some parent := (id_eq_of_record hsource).symm ▸ hsource
          have hfuel' : maxGroundingDepth < fuel + (record.id :: seen).length := by
            rw [List.length_cons]
            omega
          exact ih hfuel' hparentRecord (hleads.source hrecord hparent) hnext) hentered
        exact ⟨hanswer.sound.remember hrecord hanswer.accepted hanswer.rejected,
          hanswer.spent.trans (Nat.sub_le _ _), hanswer.accepted, hanswer.rejected⟩

theorem grounded_answers (hrecord : tables.record record.id = some record) (h : Sound admission tables state) :
    Answers admission tables state (Grounded admission tables record) (grounded admission tables record state) := by
  have hfuel : maxGroundingDepth < maxGroundingDepth + 1 + ([] : List String).length := by simp
  exact (groundedFrom_spec hfuel hrecord (fun _ hmem ↦ absurd hmem List.not_mem_nil) h).congr groundedAt_zero_iff

theorem sound_groundedAll {candidates : List Record}
    (h : ∀ record ∈ candidates, tables.record record.id = some record) :
    Sound admission tables (groundedAll admission tables candidates) := by
  have hall : ∀ (candidates : List Record) (state : GroundingState),
      (∀ record ∈ candidates, tables.record record.id = some record) → Sound admission tables state →
      Sound admission tables (candidates.foldl (fun state record ↦ (grounded admission tables record state).2)
        state) := by
    intro candidates
    induction candidates with
    | nil => exact fun _ _ hstate ↦ hstate
    | cons candidate candidates ih =>
      intro state hcandidates hstate
      obtain ⟨hfirst, hrest⟩ := List.forall_mem_cons.mp hcandidates
      exact ih _ hrest (grounded_answers hfirst hstate).sound
  exact hall candidates _ h fun _ _ _ _ hlookup ↦ by cases hlookup

namespace Sample

def allowed : Admission where
  runtimeReadable _ := true
  delegated := false
  restricted := false
  permits _ := true
  authorized _ := true
  capable _ := true
  quarantined _ := false
  codeEvidenceCurrent _ := true
  moment _ := 0
  scope := []
  stamp := 0

def link (last index : ℕ) : Record where
  id := toString index
  kind := .fact
  version := 1
  payload := ⟨[], none, none, .null⟩
  status := .active
  relations := if index < last then [(.derives, [toString (index + 1)])] else []
  scope := []
  envelope := .null

def chain (last : ℕ) : Tables := { Tables.empty with records := (List.range (last + 1)).map (link last) }

variable {last : ℕ}

theorem record_chain {index : ℕ} {record : Record} :
    (chain last).record (toString index) = some record ↔ index ≤ last ∧ record = link last index := by
  have hunique : ((chain last).records.map Record.id).Nodup := by
    have hids : (chain last).records.map Record.id = (List.range (last + 1)).map toString := by
      rw [chain, List.map_map]
      rfl
    rw [hids]
    exact List.Nodup.map (fun _ _ h ↦ Nat.repr_inj.mp h) List.nodup_range
  rw [Tables.record, find_key_eq_some_iff hunique]
  constructor
  · rintro ⟨hmem, hid⟩
    obtain ⟨found, hfound, rfl⟩ := List.mem_map.mp hmem
    obtain rfl : found = index := Nat.repr_inj.mp hid
    exact ⟨Nat.lt_succ_iff.mp (List.mem_range.mp hfound), rfl⟩
  · rintro ⟨hle, rfl⟩
    exact ⟨List.mem_map_of_mem (List.mem_range.mpr (Nat.lt_succ_of_le hle)), rfl⟩

theorem mem_derives_link {index : ℕ} {source : String} (h : source ∈ (link last index).related .derives) :
    index < last ∧ source = toString (index + 1) := by
  unfold link Record.related at h
  dsimp only at h
  split_ifs at h with hlt
  · exact ⟨hlt, List.mem_singleton.mp h⟩
  · exact absurd h List.not_mem_nil

theorem steps_chain {index levels : ℕ} {other : Record}
    (h : Steps (DerivesFrom (chain last)) levels (link last index) other) :
    other = link last (index + levels) ∧ (index ≤ last → index + levels ≤ last) := by
  induction levels generalizing index with
  | zero =>
    cases h
    exact ⟨rfl, id⟩
  | succ levels ih =>
    cases h with
    | head edge rest =>
      obtain ⟨source, hsource, hrecord⟩ := edge
      obtain ⟨hlt, rfl⟩ := mem_derives_link hsource
      obtain ⟨hle, rfl⟩ := record_chain.mp hrecord
      obtain ⟨hother, hbound⟩ := ih rest
      have hindex : index + (levels + 1) = index + 1 + levels := by omega
      exact ⟨hindex ▸ hother, fun _ ↦ hindex ▸ hbound hle⟩

end Sample

/-- Grounded within 63 levels, and without a cycle, whatever stands further away. -/
structure NearlyGrounded (admission : Admission) (tables : Tables) (record : Record) : Prop where
  readable : ∀ levels ≤ 63, ∀ other, Steps (DerivesFrom tables) levels record other →
    admitsRecord admission tables other = true ∧
      visible admission.moment other admission.scope [.active] admission.stamp = true
  sources : ∀ levels < 63, ∀ other, Steps (DerivesFrom tables) levels record other →
    ∀ source ∈ other.related .derives, ∃ parent, tables.record source = some parent ∧
      sourceVersion other source parent = true
  acyclic : ∀ levels count other, Steps (DerivesFrom tables) levels record other →
    ¬Steps (DerivesFrom tables) (count + 1) other other

end UniMem.MemoryJournal
