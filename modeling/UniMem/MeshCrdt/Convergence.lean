import UniMem.MeshCrdt.Merge

/-!
# Replicas converge

Replicas that have received the same operations agree on what `merge_views` reads, whatever order they came in, up
to the spelling of registers that are one dictionary key.
-/

namespace UniMem.MeshCrdt

open Library FrontierProtocol

/-- The intermediate values of `merge_views`. -/
structure Stages (runtime : Runtime) (operations : List Operation) (revoked : List String) where
  live : List Operation
  adds : List (String × Operation)
  removed : List (List Key)
  members : List Placed
  puts : List Put
  byId : List (String × Operation)
  table : List (Key × List Key)
  registers : List ((Key ×ₗ Key) × List Put)
  reports : List Report
  entities : List (Key × List Placed)
  live_eq : Py.collect (readLive revoked) operations = .ok live
  adds_eq : Py.collect readAdd live = .ok adds
  removed_eq : Py.collect readTargets live = .ok removed
  members_eq : Py.collect (readMember removed.flatten) ((index Prod.fst adds).map Prod.snd) =
    .ok members
  puts_eq : Py.collect readPut live = .ok puts
  byId_eq : Py.collect (Py.always identified) live = .ok byId
  table_eq : Py.collect (Py.always readParents) ((index Prod.fst byId).map Prod.snd) = .ok table
  registers_eq : sortedItems tupleComparable Put.key puts = .ok registers
  reports_eq : Py.collect
    (readRegister runtime fun id ↦ Worklist.descendants table (.text id)) registers = .ok reports
  entities_eq : sortedItems Key.comparable Placed.key members = .ok entities

variable {runtime : Runtime} {operations : List Operation} {revoked : List String}

/-- The view that the stages end with. -/
def Stages.view (stages : Stages runtime operations revoked) : View :=
  ⟨stages.entities.map entityOf, registersOf stages.reports, contradictionsOf stages.reports, stages.live.length⟩

theorem mergeViews_eq_ok_iff {view : View} :
    mergeViews runtime operations revoked = .ok view ↔
      ∃ stages : Stages runtime operations revoked, stages.view = view := by
  unfold mergeViews
  simp only [Py.bind_eq_ok_iff, Py.pure_eq_ok, Except.ok.injEq]
  constructor
  · rintro ⟨live, hlive, adds, hadds, removed, hremoved, members, hmembers, puts, hputs, byId, hbyId,
      table, htable, registers, hregisters, reports, hreports, entities, hentities, hview⟩
    exact ⟨⟨live, adds, removed, members, puts, byId, table, registers, reports, entities, hlive,
      hadds, hremoved, hmembers, hputs, hbyId, htable, hregisters, hreports, hentities⟩, hview⟩
  · rintro ⟨s, hview⟩
    exact ⟨_, s.live_eq, _, s.adds_eq, _, s.removed_eq, _, s.members_eq, _, s.puts_eq, _, s.byId_eq,
      _, s.table_eq, _, s.registers_eq, _, s.reports_eq, _, s.entities_eq, hview⟩

variable {value : Option Json} {name : String} {op : Operation} {entry : String × Operation} {put : Put}
  {placed : Placed} {candidate : Candidate} {puts others : List Put}

theorem textItem_eq_ok_iff {content : String} :
    textItem value name = .ok content ↔ value = some (.str content) := by
  unfold textItem
  cases value with
  | none => simp
  | some value => cases value <;> simp

theorem item_eq_ok_iff {found : Json} :
    item value name = .ok found ↔ value = some found := by
  cases value <;> simp [item]

theorem identified_eq_ok_iff :
    identified op = .ok entry ↔ op.id = some (.str entry.1) ∧ entry.2 = op := by
  unfold identified
  simp only [Py.bind_eq_ok_iff, textItem_eq_ok_iff, Py.pure_eq_ok, Except.ok.injEq]
  constructor
  · rintro ⟨content, hid, rfl⟩
    exact ⟨hid, rfl⟩
  · rintro ⟨hid, hop⟩
    exact ⟨entry.1, hid, by rw [← hop]⟩

theorem readLive_eq_some {found : Operation} (h : readLive revoked op = .ok (some found)) :
    found = op ∧ ∃ robot, op.robotId = some (.str robot) ∧ robot ∉ revoked := by
  unfold readLive at h
  obtain ⟨robot, hrobot, hfound⟩ := Py.of_bind h
  rw [Py.pure_eq_ok, Except.ok.injEq] at hfound
  split_ifs at hfound with hrevoked
  · exact ⟨(Option.some.inj hfound).symm, robot, textItem_eq_ok_iff.mp hrobot, hrevoked⟩

theorem readAdd_eq_some (h : readAdd op = .ok (some entry)) : op.id = some (.str entry.1) ∧ entry.2 = op := by
  unfold readAdd at h
  obtain ⟨isAdd, -, hentry⟩ := Py.of_bind h
  cases isAdd with
  | false => cases hentry
  | true =>
    rw [if_pos rfl] at hentry
    exact identified_eq_ok_iff.mp (Py.always_eq_ok_iff.mp hentry)

theorem readPut_eq_some (h : readPut op = .ok (some put)) :
    op.id = some (.str put.id) ∧ put.op = op ∧ hashKey put.entity = .ok (ofLex put.key).1 ∧
      hashKey put.field = .ok (ofLex put.key).2 := by
  unfold readPut at h
  obtain ⟨isPut, -, hput⟩ := Py.of_bind h
  cases isPut with
  | false => cases hput
  | true =>
    simp only [if_true, Py.bind_eq_ok_iff, textItem_eq_ok_iff, item_eq_ok_iff] at hput
    obtain ⟨entity, -, field, -, entityKey, hentity, fieldKey, hfield, id, hid, hput⟩ := hput
    cases hput
    exact ⟨hid, rfl, hentity, hfield⟩

theorem readMember_eq_some {removed : List Key} (h : readMember removed entry = .ok (some placed)) :
    entry.1 = placed.member.tag ∧ hashKey placed.entity = .ok placed.key := by
  obtain ⟨tag, op⟩ := entry
  simp only [readMember] at h
  split_ifs at h
  · simp only [Py.bind_eq_ok_iff] at h
    obtain ⟨entity, -, key, hkey, robot, -, counter, -, hplaced⟩ := h
    cases hplaced
    exact ⟨rfl, hkey⟩
  · cases h

theorem readMember_congr {first second : List Key} (h : ∀ key, key ∈ first ↔ key ∈ second) :
    readMember first = readMember second := by
  funext entry
  unfold readMember
  simp only [h]

theorem readCandidate_eq_ok_iff :
    readCandidate runtime put = .ok candidate ↔ candidate.id = put.id ∧ put.op.value = some candidate.value ∧
      put.op.robotId = some (.str candidate.robotId) ∧ digest runtime candidate.value = .ok candidate.digest := by
  unfold readCandidate
  simp only [Py.bind_eq_ok_iff, item_eq_ok_iff, textItem_eq_ok_iff, Py.pure_eq_ok, Except.ok.injEq]
  constructor
  · rintro ⟨value, hvalue, valueDigest, hdigest, robot, hrobot, rfl⟩
    exact ⟨rfl, hvalue, hrobot, hdigest⟩
  · rintro ⟨hid, hvalue, hrobot, hdigest⟩
    refine ⟨_, hvalue, _, hdigest, _, hrobot, ?_⟩
    rw [← hid]

/-- Two values are one dictionary key. -/
def SameKey (first second : Json) : Prop := ∃ key, hashKey first = .ok key ∧ hashKey second = .ok key

/-- Equal values of one robot. -/
def SameClaim (first second : String × Json) : Prop :=
  first.1 = second.1 ∧ first.2.Same second.2

/-- `==` on two contradictions. -/
structure Contradiction.Equal (first second : Contradiction) : Prop where
  entity : SameKey first.entity second.entity
  field : SameKey first.field second.field
  values : List.Forall₂ SameClaim first.values second.values

/-- Equal reports. -/
inductive Report.Equal : Report → Report → Prop
  | value {label : String} {first second : Json} (h : first.Same second) :
      Report.Equal (.value label first) (.value label second)
  | contradiction {first second : Contradiction} (h : first.Equal second) :
      Report.Equal (.contradiction first) (.contradiction second)

/-- `==` on two views. -/
structure View.Equal (first second : View) : Prop where
  entities : List.Forall₂ (fun a b ↦ SameKey a.1 b.1 ∧ a.2 = b.2) first.entities second.entities
  registers : List.Forall₂ SameClaim first.registers second.registers
  contradictions :
    List.Forall₂ Contradiction.Equal first.contradictions second.contradictions
  activeOperations : first.activeOperations = second.activeOperations

theorem map_fst_of_sameClaim {first second : List (String × Json)}
    (h : List.Forall₂ SameClaim first second) : first.map Prod.fst = second.map Prod.fst := by
  induction h with
  | nil => rfl
  | cons hclaim _ ih => rw [List.map_cons, List.map_cons, hclaim.1, ih]

theorem setField_sameClaim {first second : List (String × Json)}
    (h : List.Forall₂ SameClaim first second) (label : String) {value other : Json} (hvalue : value.Same other) :
    List.Forall₂ SameClaim (Json.setField first label value) (Json.setField second label other) := by
  unfold Json.setField
  rw [map_fst_of_sameClaim h]
  split_ifs
  · rw [List.forall₂_map_left_iff, List.forall₂_map_right_iff]
    apply h.imp
    intro a b hab
    rw [hab.1]
    split_ifs
    · exact ⟨rfl, hvalue⟩
    · exact hab
  · exact List.rel_append h (List.Forall₂.cons ⟨rfl, hvalue⟩ List.Forall₂.nil)

theorem foldl_setRegister_sameClaim {first second : List Report}
    (h : List.Forall₂ Report.Equal first second) {registers others : List (String × Json)}
    (hregisters : List.Forall₂ SameClaim registers others) :
    List.Forall₂ SameClaim (first.foldl setRegister registers) (second.foldl setRegister others) := by
  induction h generalizing registers others with
  | nil => exact hregisters
  | cons hreport _ ih =>
    rw [List.foldl_cons, List.foldl_cons]
    apply ih
    cases hreport with
    | value hvalue => exact setField_sameClaim hregisters _ hvalue
    | contradiction _ => exact hregisters

theorem contradictionsOf_equal {first second : List Report} (h : List.Forall₂ Report.Equal first second) :
    List.Forall₂ Contradiction.Equal (contradictionsOf first) (contradictionsOf second) := by
  induction h with
  | nil => exact List.Forall₂.nil
  | cons hreport _ ih =>
    cases hreport with
    | value _ => exact ih
    | contradiction hequal => exact List.Forall₂.cons hequal ih

/-- Digests tell the values of a set apart. -/
def Distinguishes (runtime : Runtime) (values : Set Json) : Prop :=
  ∀ first ∈ values, ∀ second ∈ values, ∀ text, digest runtime first = .ok text →
    digest runtime second = .ok text → first.Same second

/-- Candidates with one digest have equal values. -/
def Agreeing (first second : List Candidate) : Prop :=
  ∀ a ∈ first, ∀ b ∈ second, a.digest = b.digest → a.value.Same b.value

section Register

variable {first second : List Candidate}

theorem distinct_perm (h : first.Perm second) : distinct first = distinct second :=
  (h.map Candidate.digest).dedup.length_eq

theorem digest_eq_of_distinct_le_one (h : distinct first ≤ 1) {a b : Candidate} (ha : a ∈ first)
    (hb : b ∈ first) : a.digest = b.digest := by
  have hcard : (first.map Candidate.digest).toFinset.card ≤ 1 := by
    rw [List.card_toFinset]
    exact h
  have hmem : ∀ c ∈ first, c.digest ∈ (first.map Candidate.digest).toFinset := by
    intro c hc
    exact List.mem_toFinset.mpr (List.mem_map.mpr ⟨c, hc, rfl⟩)
  exact Finset.card_le_one.mp hcard _ (hmem a ha) _ (hmem b hb)

theorem distinct_mono (h : ∀ candidate ∈ first, candidate ∈ second) :
    distinct first ≤ distinct second := by
  rw [distinct, distinct, ← List.card_toFinset, ← List.card_toFinset]
  apply Finset.card_le_card
  intro text htext
  rw [List.mem_toFinset, List.mem_map] at htext ⊢
  obtain ⟨candidate, hcandidate, rfl⟩ := htext
  exact ⟨candidate, h candidate hcandidate, rfl⟩

theorem distinct_pos (h : first ≠ []) : 0 < distinct first := by
  rw [distinct, ← List.card_toFinset, Finset.card_pos]
  obtain ⟨candidate, hcandidate⟩ := List.exists_mem_of_ne_nil _ h
  exact ⟨candidate.digest, List.mem_toFinset.mpr (List.mem_map.mpr ⟨candidate, hcandidate, rfl⟩)⟩

theorem head_value_same (h : first.Perm second) (hagree : Agreeing first second) (hdistinct : distinct first ≤ 1) :
    ((first.head?.map Candidate.value).getD .null).Same ((second.head?.map Candidate.value).getD .null) := by
  cases first with
  | nil =>
    rw [h.nil_eq]
    exact Json.Same.refl _
  | cons a first =>
    cases second with
    | nil => exact absurd h.symm (List.not_perm_nil_cons a first)
    | cons b second =>
      have hb : b ∈ a :: first := h.mem_iff.mpr List.mem_cons_self
      exact hagree a List.mem_cons_self b List.mem_cons_self
        (digest_eq_of_distinct_le_one hdistinct List.mem_cons_self hb)

variable (ancestors : String → List Key)

theorem superseded_eq (hids : (first.map Candidate.id).Nodup) {entry : Candidate × ℕ}
    (hentry : entry ∈ first.zipIdx) :
    superseded ancestors first entry =
      first.any fun other ↦ other.id ≠ entry.1.id && Key.text entry.1.id ∈ ancestors other.id := by
  have hplace : first[entry.2]? = some entry.1 := List.mem_zipIdx_iff_getElem?.mp hentry
  rw [Bool.eq_iff_iff, superseded, List.any_eq_true, List.any_eq_true]
  simp only [Bool.and_eq_true, decide_eq_true_eq]
  constructor
  · rintro ⟨other, hother, hne, hmem⟩
    have hplace' : first[other.2]? = some other.1 := List.mem_zipIdx_iff_getElem?.mp hother
    refine ⟨other.1, List.mem_of_getElem? hplace', ?_, hmem⟩
    intro heq
    have hlength : other.2 < (first.map Candidate.id).length := by
      rw [List.length_map]
      exact (List.getElem?_eq_some_iff.mp hplace').1
    refine hne ((List.getElem?_inj hlength hids).mp ?_)
    rw [List.getElem?_map, List.getElem?_map, hplace, hplace', Option.map_some, Option.map_some, heq]
  · rintro ⟨other, hother, hne, hmem⟩
    obtain ⟨place, hplace'⟩ := List.mem_iff_getElem?.mp hother
    refine ⟨(other, place), List.mem_zipIdx_iff_getElem?.mpr hplace', ?_, hmem⟩
    rintro (rfl : place = entry.2)
    rw [hplace, Option.some.injEq] at hplace'
    exact hne (congrArg Candidate.id hplace'.symm)

theorem superseded_eq_of_irrefl (hirrefl : ∀ candidate ∈ first, Key.text candidate.id ∉ ancestors candidate.id)
    {entry : Candidate × ℕ} (hentry : entry ∈ first.zipIdx) :
    superseded ancestors first entry = first.any fun other ↦ Key.text entry.1.id ∈ ancestors other.id := by
  have hplace : first[entry.2]? = some entry.1 := List.mem_zipIdx_iff_getElem?.mp hentry
  rw [Bool.eq_iff_iff, superseded, List.any_eq_true, List.any_eq_true]
  simp only [Bool.and_eq_true, decide_eq_true_eq]
  constructor
  · rintro ⟨other, hother, -, hmem⟩
    exact ⟨other.1, List.mem_of_getElem? (List.mem_zipIdx_iff_getElem?.mp hother), hmem⟩
  · rintro ⟨other, hother, hmem⟩
    obtain ⟨place, hplace'⟩ := List.mem_iff_getElem?.mp hother
    refine ⟨(other, place), List.mem_zipIdx_iff_getElem?.mpr hplace', ?_, hmem⟩
    rintro (rfl : place = entry.2)
    rw [hplace, Option.some.injEq] at hplace'
    rw [← hplace'] at hmem
    exact hirrefl _ (List.mem_of_getElem? hplace) hmem

theorem map_fst_filter_zipIdx {keep : Candidate × ℕ → Bool} {test : Candidate → Bool}
    (h : ∀ entry ∈ first.zipIdx, keep entry = test entry.1) :
    (first.zipIdx.filter keep).map Prod.fst = first.filter test := by
  rw [List.filter_congr h]
  conv_rhs => rw [← List.zipIdx_map_fst 0 first, List.filter_map]
  rfl

theorem maximal_eq_of_irrefl (hirrefl : ∀ candidate ∈ first, Key.text candidate.id ∉ ancestors candidate.id) :
    maximal ancestors first = first.filter fun candidate ↦
      !first.any fun other ↦ Key.text candidate.id ∈ ancestors other.id :=
  map_fst_filter_zipIdx fun _ hentry ↦
    congrArg (! ·) (superseded_eq_of_irrefl ancestors hirrefl hentry)

theorem maximal_eq (hids : (first.map Candidate.id).Nodup) :
    maximal ancestors first = first.filter fun candidate ↦ !first.any fun other ↦
        other.id ≠ candidate.id && Key.text candidate.id ∈ ancestors other.id :=
  map_fst_filter_zipIdx fun _ hentry ↦ congrArg (! ·) (superseded_eq ancestors hids hentry)

theorem maximal_perm (hids : (first.map Candidate.id).Nodup) (h : first.Perm second) :
    (maximal ancestors first).Perm (maximal ancestors second) := by
  have hids' : (second.map Candidate.id).Nodup := (h.map Candidate.id).nodup_iff.mp hids
  rw [maximal_eq ancestors hids, maximal_eq ancestors hids']
  have hany : ∀ candidate : Candidate,
      (first.any fun other ↦ other.id ≠ candidate.id && Key.text candidate.id ∈ ancestors other.id) =
      second.any fun other ↦
        other.id ≠ candidate.id && Key.text candidate.id ∈ ancestors other.id := by
    intro candidate
    rw [Bool.eq_iff_iff, List.any_eq_true, List.any_eq_true]
    simp only [h.mem_iff]
  simp only [hany]
  exact h.filter _

variable {ancestors}

theorem mem_of_mem_maximal (h : candidate ∈ maximal ancestors first) :
    candidate ∈ first := by
  obtain ⟨entry, hentry, rfl⟩ := List.mem_map.mp h
  exact List.mem_of_getElem? (List.mem_zipIdx_iff_getElem?.mp (List.mem_filter.mp hentry).1)

theorem reportOf_equal {other : Put} (hentity : SameKey put.entity other.entity)
    (hfield : SameKey put.field other.field) (hlabel : put.label = other.label)
    (hids : (first.map Candidate.id).Nodup) (h : first.Perm second) (hagree : Agreeing first second) :
    (reportOf ancestors put first).Equal (reportOf ancestors other second) := by
  have hmaximal := maximal_perm ancestors hids h
  have hagree' : Agreeing (maximal ancestors first) (maximal ancestors second) :=
    fun a ha b hb ↦ hagree a (mem_of_mem_maximal ha) b (mem_of_mem_maximal hb)
  unfold reportOf
  rw [distinct_perm h, distinct_perm hmaximal, hlabel]
  split_ifs with hone hmax
  · exact .value (head_value_same h hagree (distinct_perm h ▸ hone))
  · exact .value (head_value_same hmaximal hagree' (distinct_perm hmaximal ▸ hmax.le))
  · refine .contradiction ⟨hentity, hfield, ?_⟩
    rw [List.forall₂_map_left_iff, List.forall₂_map_right_iff]
    apply forall₂_of_map_eq (map_sortBy_eq (hmaximal.map _))
    intro a ha b hb heq
    rw [EmbeddingLike.apply_eq_iff_eq, Prod.mk.injEq] at heq
    exact ⟨heq.1, hagree' a (mem_sortBy.mp ha) b (mem_sortBy.mp hb) heq.2⟩

end Register

/-- Ids that name one operation each. -/
def DistinctIds (operations : List Operation) : Prop := (operations.map Operation.id).Nodup

/-- The values that operations carry. -/
def carriedValues (operations : List Operation) : Set Json :=
  {value | ∃ op ∈ operations, op.value = some value}

/-- Live puts of one register spell its label alike. -/
def SpelledAlike (operations : List Operation) (revoked : List String) : Prop :=
  ∀ op ∈ operations, ∀ other ∈ operations, readLive revoked op = .ok (some op) →
    readLive revoked other = .ok (some other) → ∀ put found, readPut op = .ok (some put) →
      readPut other = .ok (some found) → put.key = found.key → put.label = found.label

namespace Stages

variable (stages : Stages runtime operations revoked)

theorem mem_live (h : op ∈ stages.live) :
    op ∈ operations ∧ readLive revoked op = .ok (some op) := by
  obtain ⟨source, hsource, hread⟩ := (Py.mem_collect_iff stages.live_eq op).mp h
  obtain rfl := (readLive_eq_some hread).1
  exact ⟨hsource, hread⟩

section

variable (hids : DistinctIds operations)
include hids

theorem live_nodup : DistinctIds stages.live :=
  Py.collect_nodup id hids (fun op _ found hread ↦ by
    rw [(readLive_eq_some hread).1]
    rfl) stages.live_eq

theorem adds_nodup : (stages.adds.map Prod.fst).Nodup :=
  Py.collect_nodup (fun tag ↦ some (.str tag)) (stages.live_nodup hids)
    (fun _ _ _ hread ↦ (readAdd_eq_some hread).1) stages.adds_eq

theorem byId_nodup : (stages.byId.map Prod.fst).Nodup :=
  Py.collect_nodup (fun tag ↦ some (.str tag)) (stages.live_nodup hids)
    (fun _ _ _ hread ↦ (identified_eq_ok_iff.mp (Py.always_eq_ok_iff.mp hread)).1) stages.byId_eq

theorem puts_nodup : (stages.puts.map Put.id).Nodup :=
  Py.collect_nodup (fun tag ↦ some (.str tag)) (stages.live_nodup hids)
    (fun _ _ _ hread ↦ (readPut_eq_some hread).1) stages.puts_eq

theorem table_nodup : (stages.table.map Prod.fst).Nodup := by
  have htable := stages.table_eq
  rw [index_of_nodup (stages.byId_nodup hids)] at htable
  refine Py.collect_nodup Key.name
    (stages.byId_nodup hids) ?_ htable
  intro entry _ found hread
  obtain ⟨parents, -, hfound⟩ := Py.of_bind (Py.always_eq_ok_iff.mp hread)
  obtain ⟨keys, -, hkeys⟩ := Py.of_bind hfound
  cases hkeys
  rfl

omit hids in
theorem mem_puts (h : put ∈ stages.puts) :
    ∃ op ∈ operations, readLive revoked op = .ok (some op) ∧ readPut op = .ok (some put) := by
  obtain ⟨op, hop, hread⟩ := (Py.mem_collect_iff stages.puts_eq put).mp h
  obtain ⟨hmem, hlive⟩ := stages.mem_live hop
  exact ⟨op, hmem, hlive, hread⟩

theorem members_tags_nodup :
    (stages.members.map fun placed ↦ placed.member.tag).Nodup := by
  have hmembers := stages.members_eq
  rw [index_of_nodup (stages.adds_nodup hids)] at hmembers
  exact Py.collect_nodup id (stages.adds_nodup hids)
    (fun _ _ _ hread ↦ (readMember_eq_some hread).1) hmembers

end

theorem mem_registers {key : Key ×ₗ Key} {group : List Put} (h : (key, group) ∈ stages.registers) :
    group = stages.puts.filter fun put ↦ put.key = key := by
  rw [← (sortedItems_eq_ok_iff.mp stages.registers_eq).2] at h
  exact ((mem_sortedGroups_iff Put.key stages.puts key group).mp h).2

theorem mem_puts_of_registers {key : Key ×ₗ Key} {group : List Put} (h : (key, group) ∈ stages.registers)
    (hput : put ∈ group) :
    put ∈ stages.puts ∧ put.key = key := by
  rw [stages.mem_registers h, List.mem_filter, decide_eq_true_eq] at hput
  exact hput

theorem mem_entities {key : Key} {group : List Placed} (h : (key, group) ∈ stages.entities) :
    key ∈ stages.members.map Placed.key ∧ group = stages.members.filter fun placed ↦ placed.key = key := by
  rw [← (sortedItems_eq_ok_iff.mp stages.entities_eq).2] at h
  exact (mem_sortedGroups_iff Placed.key stages.members key group).mp h

theorem hashKey_of_members (h : placed ∈ stages.members) :
    hashKey placed.entity = .ok placed.key := by
  obtain ⟨entry, -, hread⟩ := (Py.mem_collect_iff stages.members_eq placed).mp h
  exact (readMember_eq_some hread).2

end Stages

theorem candidates_agreeing (hvalues : Distinguishes runtime (carriedValues operations))
    (hputs : ∀ put ∈ puts, put.op ∈ operations) (hothers : ∀ put ∈ others, put.op ∈ operations)
    {first second : List Candidate} (hfirst : Py.collect (Py.always (readCandidate runtime)) puts = .ok first)
    (hsecond : Py.collect (Py.always (readCandidate runtime)) others = .ok second) :
    Agreeing first second := by
  intro a ha b hb heq
  obtain ⟨put, hput, hread⟩ := (Py.mem_collect_iff hfirst a).mp ha
  obtain ⟨other, hother, hread'⟩ := (Py.mem_collect_iff hsecond b).mp hb
  obtain ⟨-, hvalue, -, hdigest⟩ := readCandidate_eq_ok_iff.mp (Py.always_eq_ok_iff.mp hread)
  obtain ⟨-, hvalue', -, hdigest'⟩ := readCandidate_eq_ok_iff.mp (Py.always_eq_ok_iff.mp hread')
  rw [← heq] at hdigest'
  exact hvalues _ ⟨_, hputs put hput, hvalue⟩ _ ⟨_, hothers other hother, hvalue'⟩ _ hdigest
    hdigest'

theorem candidates_nodup (hids : (puts.map Put.id).Nodup) {candidates : List Candidate}
    (h : Py.collect (Py.always (readCandidate runtime)) puts = .ok candidates) :
    (candidates.map Candidate.id).Nodup :=
  Py.collect_nodup id hids (fun _ _ _ hread ↦
    (readCandidate_eq_ok_iff.mp (Py.always_eq_ok_iff.mp hread)).1.symm) h

theorem readRegister_equal {ancestors : String → List Key} {key : Key ×ₗ Key} (hperm : puts.Perm others)
    (hids : (puts.map Put.id).Nodup)
    (hkey : ∀ put ∈ puts, hashKey put.entity = .ok (ofLex key).1 ∧ hashKey put.field = .ok (ofLex key).2)
    (hlabel : ∀ put ∈ puts, ∀ other ∈ puts, put.label = other.label) (hop : ∀ put ∈ puts, put.op ∈ operations)
    (hvalues : Distinguishes runtime (carriedValues operations)) {found : Option Report}
    (h : readRegister runtime ancestors (key, puts) = .ok found) :
    ∃ other, readRegister runtime ancestors (key, others) = .ok other ∧ Option.Rel Report.Equal found other := by
  cases puts with
  | nil =>
    cases h
    rw [hperm.nil_eq.symm]
    exact ⟨none, rfl, .none⟩
  | cons put puts =>
    cases others with
    | nil => exact absurd hperm.symm (List.not_perm_nil_cons put puts)
    | cons other others =>
      simp only [readRegister, Py.bind_eq_ok_iff, Py.pure_eq_ok, Except.ok.injEq] at h ⊢
      obtain ⟨candidates, hcandidates, rfl⟩ := h
      obtain ⟨second, hsecond, hcandidatesPerm⟩ := Py.collect_perm hperm hcandidates
      have hother : other ∈ put :: puts := hperm.mem_iff.mpr List.mem_cons_self
      refine ⟨_, ⟨second, hsecond, rfl⟩, .some (reportOf_equal ?_ ?_ ?_ ?_ hcandidatesPerm ?_)⟩
      · exact ⟨_, (hkey put List.mem_cons_self).1, (hkey other hother).1⟩
      · exact ⟨_, (hkey put List.mem_cons_self).2, (hkey other hother).2⟩
      · exact hlabel put List.mem_cons_self other hother
      · exact candidates_nodup hids hcandidates
      · exact candidates_agreeing hvalues hop
          (fun found hfound ↦ hop found (hperm.mem_iff.mpr hfound)) hcandidates hsecond

theorem entityOf_equal {key : Key} {first second : List Placed} (hperm : first.Perm second)
    (hne : first ≠ []) (hkey : ∀ placed ∈ first, hashKey placed.entity = .ok key)
    (htags : (first.map fun placed ↦ placed.member.tag).Nodup) :
    SameKey (entityOf (key, first)).1 (entityOf (key, second)).1 ∧
      (entityOf (key, first)).2 = (entityOf (key, second)).2 := by
  constructor
  · cases first with
    | nil => exact absurd rfl hne
    | cons placed first =>
      cases second with
      | nil => exact absurd hperm.symm (List.not_perm_nil_cons placed first)
      | cons other second =>
        exact ⟨key, hkey placed List.mem_cons_self, hkey other (hperm.mem_iff.mpr List.mem_cons_self)⟩
  · apply sortBy_eq_of_perm (hperm.map Placed.member)
    intro a ha b hb htag
    have hnodup : ((second.map Placed.member).map Member.tag).Nodup := by
      rw [List.map_map]
      exact (hperm.map _).nodup_iff.mp htags
    exact List.inj_on_of_nodup_map hnodup ha hb htag

theorem descendants_perm {first second : List (Key × List Key)} (h : first.Perm second)
    (hnodup : (first.map Prod.fst).Nodup) (node : Key) :
    Worklist.descendants first node = Worklist.descendants second node := by
  have hsuccessors : ∀ node, Worklist.successors first node = Worklist.successors second node := by
    intro node
    rw [Worklist.successors, Worklist.successors, lookup_perm h hnodup]
  rw [Worklist.descendants, Worklist.descendants, hsuccessors, Worklist.reach_congr hsuccessors]

/-- The ancestors of an operation in a table of parents. -/
abbrev ancestorsIn (table : List (Key × List Key)) (id : String) : List Key :=
  Worklist.descendants table (.text id)

namespace Stages

variable (stages : Stages runtime operations revoked)

theorem reports_equal (hids : DistinctIds operations) (hvalues : Distinguishes runtime (carriedValues operations))
    (hspelled : SpelledAlike operations revoked) {registers : List ((Key ×ₗ Key) × List Put)}
    (hrel : List.Forall₂ (fun a b ↦ a.1 = b.1 ∧ a.2.Perm b.2) stages.registers registers) :
    ∃ reports, Py.collect (readRegister runtime (ancestorsIn stages.table)) registers = .ok reports ∧
      List.Forall₂ Report.Equal stages.reports reports := by
  refine Py.collect_forall₂ hrel ?_ stages.reports_eq
  rintro ⟨key, group⟩ hgroup ⟨key', others⟩ hothers ⟨rfl : key = key', hperm⟩ found hfound
  refine readRegister_equal hperm ?_ ?_ ?_ ?_ hvalues hfound
  · rw [stages.mem_registers hgroup]
    exact (stages.puts_nodup hids).sublist (List.filter_sublist.map Put.id)
  · intro put hput
    obtain ⟨hmem, rfl⟩ := stages.mem_puts_of_registers hgroup hput
    obtain ⟨op, -, -, hread⟩ := stages.mem_puts hmem
    exact (readPut_eq_some hread).2.2
  · intro put hput other hother
    obtain ⟨hmem, hkey⟩ := stages.mem_puts_of_registers hgroup hput
    obtain ⟨hmem', hkey'⟩ := stages.mem_puts_of_registers hgroup hother
    obtain ⟨op, hop, hlive, hread⟩ := stages.mem_puts hmem
    obtain ⟨op', hop', hlive', hread'⟩ := stages.mem_puts hmem'
    exact hspelled op hop op' hop' hlive hlive' put other hread hread' (hkey.trans hkey'.symm)
  · intro put hput
    obtain ⟨op, hop, -, hread⟩ :=
      stages.mem_puts (stages.mem_puts_of_registers hgroup hput).1
    rw [(readPut_eq_some hread).2.1]
    exact hop

theorem entities_equal (hids : DistinctIds operations) {entities : List (Key × List Placed)}
    (hrel : List.Forall₂ (fun a b ↦ a.1 = b.1 ∧ a.2.Perm b.2) stages.entities entities) :
    List.Forall₂ (fun a b ↦ SameKey a.1 b.1 ∧ a.2 = b.2) (stages.entities.map entityOf) (entities.map entityOf) := by
  rw [List.forall₂_map_left_iff, List.forall₂_map_right_iff]
  apply forall₂_imp_of_mem hrel
  rintro ⟨key, group⟩ hgroup ⟨key', others⟩ - ⟨rfl : key = key', hperm⟩
  obtain ⟨hkey, hmembers⟩ := stages.mem_entities hgroup
  refine entityOf_equal hperm ?_ ?_ ?_
  · obtain ⟨placed, hplaced, rfl⟩ := List.mem_map.mp hkey
    rw [hmembers]
    exact List.ne_nil_of_mem (List.mem_filter.mpr ⟨hplaced, decide_eq_true rfl⟩)
  · intro placed hplaced
    rw [hmembers, List.mem_filter, decide_eq_true_eq] at hplaced
    rw [← hplaced.2]
    exact stages.hashKey_of_members hplaced.1
  · rw [hmembers]
    exact (stages.members_tags_nodup hids).sublist (List.filter_sublist.map _)

theorem perm {others : List Operation} (h : operations.Perm others) (hids : DistinctIds operations)
    (hvalues : Distinguishes runtime (carriedValues operations)) (hspelled : SpelledAlike operations revoked) :
    ∃ second : Stages runtime others revoked, stages.view.Equal second.view := by
  obtain ⟨live, hlive, hlivePerm⟩ := Py.collect_perm h stages.live_eq
  obtain ⟨adds, hadds, haddsPerm⟩ := Py.collect_perm hlivePerm stages.adds_eq
  obtain ⟨removed, hremoved, hremovedPerm⟩ := Py.collect_perm hlivePerm stages.removed_eq
  obtain ⟨puts, hputs, hputsPerm⟩ := Py.collect_perm hlivePerm stages.puts_eq
  obtain ⟨byId, hbyId, hbyIdPerm⟩ := Py.collect_perm hlivePerm stages.byId_eq
  -- Dictionaries by id hold every operation once.
  have haddsNodup : (adds.map Prod.fst).Nodup :=
    (haddsPerm.map Prod.fst).nodup_iff.mp (stages.adds_nodup hids)
  have hbyIdNodup : (byId.map Prod.fst).Nodup :=
    (hbyIdPerm.map Prod.fst).nodup_iff.mp (stages.byId_nodup hids)
  have hmembersEq := stages.members_eq
  have htableEq := stages.table_eq
  rw [index_of_nodup (stages.adds_nodup hids)] at hmembersEq
  rw [index_of_nodup (stages.byId_nodup hids)] at htableEq
  obtain ⟨members, hmembers, hmembersPerm⟩ := Py.collect_perm haddsPerm hmembersEq
  obtain ⟨table, htable, htablePerm⟩ := Py.collect_perm hbyIdPerm htableEq
  rw [readMember_congr fun key ↦ hremovedPerm.flatten.mem_iff,
    ← index_of_nodup haddsNodup] at hmembers
  rw [← index_of_nodup hbyIdNodup] at htable
  -- Registers and entities are grouped and sorted alike.
  obtain ⟨registers, hregisters, hregistersRel⟩ := sortedItems_perm hputsPerm stages.registers_eq
  obtain ⟨entities, hentities, hentitiesRel⟩ := sortedItems_perm hmembersPerm stages.entities_eq
  obtain ⟨reports, hreports, hreportsRel⟩ :=
    stages.reports_equal hids hvalues hspelled hregistersRel
  have hancestors : ancestorsIn stages.table = ancestorsIn table := by
    funext id
    exact descendants_perm htablePerm (stages.table_nodup hids) _
  rw [hancestors] at hreports
  exact ⟨⟨live, adds, removed, members, puts, byId, table, registers, reports, entities, hlive,
    hadds, hremoved, hmembers, hputs, hbyId, htable, hregisters, hreports, hentities⟩,
    stages.entities_equal hids hentitiesRel, foldl_setRegister_sameClaim hreportsRel List.Forall₂.nil,
    contradictionsOf_equal hreportsRel, hlivePerm.length_eq⟩

end Stages

/-- Two calls that both return, with equal views, or both raise. -/
def Agree : Py View → Py View → Prop
  | .ok first, .ok second => first.Equal second
  | .error _, .error _ => True
  | _, _ => False

end UniMem.MeshCrdt
