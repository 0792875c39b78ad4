import UniMem.FrontierProtocol.Arguments
import UniMem.Library.Totals

/-!
# Where a robot believed the objects of a site to be

Robots append observations of objects to a signed journal. `where_is` answers for one object and `believed_at` for
all. `admit`, quarantines and labels are parameters.
-/

namespace UniMem.Spatial

open Library FrontierProtocol

/-- The tenant, the site and possibly the robot. -/
abbrev Context := List (String × String)

structure Delta where
  objectId : String
  timestamp : String
  /-- The class, the pose, the frame, the robot, the confidence and what is optional. -/
  fields : List (String × Json)

/-- A row of the journal, whose object and time were checked when it was written. -/
structure Row (calendar : Calendar) where
  id : String
  factId : String
  context : Context
  delta : Delta
  /-- The empty text when nothing is corrected. -/
  correctionOf : String
  recordedAt : String
  sequence : ℕ
  observed : String
  named : text delta.objectId "object_id" 128 = .ok delta.objectId
  read : moment calendar (.str delta.timestamp) = .ok observed

/-- What `update` asks besides the journal. -/
structure Writer (calendar : Calendar) where
  /-- The gate of the household, the other checks, and the budget of the tenant. -/
  screen : List (Row calendar) → Context → Delta → Py Unit
  /-- The digest of the context, the delta and the correction. -/
  identity : Context → Delta → String → String
  /-- The fact of the last placement, or a new one. -/
  place : List (Row calendar) → Context → Delta → Py String
  now : String

variable {calendar : Calendar} {ρ : Type}

/-- Whether a correction refers to a row of the same object and owner. -/
def correctable (journal : List (Row calendar)) (context : Context) (delta : Delta) (correctionOf : String) : Bool :=
  (lastWith Row.id journal correctionOf).any fun original ↦
    original.context.isPerm context && original.delta.objectId = delta.objectId

def update (writer : Writer calendar) (journal : List (Row calendar)) (context : Context) (delta : Delta)
    (correctionOf : String) : Py (List (Row calendar)) :=
  match hnamed : text delta.objectId "object_id" 128, hread : moment calendar (.str delta.timestamp) with
  | .error error, _ => .error error
  | .ok _, .error error => .error error
  | .ok _, .ok observed => do
    writer.screen journal context delta
    Py.require (correctionOf = "" || correctable journal context delta correctionOf)
      (.permissionError "correction must refer to the same authenticated object and owner")
    if (lastWith Row.id journal (writer.identity context delta correctionOf)).isSome then return journal
    let factId ← writer.place journal context delta
    return journal ++ [⟨writer.identity context delta correctionOf, factId, context, delta, correctionOf, writer.now,
      journal.length, observed, by rw [hnamed, (text_eq_ok_iff.mp hnamed).2], hread⟩]

/-- The journals that calls of `update` write. -/
inductive Written : List (Row calendar) → Prop where
  | empty : Written []
  | update {journal next : List (Row calendar)} (hjournal : Written journal) (writer : Writer calendar)
      (context : Context) (delta : Delta) (correctionOf : String)
      (h : update writer journal context delta correctionOf = .ok next) : Written next

/-- The rows have different identities and correct rows of their own objects. -/
structure Sound (journal : List (Row calendar)) : Prop where
  distinct : (journal.map Row.id).Nodup
  corrects : ∀ row ∈ journal, row.correctionOf ≠ "" →
    ∃ original ∈ journal, original.id = row.correctionOf ∧ original.delta.objectId = row.delta.objectId

variable {journal next : List (Row calendar)} {context : Context} {delta : Delta} {correctionOf : String}

theorem update_cases {writer : Writer calendar} (h : update writer journal context delta correctionOf = .ok next) :
    next = journal ∨ ∃ row, next = journal ++ [row] ∧ row.id ∉ journal.map Row.id ∧ (row.correctionOf ≠ "" →
      ∃ original ∈ journal, original.id = row.correctionOf ∧ original.delta.objectId = row.delta.objectId) := by
  unfold update at h
  split at h
  · cases h
  · cases h
  · obtain ⟨_, -, h⟩ := Py.of_bind h
    obtain ⟨_, hcorrect, h⟩ := Py.of_bind h
    rw [Py.require_eq_ok_iff, Bool.or_eq_true, decide_eq_true_eq] at hcorrect
    split at h
    · exact .inl (Except.ok.inj h).symm
    · next hnew =>
      obtain ⟨factId, -, h⟩ := Py.of_bind h
      refine .inr ⟨_, (Except.ok.inj h).symm, ?_, ?_⟩
      · intro hmem
        obtain ⟨row, hrow, hid⟩ := List.mem_map.mp hmem
        refine hnew (Option.isSome_iff_ne_none.mpr fun hnone ↦ ?_)
        rw [lastWith, List.getLast?_eq_none_iff] at hnone
        exact List.ne_nil_of_mem (List.mem_filter.mpr ⟨hrow, decide_eq_true hid⟩) hnone
      · intro hne
        obtain ⟨original, horiginal, hsame⟩ := (Option.any_eq_true _ _).mp (hcorrect.resolve_left hne)
        obtain ⟨hmem, hid⟩ := key_of_lastWith horiginal
        rw [Bool.and_eq_true, decide_eq_true_eq] at hsame
        exact ⟨original, hmem, hid, hsame.2⟩

theorem Written.sound (h : Written journal) : Sound journal := by
  induction h with
  | empty => exact ⟨List.nodup_nil, fun row hrow ↦ absurd hrow List.not_mem_nil⟩
  | @update journal _ _ writer context delta correctionOf h ih =>
    obtain rfl | ⟨row, rfl, hid, hcorrects⟩ := update_cases h
    · exact ih
    · refine ⟨?_, ?_⟩
      · rw [List.map_append]
        exact ih.distinct.append (List.nodup_singleton _) (List.disjoint_singleton.mpr hid)
      · intro other hother hne
        have hfound : ∃ original ∈ journal, original.id = other.correctionOf ∧
            original.delta.objectId = other.delta.objectId := by
          obtain hother | hother := List.mem_append.mp hother
          · exact ih.corrects other hother hne
          · obtain rfl := List.mem_singleton.mp hother
            exact hcorrects hne
        exact hfound.imp fun original h ↦ ⟨List.mem_append_left _ h.1, h.2⟩

/-- What a query asks besides the journal. -/
structure Reader (calendar : Calendar) (ρ : Type) where
  now : String
  /-- The facts that `search_recipes.admit` shows. -/
  shown : List String → List String → Option String → Option String → List String
  lineageBlocked : String → Py Bool
  safeLabel : Row calendar → ρ

/-- `_context`. -/
def scopesOf (context : Context) : Py (List String) := do
  Py.require ((context.map Prod.fst).all (· ∈ ["tenant", "site", "robot"]) &&
      ["tenant", "site"].all (· ∈ context.map Prod.fst))
    (.valueError "spatial context requires tenant and site, with optional robot")
  Py.collect (Py.always fun field : String × String ↦ (field.1 ++ ":" ++ ·) <$> text field.2 field.1 64)
    (sortBy Prod.fst context)

/-- `_visible`. -/
def visible (row : Row calendar) (context : Context) : Bool :=
  context.all fun field ↦ row.context.lookup field.1 = some field.2

/-- `fp.moment(value) if value else None`. -/
def optionalMoment (calendar : Calendar) (value : Option String) : Py (Option String) :=
  match value.filter (· ≠ "") with
  | none => .ok none
  | some value => some <$> moment calendar (.str value)

def candidates (journal : List (Row calendar)) (objectId : Option String) (context : Context) (known : String)
    (start : Option String) : List (Row calendar) :=
  journal.filter fun row ↦ visible row context && row.recordedAt ≤ known &&
    objectId.all (row.delta.objectId = ·) && start.all (· < row.recordedAt)

namespace Reader

variable (reader : Reader calendar ρ)

/-- A candidate whose fact is admitted and that no quarantine blocks. -/
def reading (admitted : List String) (row : Row calendar) : Py (Option (Row calendar × ρ)) :=
  if row.factId ∈ admitted then
    (fun blocked ↦ if blocked then none else some (row, reader.safeLabel row)) <$>
      Py.any reader.lineageBlocked [row.factId, row.id]
  else .ok none

def history (journal : List (Row calendar)) (objectId : Option String) (context : Context)
    (knownAt since asOf : Option String) : Py (List (Row calendar × ρ)) := do
  let scopes ← scopesOf context
  let _ ← Py.collect (Py.always (text · "object id" 128)) objectId.toList
  let known ← (·.getD reader.now) <$> optionalMoment calendar knownAt
  let start ← optionalMoment calendar since
  let rows := candidates journal objectId context known start
  Py.collect (reader.reading (reader.shown (sortBy id (rows.map Row.factId).dedup) scopes asOf knownAt)) rows

end Reader

/-- `{row["correction_of"] for row in rows if row.get("correction_of")}`. -/
def corrections (rows : List (Row calendar × ρ)) : List String :=
  (rows.map fun row ↦ row.1.correctionOf).filter (· ≠ "")

def position (row : Row calendar × ρ) : String ×ₗ ℕ := toLex (row.1.observed, row.1.sequence)

/-- The row at the later position, the earlier one of two at the same. -/
def later (best : Option (Row calendar × ρ)) (row : Row calendar × ρ) : Option (Row calendar × ρ) :=
  match best with
  | none => some row
  | some best => if position best < position row then some row else some best

/-- Rows that are not corrected and not later than a time. -/
def standing (corrected : List String) (time : String) (rows : List (Row calendar × ρ)) : List (Row calendar × ρ) :=
  rows.filter fun row ↦ row.1.id ∉ corrected ∧ row.1.observed ≤ time

def whereIs (reader : Reader calendar ρ) (journal : List (Row calendar)) (objectId : String) (context : Context)
    (when knownAt : Option String) : Py (Option (Row calendar × ρ)) := do
  let time ← (·.getD reader.now) <$> optionalMoment calendar when
  let rows ← reader.history journal (some objectId) context knownAt none (some time)
  return (standing (corrections rows) time rows).foldl later none

/-- One turn of the loop of `believed_at`. -/
def believe (corrected : List String) (time : String) (latest : List (String × (Row calendar × ρ)))
    (row : Row calendar × ρ) : List (String × (Row calendar × ρ)) :=
  if row.1.id ∈ corrected ∨ time < row.1.observed then latest
  else match latest.lookup row.1.delta.objectId with
    | none => assign row.1.delta.objectId row latest
    | some best => if position best < position row then assign row.1.delta.objectId row latest else latest

def believedAt (reader : Reader calendar ρ) (journal : List (Row calendar)) (robot time : String)
    (context : Context) : Py (List (Row calendar × ρ)) := do
  let robot ← text robot "robot" 64
  let time ← moment calendar (.str time)
  let rows ← reader.history journal none (assign "robot" robot context) (some time) none (some time)
  let latest := rows.foldl (believe (corrections rows) time) []
  return (sortBy id (latest.map Prod.fst)).filterMap (List.lookup · latest)

/-- All objects of a journal in the order of their ids. -/
def objects (journal : List (Row calendar)) : List String :=
  sortBy id (journal.map fun row ↦ row.delta.objectId).dedup

/-- Each fact is admitted on its own, and `known_at` is read as an instant. -/
structure Reader.Decides (reader : Reader calendar ρ) : Prop where
  independent : ∀ scopes asOf knownAt, ∃ admits : String → Prop, ∀ ids id,
    id ∈ reader.shown ids scopes asOf knownAt ↔ id ∈ ids ∧ admits id
  instants : ∀ value time, moment calendar (.str value) = .ok time → ∀ ids scopes asOf,
    reader.shown ids scopes asOf (some value) = reader.shown ids scopes asOf (some time)

variable {reader : Reader calendar ρ} {value time : String} {rows : List (Row calendar × ρ)}

theorem optionalMoment_of_moment (h : moment calendar (.str value) = .ok time) :
    optionalMoment calendar (some value) = .ok (some time) := by
  have hne : value ≠ "" := by
    rintro rfl
    obtain ⟨_, htext, -⟩ := Py.of_bind h
    simp [textArgument, text] at htext
  simp [optionalMoment, Option.filter, hne, h]

theorem candidates_some (object known : String) (start : Option String) :
    candidates journal (some object) context known start =
      (candidates journal none context known start).filter (·.delta.objectId = object) := by
  rw [candidates, candidates, List.filter_filter]
  refine List.filter_congr fun row _ ↦ ?_
  simp only [Option.all_some, Option.all_none, Bool.and_true]
  ac_rfl

theorem Reader.Decides.exists_read (h : reader.Decides) (scopes : List String) (asOf knownAt : Option String) :
    ∃ read : Row calendar → Py (Option (Row calendar × ρ)),
      (∀ row found, read row = .ok (some found) → found.1 = row) ∧ ∀ rows, Py.collect (reader.reading
        (reader.shown (sortBy id (rows.map Row.factId).dedup) scopes asOf knownAt)) rows = Py.collect read rows := by
  obtain ⟨admits, hadmits⟩ := h.independent scopes asOf knownAt
  refine ⟨fun row ↦ reader.reading (reader.shown [row.factId] scopes asOf knownAt) row, ?_, ?_⟩
  · intro row found h
    simp only [Reader.reading] at h
    split at h
    · obtain ⟨blocked, -, h⟩ := Py.map_eq_ok_iff.mp h
      cases blocked with
      | true => cases h
      | false => rw [← Option.some.inj h]
    · cases h
  · intro rows
    refine Py.collect_congr fun row hrow ↦ ?_
    have hadmitted : row.factId ∈ reader.shown (sortBy id (rows.map Row.factId).dedup) scopes asOf knownAt ↔
        row.factId ∈ reader.shown [row.factId] scopes asOf knownAt := by
      rw [hadmits, hadmits, mem_sortBy, List.mem_dedup, List.mem_singleton]
      simp [List.mem_map_of_mem hrow]
    simp only [Reader.reading, hadmitted]

theorem history_object (journal : List (Row calendar)) (context : Context) (hdecides : reader.Decides)
    (htime : moment calendar (.str value) = .ok time) (hagain : moment calendar (.str time) = .ok time) :
    ∃ read : Row calendar → Py (Option (Row calendar × ρ)),
      (∀ row found, read row = .ok (some found) → found.1 = row) ∧
      (∀ found, reader.history journal none context (some time) none (some time) = .ok found ↔
        (∃ scopes, scopesOf context = .ok scopes) ∧
          Py.collect read (candidates journal none context time none) = .ok found) ∧
      ∀ object found, text object "object id" 128 = .ok object →
        (reader.history journal (some object) context (some value) none (some time) = .ok found ↔
          (∃ scopes, scopesOf context = .ok scopes) ∧ Py.collect read
            ((candidates journal none context time none).filter (·.delta.objectId = object)) = .ok found) := by
  cases hscopes : scopesOf context with
  | error error =>
    refine ⟨fun _ ↦ .ok none, ?_, ?_, ?_⟩ <;> simp [Reader.history, hscopes]
  | ok scopes =>
    obtain ⟨read, hread, hcollect⟩ := hdecides.exists_read scopes (some time) (some time)
    refine ⟨read, hread, fun found ↦ ?_, fun object found hobject ↦ ?_⟩
    · simp only [Reader.history, hscopes, optionalMoment_of_moment hagain, ← hcollect]
      simp [Py.collect, optionalMoment]
    · simp only [Reader.history, hscopes, optionalMoment_of_moment htime, ← candidates_some, ← hcollect,
        hdecides.instants _ _ htime]
      simp [Py.collect, Py.always, hobject, optionalMoment]

theorem lookup_assign_later {latest : List (String × (Row calendar × ρ))} {row : Row calendar × ρ} :
    (match latest.lookup row.1.delta.objectId with
      | none => assign row.1.delta.objectId row latest
      | some best => if position best < position row then assign row.1.delta.objectId row latest
        else latest).lookup row.1.delta.objectId = later (latest.lookup row.1.delta.objectId) row := by
  cases hfound : latest.lookup row.1.delta.objectId with
  | none => rw [lookup_assign, if_pos rfl, later]
  | some best =>
    simp only [later]
    split_ifs
    · rw [lookup_assign, if_pos rfl]
    · exact hfound

theorem lookup_believe (corrected : List String) (time object : String) (rows : List (Row calendar × ρ)) :
    (rows.foldl (believe corrected time) []).lookup object =
      ((standing corrected time rows).filter (·.1.delta.objectId = object)).foldl later none := by
  induction rows using List.reverseRecOn with
  | nil => rfl
  | append_singleton rows row ih =>
    have happend : standing corrected time (rows ++ [row]) =
        standing corrected time rows ++ standing corrected time [row] := List.filter_append ..
    rw [List.foldl_append, List.foldl_cons, List.foldl_nil, happend, List.filter_append, List.foldl_append, ← ih]
    by_cases hskip : row.1.id ∈ corrected ∨ time < row.1.observed
    · have hnone : standing corrected time [row] = [] := by
        refine List.filter_eq_nil_iff.mpr fun other hother ↦ ?_
        rw [List.mem_singleton.mp hother, decide_eq_true_eq, not_and_or, not_not, not_le]
        exact hskip
      rw [believe, if_pos hskip, hnone]
      rfl
    · have hone : standing corrected time [row] = [row] := by
        refine List.filter_eq_self.mpr fun other hother ↦ ?_
        rw [List.mem_singleton.mp hother, decide_eq_true_eq]
        rw [not_or, not_lt] at hskip
        exact hskip
      rw [believe, if_neg hskip, hone]
      by_cases hobject : row.1.delta.objectId = object
      · subst hobject
        rw [lookup_assign_later, List.filter_cons_of_pos (by exact decide_eq_true rfl)]
        rfl
      · have hother : ∀ latest : List (String × (Row calendar × ρ)),
            (assign row.1.delta.objectId row latest).lookup object = latest.lookup object := by
          intro latest
          rw [lookup_assign, if_neg (Ne.symm hobject)]
        rw [List.filter_cons_of_neg (by simpa using hobject)]
        split
        · exact hother _
        · split_ifs
          · exact hother _
          · rfl

theorem standing_object (hsound : Sound journal) (hrows : ∀ row ∈ rows, row.1 ∈ journal) (time object : String) :
    standing (corrections (rows.filter (·.1.delta.objectId = object))) time
        (rows.filter (·.1.delta.objectId = object)) =
      (standing (corrections rows) time rows).filter (·.1.delta.objectId = object) := by
  rw [standing, standing, List.filter_filter, List.filter_filter]
  refine List.filter_congr fun row hrow ↦ ?_
  by_cases hobject : row.1.delta.objectId = object
  · have hcorrected : row.1.id ∈ corrections (rows.filter (·.1.delta.objectId = object)) ↔
        row.1.id ∈ corrections rows := by
      simp only [corrections, List.mem_filter, List.mem_map, decide_eq_true_eq]
      constructor
      · rintro ⟨⟨other, ⟨hother, -⟩, hcorrects⟩, hne⟩
        exact ⟨⟨other, hother, hcorrects⟩, hne⟩
      · rintro ⟨⟨other, hother, hcorrects⟩, hne⟩
        obtain ⟨original, horiginal, hid, hsame⟩ :=
          hsound.corrects other.1 (hrows other hother) (by rwa [hcorrects])
        obtain rfl := List.inj_on_of_nodup_map hsound.distinct horiginal (hrows row hrow) (hid.trans hcorrects)
        exact ⟨⟨other, ⟨hother, hsame.symm.trans hobject⟩, hcorrects⟩, hne⟩
    simp [hobject, hcorrected]
  · simp [hobject]

theorem filterMap_lookup {β : Type} {entries : List (String × β)} {names : List String}
    (hnodup : (entries.map Prod.fst).Nodup) (hkeys : ∀ key ∈ entries.map Prod.fst, key ∈ names) :
    (sortBy id (entries.map Prod.fst)).filterMap (List.lookup · entries) =
      (sortBy id names.dedup).filterMap (List.lookup · entries) := by
  have hsorted : ∀ texts : List String, (sortBy id texts).Pairwise (· ≤ ·) := fun texts ↦ by
    simpa using sorted_map_sortBy id texts
  have hperm : (sortBy id (entries.map Prod.fst)).Perm
      ((sortBy id names.dedup).filter (· ∈ entries.map Prod.fst)) := by
    refine (List.perm_ext_iff_of_nodup ((sortBy_perm id _).nodup_iff.mpr hnodup)
      (((sortBy_perm id _).nodup_iff.mpr (List.nodup_dedup names)).filter _)).mpr fun key ↦ ?_
    rw [mem_sortBy, List.mem_filter, mem_sortBy, List.mem_dedup, decide_eq_true_eq]
    exact ⟨fun h ↦ ⟨hkeys key h, h⟩, And.right⟩
  have hsame := hperm.eq_of_pairwise' (hsorted _) ((hsorted _).filter _)
  rw [hsame, List.filterMap_filter]
  refine List.filterMap_congr fun key _ ↦ ?_
  by_cases hkey : key ∈ entries.map Prod.fst
  · simp only [hkey, decide_true, if_true]
  · rw [if_neg (by simpa using hkey)]
    refine (List.lookup_eq_none_iff.mpr fun entry hentry ↦ ?_).symm
    exact bne_iff_ne.mpr fun heq ↦ hkey (heq ▸ List.mem_map_of_mem hentry)

theorem nodup_believed (corrected : List String) (time : String) (rows : List (Row calendar × ρ)) :
    ((rows.foldl (believe corrected time) []).map Prod.fst).Nodup := by
  induction rows using List.reverseRecOn with
  | nil => exact List.nodup_nil
  | append_singleton rows row ih =>
    rw [List.foldl_append, List.foldl_cons, List.foldl_nil, believe]
    split_ifs
    · exact ih
    · split
      · exact nodup_map_fst_assign ih
      · split_ifs
        · exact nodup_map_fst_assign ih
        · exact ih

theorem named_of_mem_objects {object : String} (h : object ∈ objects journal) :
    text object "object id" 128 = .ok object := by
  obtain ⟨row, -, rfl⟩ := List.mem_map.mp (List.mem_dedup.mp (mem_sortBy.mp h))
  exact text_eq_ok_iff.mpr (text_eq_ok_iff.mp row.named)

theorem whereIs_eq_ok_iff (htime : moment calendar (.str value) = .ok time) {object : String}
    {found : Option (Row calendar × ρ)} :
    whereIs reader journal object context (some value) (some value) = .ok found ↔
      ∃ rows, reader.history journal (some object) context (some value) none (some time) = .ok rows ∧
        (standing (corrections rows) time rows).foldl later none = found := by
  simp [whereIs, optionalMoment_of_moment htime, Py.bind_eq_ok_iff]

theorem believedAt_of_history (hdecides : reader.Decides) (hsound : Sound journal) {robot : String}
    (hrobot : text robot "robot" 64 = .ok robot) (htime : moment calendar (.str value) = .ok time)
    (hagain : moment calendar (.str time) = .ok time)
    (h : reader.history journal none (assign "robot" robot context) (some time) none (some time) = .ok rows) :
    ∃ found, Py.collect (Py.always fun object ↦ whereIs reader journal object (assign "robot" robot context)
        (some value) (some value)) (objects journal) = .ok found ∧
      believedAt reader journal robot value context = .ok found.reduceOption := by
  obtain ⟨read, hread, hall, hone⟩ := history_object journal (assign "robot" robot context) hdecides htime hagain
  obtain ⟨hscopes, hcollect⟩ := (hall rows).mp h
  have hrows : ∀ row ∈ rows, row.1 ∈ journal := by
    intro row hrow
    obtain ⟨other, hother, hfound⟩ := (Py.mem_collect_iff hcollect row).mp hrow
    rw [hread other row hfound]
    exact (List.mem_filter.mp hother).1
  have hwhere : ∀ object ∈ objects journal, whereIs reader journal object (assign "robot" robot context)
      (some value) (some value) = .ok ((rows.foldl (believe (corrections rows) time) []).lookup object) := by
    intro object hobject
    refine (whereIs_eq_ok_iff htime).mpr ⟨_, (hone object _ (named_of_mem_objects hobject)).mpr
      ⟨hscopes, Py.collect_filter _ hread hcollect⟩, ?_⟩
    rw [standing_object hsound hrows, lookup_believe]
  have hkeys : ∀ key ∈ (rows.foldl (believe (corrections rows) time) []).map Prod.fst,
      key ∈ journal.map fun row ↦ row.delta.objectId := by
    intro key
    contrapose!
    intro hkey
    refine notMem_of_lookup_eq_none ?_
    rw [lookup_believe, List.filter_eq_nil_iff.mpr]
    · rfl
    · intro row hrow hobject
      exact hkey (of_decide_eq_true hobject ▸ List.mem_map_of_mem (hrows row (List.mem_filter.mp hrow).1))
  refine ⟨_, Py.collect_always_eq_ok hwhere, ?_⟩
  rw [believedAt, hrobot, Py.bind_ok, htime, Py.bind_ok, h, Py.bind_ok, List.reduceOption, List.filterMap_map]
  exact congrArg Except.ok (filterMap_lookup (nodup_believed ..) hkeys)

namespace Sample

/-! A cup, and a correction of where it is. -/

def utc : Calendar := ⟨fun text ↦ if text = "t" then some (.aware 0) else none, fun _ ↦ "t"⟩

theorem roundTrip : utc.RoundTrip := by
  intro value instant h _ _
  simp only [utc] at h
  split_ifs at h
  obtain rfl := Datetime.aware.inj (Option.some.inj h)
  exact ⟨rfl, rfl, by decide⟩

def kitchen : Context := [("tenant", "acme"), ("site", "kitchen"), ("robot", "r7")]

def cup : Delta := ⟨"cup", "t", []⟩

def writer : Writer utc :=
  ⟨fun _ _ _ ↦ .ok (), fun _ delta other ↦ delta.objectId ++ other, fun _ _ _ ↦ .ok "f", "t"⟩

def first : Row utc := ⟨"cup", "f", kitchen, cup, "", "t", 0, "t", rfl, rfl⟩

def second : Row utc := ⟨"cupcup", "f", kitchen, cup, "cup", "t", 1, "t", rfl, rfl⟩

theorem written : Written [first, second] := by
  have hfirst : Written [first] := .update .empty writer kitchen cup "" rfl
  exact .update hfirst writer kitchen cup "cup" rfl

def recalls : Reader utc Unit := ⟨"t", fun ids _ _ _ ↦ ids, fun _ ↦ .ok false, fun _ ↦ ()⟩

theorem decides : recalls.Decides where
  independent _ _ _ := ⟨fun _ ↦ True, fun ids id ↦ by simp [recalls]⟩
  instants _ _ _ _ _ _ := rfl

end Sample

end UniMem.Spatial
