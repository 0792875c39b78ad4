import UniMem.TeamIsolation.Transactions

/-!
# Isolation of team writes

The canonical facts do not change between the first check of a write and its commit under the lock, so what the
checks say holds of them at the commit.
-/

namespace UniMem.TeamIsolation

open Library FrontierProtocol

/-- The digest of `transaction_time` has no collisions. -/
def CollisionFree (runtime : Runtime) : Prop :=
  ∀ first second, runtime.sha256 first = runtime.sha256 second → first = second

/-- The writes that were committed, in order. -/
def commits (history : List Event) : List Commit :=
  history.filterMap fun event ↦
    match event with
    | .granted _ => none
    | .committed commit => some commit

/-- Whether a write changed or removed a fact that was there. -/
def Commit.modifies (commit : Commit) (identity : String) : Bool :=
  match commit.old.lookup identity, commit.new.lookup identity with
  | some before, some after => canonicalBytes before ≠ canonicalBytes after
  | some _, none => true
  | none, _ => false

/-- Whether a write in snapshot mode declared a version of a fact. -/
def Commit.reads (commit : Commit) (identity version : String) : Bool :=
  match commit.kind with
  | .checked check => check.settings.level = .snapshot && check.declared.lookup identity = some version
  | _ => false

/-- The version of a fact of a mapping, when it has one. -/
def versionIn (runtime : Runtime) (facts : Facts) (identity : String) : Option String :=
  (facts.lookup identity).bind fun fact ↦ (transactionTime runtime fact).toOption

/-- What `fetch` returns. -/
structure Fetched where
  level : Level
  facts : List Json
  readSet : List (String × String)

/-- `fetch`. -/
def fetch (team : Team) (world : World) (space : String) (context identities : List String) :
    Py Fetched := do
  let _ ← count identities.length 0 maxReads "count"
  let ids ← Py.collect (Py.always fun identity ↦ text identity "fact ID" 256) identities
  let settings ← spaceSettings (team.config.getD []) space context
  let rows ← visible team world.clock world.facts context ids
  Py.require (ids.all fun identity ↦ (rows.lookup identity).any fun row ↦
      settings.scopes.all (· ∈ scopesOf row))
    (.permissionError "UniMem fact is unavailable in this team space")
  let found ← Py.collect (Py.always fun identity ↦ (rows.lookup identity).elim (.error (.keyError identity))
    fun row ↦ do return (identity, row, ← transactionTime team.runtime row)) ids
  return ⟨settings.level, found.map (·.2.1), found.map fun entry ↦ (entry.1, entry.2.2)⟩

variable {runtime : Runtime} {version identity : String} {now : ℤ} {admitted start : Facts}
  {context identities : List String} {leases : List Lease} {check : Check} {commit : Commit}

theorem transactionTime_eq_ok_iff {record : Json} :
    transactionTime runtime record = .ok version ↔
      (dumpable record = true ∧ (canonicalBytes record).length ≤ 256 * 1024) ∧
        "tx1:" ++ runtime.sha256 (canonicalBytes record) = version := by
  simp only [transactionTime, Py.bind_eq_ok_iff, Py.require_eq_ok_iff, decide_eq_true_eq, Py.pure_eq_ok,
    Except.ok.injEq]
  constructor
  · rintro ⟨_, hfinite, _, hbound, rfl⟩
    exact ⟨⟨hfinite, hbound⟩, rfl⟩
  · rintro ⟨⟨hfinite, hbound⟩, rfl⟩
    exact ⟨(), hfinite, (), hbound, rfl⟩

theorem canonicalBytes_eq_of_version (hcollision : CollisionFree runtime) {first second : Json}
    (hfirst : transactionTime runtime first = .ok version)
    (hsecond : transactionTime runtime second = .ok version) :
    canonicalBytes first = canonicalBytes second := by
  obtain ⟨-, hfirst⟩ := transactionTime_eq_ok_iff.mp hfirst
  obtain ⟨-, hsecond⟩ := transactionTime_eq_ok_iff.mp hsecond
  rw [← hsecond] at hfirst
  exact hcollision _ _ (String.append_right_inj "tx1:" |>.mp hfirst)

variable {facts : Facts} {caller : Caller}

theorem lookup_versions {found : List (String × String)} (h : versions runtime facts = .ok found)
    (identity : String) :
    found.lookup identity = versionIn runtime facts identity ∧
      ((found.lookup identity).isNone = (facts.lookup identity).isNone) := by
  rw [versions, Py.collect_always_eq_ok_iff] at h
  induction h with
  | nil => exact ⟨rfl, rfl⟩
  | @cons entry result facts found hentry _ ih =>
    simp only [Py.bind_eq_ok_iff, Py.pure_eq_ok, Except.ok.injEq] at hentry
    obtain ⟨version, hversion, rfl⟩ := hentry
    rw [versionIn, List.lookup_cons, List.lookup_cons]
    cases identity == entry.1 with
    | true =>
      rw [Option.bind_some, hversion]
      exact ⟨rfl, rfl⟩
    | false => exact ih

theorem lookup_visible {team : Team} (h : visible team now facts context identities = .ok admitted) {fact : Json}
    (hfact : admitted.lookup identity = some fact) : facts.lookup identity = some fact := by
  obtain ⟨wanted, -, hwanted⟩ := (Py.mem_collect_iff h _).mp (mem_of_lookup hfact)
  cases hlookup : facts.lookup wanted with
  | none => simp [hlookup] at hwanted
  | some found =>
    simp only [hlookup, Py.bind_eq_ok_iff, Py.pure_eq_ok, Except.ok.injEq] at hwanted
    obtain ⟨eligible, -, heq⟩ := hwanted
    split_ifs at heq
    cases heq
    exact hlookup

theorem version_of_not_stale {team : Team} (hvisible : visible team now facts context identities = .ok admitted)
    {current : List (String × String)} (hcurrent : versions team.runtime admitted = .ok current)
    {declared : List (String × String)} {entry : String × String} (hentry : entry ∈ declared)
    (hfresh : entry.1 ∉ stale declared current) :
    ∃ fact, facts.lookup entry.1 = some fact ∧ transactionTime team.runtime fact = .ok entry.2 := by
  have hsame : current.lookup entry.1 = some entry.2 := by
    by_contra hdifferent
    apply hfresh
    rw [stale, mem_sortBy]
    exact List.mem_map.mpr ⟨entry, List.mem_filter.mpr ⟨hentry, decide_eq_true hdifferent⟩, rfl⟩
  rw [(lookup_versions hcurrent entry.1).1, versionIn] at hsame
  obtain ⟨fact, hfact, hversion⟩ := Option.bind_eq_some_iff.mp hsame
  refine ⟨fact, lookup_visible hvisible hfact, ?_⟩
  cases htime : transactionTime team.runtime fact with
  | error error => simp [htime, Except.toOption] at hversion
  | ok version =>
    rw [htime] at hversion
    exact congrArg Except.ok (Option.some.inj hversion)

/-- What the checks before a write say about the facts. -/
structure Began (team : Team) (check : Check) (facts : Facts) : Prop where
  before : versions team.runtime facts = .ok check.before
  fresh : ∀ entry ∈ check.declared, entry.1 ∉ check.changed →
    ∃ fact, facts.lookup entry.1 = some fact ∧ transactionTime team.runtime fact = .ok entry.2
  current : check.settings.level = .serializable ∨ check.settings.level = .sequenced → check.changed = []

/-- What the checks after a write in snapshot mode say about the facts. -/
def Ended (team : Team) (check : Check) (facts : Facts) : Prop :=
  check.settings.level = .snapshot → ∃ after, versions team.runtime facts = .ok after ∧
    ∀ identity ∈ changedIds check.before after, (check.before.lookup identity).isSome →
      (check.declared.lookup identity).isSome ∧ identity ∉ check.changed

theorem began_of_checkBefore {team : Team} {settings : Space} {value : Value}
    (h : checkBefore team leases now caller settings value facts = .ok check) :
    Began team check facts := by
  simp only [checkBefore, Py.bind_eq_ok_iff] at h
  obtain ⟨_, -, admitted, hvisible, current, hcurrent, h⟩ := h
  split_ifs at h with hchanged
  · simp only [Py.bind_eq_ok_iff, Py.throw_eq_error] at h
    obtain ⟨_, -, h⟩ := h
    cases h
  · simp only [Py.bind_eq_ok_iff, Py.pure_eq_ok, Except.ok.injEq] at h
    obtain ⟨_, -, _, -, _, -, before, hbefore, rfl⟩ := h
    refine ⟨hbefore, ?_, ?_⟩
    · intro entry hentry hfresh
      exact version_of_not_stale hvisible hcurrent hentry hfresh
    · intro hlevel
      by_contra hstale
      exact hchanged ⟨hlevel, hstale⟩

theorem began_of_beginKind {team : Team} {world : World} {erasure : Option (List String)}
    {arguments : Option Arguments} (h : beginKind team world caller erasure arguments = .ok (.checked check)) :
    Began team check world.facts := by
  unfold beginKind at h
  split at h
  · cases h
  · simp only [Py.bind_eq_ok_iff, Py.pure_eq_ok, Except.ok.injEq] at h
    obtain ⟨_, -, h⟩ := h
    cases h
  · simp only [Py.bind_eq_ok_iff, Py.pure_eq_ok, Except.ok.injEq] at h
    obtain ⟨_, -, h⟩ := h
    cases h
  · simp only [Py.bind_eq_ok_iff, Py.pure_eq_ok, Except.ok.injEq, Kind.checked.injEq] at h
    obtain ⟨_, -, _, -, _, hcheck, rfl⟩ := h
    exact began_of_checkBefore hcheck

theorem ended_of_checkAfter {team : Team} (h : checkAfter team leases now caller check facts = .ok ()) :
    Ended team check facts := by
  intro hlevel
  simp only [checkAfter, Py.bind_eq_ok_iff, Py.require_eq_ok_iff] at h
  obtain ⟨after, hafter, _, -, _, -, _, -, _, hconflict, -⟩ := h
  refine ⟨after, hafter, fun identity hidentity hbefore ↦ ?_⟩
  simp only [hlevel, ne_eq, not_true_eq_false, decide_false, Bool.false_or, List.all_eq_true,
    Bool.or_eq_true, Bool.and_eq_true, decide_eq_true_eq] at hconflict
  refine (hconflict identity hidentity).resolve_left ?_
  rw [Option.isNone_iff_eq_none]
  rintro hnone
  rw [hnone] at hbefore
  cases hbefore

theorem commits_append_granted (history : List Event) (lease : Lease) :
    commits (history ++ [.granted lease]) = commits history := by
  simp [commits, List.filterMap_append]

theorem commits_append_committed (history : List Event) (commit : Commit) :
    commits (history ++ [.committed commit]) = commits history ++ [commit] := by
  simp [commits, List.filterMap_append]

/-- What holds of the facts of a team in every run. -/
structure Isolated (team : Team) (start : Facts) (world : World) : Prop where
  began : ∀ write check, world.active = some write → write.kind = .checked check →
    Began team check world.facts
  ended : ∀ write check, world.active = some write → write.validated = true →
    write.kind = .checked check → Ended team check write.facts
  checked : ∀ commit ∈ commits world.history, ∀ check, commit.kind = .checked check →
    Began team check commit.old ∧ Ended team check commit.new
  linked : Linked Commit.old Commit.new start (commits world.history) world.facts

theorem Isolated.moved {team : Team} {world next : World} (h : Isolated team start world)
    (hmoved : Moved team world next) : Isolated team start next := by
  cases hmoved with
  | ticked microseconds => exact ⟨h.began, h.ended, h.checked, h.linked⟩
  | leased request lease hfree hgrant =>
    refine ⟨h.began, h.ended, ?_, ?_⟩
    · rw [commits_append_granted]
      exact h.checked
    · rw [commits_append_granted]
      exact h.linked
  | released request lease hfree hrelease => exact ⟨h.began, h.ended, h.checked, h.linked⟩
  | began thread caller erasure arguments kind hactive hkind =>
    refine ⟨?_, ?_, h.checked, h.linked⟩
    · rintro write check ⟨⟩ hchecked
      change kind = .checked check at hchecked
      rw [hchecked] at hkind
      exact began_of_beginKind hkind
    · rintro write check ⟨⟩ hvalidated
      cases hvalidated
  | edited write facts hactive hrunning =>
    refine ⟨?_, ?_, h.checked, h.linked⟩
    · rintro _ check ⟨⟩ hkind
      exact h.began write check hactive hkind
    · rintro _ check ⟨⟩ hvalidated
      rw [hrunning] at hvalidated
      cases hvalidated
  | validated write hactive hchecks =>
    refine ⟨?_, ?_, h.checked, h.linked⟩
    · rintro _ check ⟨⟩ hkind
      exact h.began write check hactive hkind
    · rintro _ check ⟨⟩ - hkind
      change write.kind = .checked check at hkind
      rw [lastChecks, hkind] at hchecks
      exact ended_of_checkAfter hchecks
  | committed write hactive hvalidated =>
    refine ⟨?_, ?_, ?_, ?_⟩
    · rintro write check ⟨⟩
    · rintro write check ⟨⟩
    · rw [commits_append_committed, List.forall_mem_append, List.forall_mem_singleton]
      refine ⟨h.checked, fun check hkind ↦ ?_⟩
      exact ⟨h.began write check hactive hkind, h.ended write check hactive hvalidated hkind⟩
    · rw [commits_append_committed, linked_append]
      exact ⟨world.facts, h.linked, rfl, rfl⟩
  | ended =>
    refine ⟨?_, ?_, h.checked, h.linked⟩
    · rintro write check ⟨⟩
    · rintro write check ⟨⟩

theorem isolated_run (team : Team) (facts : Facts) (clock : ℤ) (actions : List Action) :
    Isolated team facts (run (step team) (.initial facts clock) actions) := by
  refine run_invariant (fun world action next h hstep ↦ h.moved (moved_of_step hstep)) ?_ actions
  refine ⟨?_, ?_, ?_, rfl⟩
  · rintro write check ⟨⟩
  · rintro write check ⟨⟩
  · simp [World.initial, commits]

theorem versionIn_eq_some_iff :
    versionIn runtime facts identity = some version ↔
      ∃ fact, facts.lookup identity = some fact ∧ transactionTime runtime fact = .ok version := by
  rw [versionIn, Option.bind_eq_some_iff]
  refine exists_congr fun fact ↦ and_congr_right fun _ ↦ ?_
  cases transactionTime runtime fact with
  | error error => simp [Except.toOption]
  | ok found => simp [Except.toOption]

theorem text_eq_of_versionIn (hcollision : CollisionFree runtime) {others : Facts}
    (hfacts : versionIn runtime facts identity = some version)
    (hothers : versionIn runtime others identity = some version) :
    (facts.lookup identity).map canonicalBytes = (others.lookup identity).map canonicalBytes := by
  obtain ⟨fact, hfact, hversion⟩ := versionIn_eq_some_iff.mp hfacts
  obtain ⟨other, hother, hversion'⟩ := versionIn_eq_some_iff.mp hothers
  rw [hfact, hother, Option.map_some, Option.map_some, canonicalBytes_eq_of_version hcollision hversion hversion']

theorem modifies_iff :
    commit.modifies identity = true ↔ (commit.old.lookup identity).isSome ∧
      (commit.old.lookup identity).map canonicalBytes ≠ (commit.new.lookup identity).map canonicalBytes := by
  unfold Commit.modifies
  cases commit.old.lookup identity with
  | none => simp
  | some before =>
    cases commit.new.lookup identity with
    | none => simp
    | some after => simp

theorem mem_changedIds_of_modifies (hcollision : CollisionFree runtime) {before after : List (String × String)}
    (hbefore : versions runtime commit.old = .ok before) (hafter : versions runtime commit.new = .ok after)
    (h : commit.modifies identity = true) :
    identity ∈ changedIds before after ∧ (before.lookup identity).isSome := by
  obtain ⟨hold, hdifferent⟩ := modifies_iff.mp h
  obtain ⟨hversion, hnone⟩ := lookup_versions hbefore identity
  obtain ⟨hversion', hnone'⟩ := lookup_versions hafter identity
  have hfound : (before.lookup identity).isSome = true := by
    rw [← Option.not_isNone, hnone, Option.not_isNone, hold]
  refine ⟨?_, hfound⟩
  obtain ⟨version, hlookup⟩ := Option.isSome_iff_exists.mp hfound
  rw [changedIds, List.mem_append]
  cases hlookup' : after.lookup identity with
  | none =>
    right
    exact List.mem_map.mpr ⟨_, List.mem_filter.mpr ⟨mem_of_lookup hlookup, by simp [hlookup']⟩, rfl⟩
  | some version' =>
    left
    refine List.mem_map.mpr ⟨_, List.mem_filter.mpr ⟨mem_of_lookup hlookup', ?_⟩, rfl⟩
    rw [hlookup, decide_eq_true_eq]
    rintro ⟨⟩
    exact hdifferent (text_eq_of_versionIn hcollision (hversion ▸ hlookup) (hversion' ▸ hlookup'))

theorem declared_of_modifies {team : Team} (hcollision : CollisionFree team.runtime)
    (hbegan : Began team check commit.old) (hended : Ended team check commit.new)
    (hlevel : check.settings.level = .snapshot) (h : commit.modifies identity = true) :
    ∃ version, check.declared.lookup identity = some version ∧
      versionIn team.runtime commit.old identity = some version := by
  obtain ⟨after, hafter, hdeclared⟩ := hended hlevel
  obtain ⟨hchanged, hbefore⟩ := mem_changedIds_of_modifies hcollision hbegan.before hafter h
  obtain ⟨hsome, hfresh⟩ := hdeclared identity hchanged hbefore
  obtain ⟨version, hlookup⟩ := Option.isSome_iff_exists.mp hsome
  refine ⟨version, hlookup, versionIn_eq_some_iff.mpr ?_⟩
  exact hbegan.fresh (identity, version) (mem_of_lookup hlookup) hfresh

theorem versionIn_ne_of_modifies (hcollision : CollisionFree runtime) (h : commit.modifies identity = true)
    (hold : versionIn runtime commit.old identity = some version) :
    versionIn runtime commit.new identity ≠ some version := by
  intro hnew
  exact (modifies_iff.mp h).2 (text_eq_of_versionIn hcollision hold hnew)

theorem reads_iff :
    commit.reads identity version = true ↔ ∃ check, commit.kind = .checked check ∧
      check.settings.level = .snapshot ∧ check.declared.lookup identity = some version := by
  unfold Commit.reads
  cases commit.kind with
  | free => simp
  | erasure identities before => simp
  | checked check => simp

theorem facts_perform (team : Team) (world : World) (action : Action)
    (h : commits (perform (step team) world action).history = commits world.history) :
    (perform (step team) world action).facts = world.facts := by
  obtain heq | ⟨next, hnext, heq⟩ := perform_cases (step team) world action
  · rw [heq]
  · rw [heq] at h ⊢
    cases moved_of_step hnext with
    | committed write hactive hvalidated =>
      rw [commits_append_committed] at h
      exact absurd (congrArg List.length h) (by simp)
    | _ => rfl

theorem fetch_versions {team : Team} {world : World} {space : String} {fetched : Fetched}
    (h : fetch team world space context identities = .ok fetched) :
    ∀ entry ∈ fetched.readSet, versionIn team.runtime world.facts entry.1 = some entry.2 := by
  simp only [fetch, Py.bind_eq_ok_iff, Py.pure_eq_ok, Except.ok.injEq] at h
  obtain ⟨_, -, ids, -, settings, -, rows, hrows, _, -, found, hfound, rfl⟩ := h
  intro entry hentry
  obtain ⟨⟨identity, row, version⟩, hmem, rfl⟩ := List.mem_map.mp hentry
  obtain ⟨wanted, -, hwanted⟩ := (Py.mem_collect_iff hfound _).mp hmem
  rw [Py.always_eq_ok_iff] at hwanted
  cases hlookup : rows.lookup wanted with
  | none => simp [hlookup] at hwanted
  | some found =>
    simp only [hlookup, Option.elim_some, Py.bind_eq_ok_iff, Except.ok.injEq] at hwanted
    obtain ⟨time, htime, heq⟩ := hwanted
    cases heq
    exact versionIn_eq_some_iff.mpr ⟨row, lookup_visible hrows hlookup, htime⟩

theorem restored_between {team : Team} (hcollision : CollisionFree team.runtime) {world : World}
    (h : Isolated team start world) {earlier between later : List Commit} {first second : Commit}
    (hcommits : commits world.history = earlier ++ first :: (between ++ second :: later))
    (hfirst : first.reads identity version = true) (hsecond : second.reads identity version = true)
    (hmodifies : first.modifies identity = true) (hmodifies' : second.modifies identity = true) :
    ∃ commit ∈ between, versionIn team.runtime commit.old identity ≠ some version ∧
      versionIn team.runtime commit.new identity = some version := by
  have hversion : ∀ commit ∈ commits world.history, commit.reads identity version = true →
      commit.modifies identity = true → versionIn team.runtime commit.old identity = some version := by
    intro commit hcommit hreads hmodifies
    obtain ⟨check, hkind, hlevel, hdeclared⟩ := reads_iff.mp hreads
    obtain ⟨hbegan, hended⟩ := h.checked commit hcommit check hkind
    obtain ⟨found, hfound, hold⟩ := declared_of_modifies hcollision hbegan hended hlevel hmodifies
    rw [hdeclared, Option.some.injEq] at hfound
    rw [hfound]
    exact hold
  have hlinked := h.linked
  rw [hcommits, linked_append] at hlinked
  obtain ⟨_, -, -, hlinked⟩ := hlinked
  rw [linked_append] at hlinked
  obtain ⟨middle, hbetween, rfl, -⟩ := hlinked
  refine hbetween.exists_established (fun facts ↦ versionIn team.runtime facts identity = some version) ?_ ?_
  · apply versionIn_ne_of_modifies hcollision hmodifies
    apply hversion first _ hfirst hmodifies
    rw [hcommits]
    simp
  · apply hversion second _ hsecond hmodifies'
    rw [hcommits]
    simp

/-- A write commits only over the versions it declared or read, and changes nothing else. -/
theorem team_writes_isolated (team : Team) (hcollision : CollisionFree team.runtime) (facts : Facts)
    (clock : ℤ) (actions : List Action) :
    let world := run (step team) (.initial facts clock) actions
    (∀ commit ∈ commits world.history, ∀ check, commit.kind = .checked check →
      (check.settings.level = .snapshot → ∀ identity, commit.modifies identity = true →
        ∃ version, check.declared.lookup identity = some version ∧
          versionIn team.runtime commit.old identity = some version) ∧
      (check.settings.level = .serializable ∨ check.settings.level = .sequenced →
        ∀ entry ∈ check.declared, versionIn team.runtime commit.old entry.1 = some entry.2)) ∧
    (∀ earlier first between second later identity version,
      commits world.history = earlier ++ first :: (between ++ second :: later) →
      first.reads identity version = true → second.reads identity version = true →
      first.modifies identity = true → second.modifies identity = true →
      ∃ commit ∈ between, versionIn team.runtime commit.old identity ≠ some version ∧
        versionIn team.runtime commit.new identity = some version) ∧
    (∀ other space context identities fetched, fetch team other space context identities = .ok fetched →
      ∀ entry ∈ fetched.readSet, ∀ current, versionIn team.runtime current entry.1 = some entry.2 →
        (current.lookup entry.1).map canonicalBytes = (other.facts.lookup entry.1).map canonicalBytes) ∧
    ∀ action, commits (perform (step team) world action).history = commits world.history →
      (perform (step team) world action).facts = world.facts := by
  intro world
  have hisolated := isolated_run team facts clock actions
  refine ⟨?_, ?_, ?_, facts_perform team world⟩
  · intro commit hcommit check hkind
    obtain ⟨hbegan, hended⟩ := hisolated.checked commit hcommit check hkind
    constructor
    · intro hlevel identity hmodifies
      exact declared_of_modifies hcollision hbegan hended hlevel hmodifies
    · intro hlevel entry hentry
      rw [versionIn_eq_some_iff]
      apply hbegan.fresh entry hentry
      rw [hbegan.current hlevel]
      exact List.not_mem_nil
  · intro earlier first between second later identity version hcommits hfirst hsecond hmodifies hmodifies'
    exact restored_between hcollision hisolated hcommits hfirst hsecond hmodifies hmodifies'
  · intro other space context identities fetched hfetch entry hentry current hcurrent
    exact text_eq_of_versionIn hcollision hcurrent (fetch_versions hfetch entry hentry)

namespace Sample

def confidence : Decimal where
  text := "0.8"
  value := some (4 / 5)
  printable := by
    have htext : "0.8".toList = ['0', '.', '8'] := rfl
    rw [htext]
    simp

def fact (statement : String) : Json :=
  .obj [("id", .str "fact-1"), ("statement", .str statement), ("category", .str "general"),
    ("scopes", .arr []), ("confidence", .float confidence), ("confirmations", .int 1),
    ("valid_from", .str "2026-01-01T00:00:00+00:00"), ("valid_until", .null), ("expires_at", .null),
    ("forgotten", .bool false), ("source_traces", .arr []), ("status", .str "active"),
    ("superseded_by", .null), ("revision", .str ""), ("created_at", .str "2026-01-01T00:00:00+00:00"),
    ("updated_at", .str "2026-01-01T00:00:00+00:00"), ("stability", .str ""), ("evidence", .arr []),
    ("evidence_bound", .bool false), ("min_support", .int 1), ("evidence_revision", .str ""),
    ("memory_type", .str "general"), ("origin", .obj []), ("retracted_at", .null)]

def digestOn : String := "c25ca6e01ddb223f30fca17d619cae3037f4250d7d670cb9ba170116ad0f7ecb"

def digestOff : String := "aa4afa268373e80b96df29af13472be9e38b66faa34c81b6ebf876279f32fe69"

/-- A digest without collisions on the texts of the two facts. -/
def digestOf (bytes : Bytes) : String :=
  if bytes = canonicalBytes (fact "on") then digestOn
  else if bytes = canonicalBytes (fact "off") then digestOff
  else String.ofList ('x' :: bytes.map fun byte ↦ Char.ofNat byte.toNat)

def team : Team where
  runtime :=
    { sha256 := digestOf
      hmacSha256 := fun _ _ ↦ ""
      ed25519PublicBytes := fun key ↦ key
      ed25519Sign := fun _ _ ↦ ""
      ed25519Verify := fun _ _ _ ↦ true
      jsonLoads := fun _ ↦ none
      retainedSize := fun _ ↦ 0 }
  config := some [("default", ⟨.snapshot, []⟩)]
  eligible _ _ _ _ := .ok true

/-- A write by a thread that declares the version of a digest and sets the statement. -/
def writeAs (thread : ℕ) (digest statement : String) : List Action :=
  [.begin thread ⟨"agent", ""⟩ none (some ⟨some (.arr [.obj [("id", .str "fact-1"),
      ("transaction_time", .str ("tx1:" ++ digest))]]), [], ⟨"default", "", none, ""⟩⟩),
    .edit thread [("fact-1", fact statement)], .validate thread, .commit thread true]

/-- Two threads read a fact, a third restores it, and both writes commit. -/
def actions : List Action :=
  writeAs 1 digestOn "off" ++ writeAs 3 digestOff "on" ++ writeAs 2 digestOn "off"

def world : World := run (step team) (.initial [("fact-1", fact "on")] 0) actions

theorem bytes_eq_of_texts {first second : Bytes}
    (h : String.ofList ('x' :: first.map fun byte ↦ Char.ofNat byte.toNat) =
      String.ofList ('x' :: second.map fun byte ↦ Char.ofNat byte.toNat)) : first = second := by
  have hinjective : Function.Injective fun byte : UInt8 ↦ Char.ofNat byte.toNat := by
    intro byte other heq
    have hnat := congrArg Char.toNat heq
    have hbyte := byte.toNat_lt
    have hother := other.toNat_lt
    rw [Char.toNat_ofNat, Char.toNat_ofNat, if_pos (Or.inl (by omega)), if_pos (Or.inl (by omega))] at hnat
    exact UInt8.toNat_inj.mp hnat
  exact List.map_injective_iff.mpr hinjective (List.cons.inj (String.ofList_injective h)).2

theorem collisionFree : CollisionFree team.runtime := by
  intro first second h
  change digestOf first = digestOf second at h
  have hon : ∀ characters, digestOn ≠ String.ofList ('x' :: characters) := by
    intro characters heq
    have hhead := congrArg (fun text ↦ text.toList.head?) heq
    rw [String.toList_ofList, List.head?_cons] at hhead
    exact absurd hhead (by decide)
  have hoff : ∀ characters, digestOff ≠ String.ofList ('x' :: characters) := by
    intro characters heq
    have hhead := congrArg (fun text ↦ text.toList.head?) heq
    rw [String.toList_ofList, List.head?_cons] at hhead
    exact absurd hhead (by decide)
  have hdifferent : digestOn ≠ digestOff := by decide
  unfold digestOf at h
  split_ifs at h with hfirst hsecond hsecond' hfirst' hsecond hsecond' hsecond hsecond'
  · rw [hfirst, hsecond]
  · exact absurd h hdifferent
  · exact absurd h (hon _)
  · exact absurd h.symm hdifferent
  · rw [hfirst', hsecond']
  · exact absurd h (hoff _)
  · exact absurd h.symm (hon _)
  · exact absurd h.symm (hoff _)
  · exact bytes_eq_of_texts h

theorem twice_off : ¬(commits world.history).Pairwise (fun first second ↦
      ¬(first.reads "fact-1" ("tx1:" ++ digestOn) = true ∧ second.reads "fact-1" ("tx1:" ++ digestOn) = true ∧
        first.modifies "fact-1" = true ∧ second.modifies "fact-1" = true)) ∧
    versionIn team.runtime world.facts "fact-1" = some ("tx1:" ++ digestOff) := by decide +kernel

end Sample

/-- Two writes that read one version of a fact and change it both commit. -/
theorem snapshot_restored : CollisionFree Sample.team.runtime ∧
    ¬(commits Sample.world.history).Pairwise fun first second ↦
      ¬(first.reads "fact-1" ("tx1:" ++ Sample.digestOn) = true ∧
        second.reads "fact-1" ("tx1:" ++ Sample.digestOn) = true ∧
        first.modifies "fact-1" = true ∧ second.modifies "fact-1" = true) :=
  ⟨Sample.collisionFree, Sample.twice_off.1⟩

theorem team_writes_isolated_sample : CollisionFree Sample.team.runtime ∧
    versionIn Sample.team.runtime Sample.world.facts "fact-1" = some ("tx1:" ++ Sample.digestOff) ∧
    ∀ commit ∈ commits Sample.world.history, ∀ check, commit.kind = .checked check →
      check.settings.level = .snapshot → ∀ identity, commit.modifies identity = true →
        ∃ version, check.declared.lookup identity = some version ∧
          versionIn Sample.team.runtime commit.old identity = some version := by
  refine ⟨Sample.collisionFree, Sample.twice_off.2, ?_⟩
  intro commit hcommit check hkind
  exact ((team_writes_isolated Sample.team Sample.collisionFree [("fact-1", Sample.fact "on")] 0
    Sample.actions).1 commit hcommit check hkind).1

end UniMem.TeamIsolation
