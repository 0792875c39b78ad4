import UniMem.Jobs.Queue

/-!
# Leases of jobs

A row that runs has a lease, a row that waits has attempts left, and a token stands in at most one row.
Every call keeps this, so a token is accepted for one job until its attempt ends, and no job is stranded.
-/

namespace UniMem.Jobs

open Library

/-- What holds of every row. -/
structure Sound (job : Job) : Prop where
  positive : 0 < job.maxAttempts
  bounded : job.attempts ≤ job.maxAttempts
  leased : job.status = .running → job.leaseUntil.isSome = true
  waiting : job.status = .queued ∨ job.status = .failed → job.attempts < job.maxAttempts

/-- What holds of the table after calls that have drawn some tokens. -/
structure Valid (drawn : List String) (jobs : List Job) : Prop where
  unique : jobs.Pairwise Compatible
  sound : ∀ job ∈ jobs, Sound job
  issued : ∀ job ∈ jobs, ∀ token, job.leaseToken = some token → token ∈ drawn
  owned : ∀ job ∈ jobs, ∀ other ∈ jobs, ∀ token, job.leaseToken = some token →
    other.leaseToken = some token → job.id = other.id

theorem written_eq_ok_iff {jobs result : List Job} :
    written jobs = .ok result ↔ jobs.Pairwise Compatible ∧ jobs = result := by
  simp [written, Py.bind_eq_ok_iff, Py.require_eq_ok_iff]

theorem eq_of_id {jobs : List Job} (h : jobs.Pairwise Compatible) {first second : Job}
    (hfirst : first ∈ jobs) (hsecond : second ∈ jobs) (hid : first.id = second.id) : first = second := by
  have hids : (jobs.map Job.id).Nodup := List.pairwise_map.mpr (h.imp And.left)
  exact List.inj_on_of_nodup_map hids hfirst hsecond hid

section Update

variable {condition : Job → Bool} {change : Job → Job} {jobs result : List Job} {drawn : List String}

theorem mem_update (h : update condition change jobs = .ok result) {job : Job} :
    job ∈ result ↔ ∃ old ∈ jobs, (if condition old then change old else old) = job := by
  obtain ⟨-, rfl⟩ := written_eq_ok_iff.mp h
  rw [List.mem_map]

theorem Valid.update (h : Valid drawn jobs) (hupdate : update condition change jobs = .ok result)
    (hid : ∀ job, (change job).id = job.id)
    (htoken : ∀ job, (change job).leaseToken = none ∨ (change job).leaseToken = job.leaseToken)
    (hsound : ∀ job, condition job = true → Sound job → Sound (change job)) : Valid drawn result := by
  have hrow : ∀ job ∈ result, ∃ old ∈ jobs, job.id = old.id ∧ Sound job ∧
      ∀ token, job.leaseToken = some token → old.leaseToken = some token := by
    intro job hjob
    obtain ⟨old, hold, rfl⟩ := (mem_update hupdate).mp hjob
    refine ⟨old, hold, ?_⟩
    split_ifs with hcondition
    · refine ⟨hid old, hsound old hcondition (h.sound old hold), ?_⟩
      intro token hgiven
      obtain hnone | hsame := htoken old
      · rw [hnone] at hgiven
        cases hgiven
      · rw [← hsame]
        exact hgiven
    · exact ⟨rfl, h.sound old hold, fun _ ↦ id⟩
  refine ⟨?_, ?_, ?_, ?_⟩
  · obtain ⟨hpairs, rfl⟩ := written_eq_ok_iff.mp hupdate
    exact hpairs
  · intro job hjob
    obtain ⟨old, -, -, hjob, -⟩ := hrow job hjob
    exact hjob
  · intro job hjob token hgiven
    obtain ⟨old, hold, -, -, htokens⟩ := hrow job hjob
    exact h.issued old hold token (htokens token hgiven)
  · intro job hjob other hother token hgiven hgiven'
    obtain ⟨old, hold, hids, -, htokens⟩ := hrow job hjob
    obtain ⟨old', hold', hids', -, htokens'⟩ := hrow other hother
    rw [hids, hids']
    exact h.owned old hold old' hold' token (htokens token hgiven) (htokens' token hgiven')

end Update

variable {job : Job} {now : ℚ} {token identity body error : String} {lease : Option ℚ} {world : World}
  {action : Action}

theorem sound_of_ended (hpositive : 0 < job.maxAttempts) (hbounded : job.attempts ≤ job.maxAttempts)
    (hended : job.status.pending = false) : Sound job := by
  refine ⟨hpositive, hbounded, ?_, ?_⟩
  · intro hstatus
    rw [hstatus] at hended
    cases hended
  · rintro (hstatus | hstatus)
    · rw [hstatus] at hended
      cases hended
    · rw [hstatus] at hended
      cases hended

theorem sound_expire (job : Job) (now : ℚ) (h : Sound job) : Sound (job.expire now) :=
  sound_of_ended h.positive h.bounded rfl

theorem sound_finish (job : Job) (now : ℚ) (body : String) (h : Sound job) : Sound (job.finish now body) :=
  sound_of_ended h.positive h.bounded rfl

theorem sound_of_queued (hpositive : 0 < job.maxAttempts) (hattempts : job.attempts = 0)
    (hqueued : job.status = .queued) : Sound job := by
  refine ⟨hpositive, hattempts ▸ Nat.zero_le _, ?_, fun _ ↦ hattempts ▸ hpositive⟩
  intro hstatus
  rw [hqueued] at hstatus
  cases hstatus

theorem sound_requeue (job : Job) (now : ℚ) (h : Sound job) : Sound (job.requeue now) :=
  sound_of_queued h.positive rfl rfl

theorem sound_park (job : Job) (now : ℚ) (error : String) (h : Sound job) : Sound (job.park now error) := by
  refine ⟨h.positive, h.bounded, ?_, ?_⟩
  · intro hstatus
    change (if job.maxAttempts ≤ job.attempts then Status.dead else .failed) = .running at hstatus
    split_ifs at hstatus
  · intro hstatus
    change (if job.maxAttempts ≤ job.attempts then Status.dead else .failed) = .queued ∨
      (if job.maxAttempts ≤ job.attempts then Status.dead else .failed) = .failed at hstatus
    split_ifs at hstatus with hdead
    · simp at hstatus
    · exact not_le.mp hdead

theorem sound_start (lease : ℚ) (token : String) (hready : ready now job = true) (h : Sound job) :
    Sound (job.start now lease token) := by
  have hattempts : job.attempts < job.maxAttempts := by
    simp only [ready, Bool.and_eq_true, decide_eq_true_eq] at hready
    exact hready.2
  refine ⟨h.positive, hattempts, fun _ ↦ rfl, ?_⟩
  rintro (hstatus | hstatus)
  · cases hstatus
  · cases hstatus

theorem Valid.start {drawn : List String} {jobs result : List Job} (h : Valid drawn jobs) {chosen : Job}
    (hchosen : chosen ∈ jobs) {lease : ℚ} (hready : ready now chosen = true) (hfresh : token ∉ drawn)
    (hupdate : Jobs.update (fun job ↦ job.id = chosen.id) (fun job ↦ job.start now lease token) jobs = .ok result) :
    Valid (drawn ++ [token]) result := by
  have hrow : ∀ job ∈ result, job = chosen.start now lease token ∨ job ∈ jobs ∧ job.id ≠ chosen.id := by
    intro job hjob
    obtain ⟨old, hold, rfl⟩ := (mem_update hupdate).mp hjob
    by_cases hid : old.id = chosen.id
    · left
      rw [if_pos (decide_eq_true hid), eq_of_id h.unique hold hchosen hid]
    · right
      rw [if_neg (by simpa using hid)]
      exact ⟨hold, hid⟩
  refine ⟨?_, ?_, ?_, ?_⟩
  · obtain ⟨hpairs, rfl⟩ := written_eq_ok_iff.mp hupdate
    exact hpairs
  · intro job hjob
    obtain rfl | ⟨hold, -⟩ := hrow job hjob
    · exact sound_start lease token hready (h.sound chosen hchosen)
    · exact h.sound job hold
  · intro job hjob other hgiven
    rw [List.mem_append, List.mem_singleton]
    obtain rfl | ⟨hold, -⟩ := hrow job hjob
    · exact Or.inr (Option.some.inj hgiven).symm
    · exact Or.inl (h.issued job hold other hgiven)
  · intro job hjob other hother found hgiven hgiven'
    obtain rfl | ⟨hold, -⟩ := hrow job hjob
    · obtain rfl | ⟨hold', -⟩ := hrow other hother
      · rfl
      · cases Option.some.inj hgiven
        exact absurd (h.issued other hold' token hgiven') hfresh
    · obtain rfl | ⟨hold', -⟩ := hrow other hother
      · cases Option.some.inj hgiven'
        exact absurd (h.issued job hold token hgiven) hfresh
      · exact h.owned job hold other hold' found hgiven hgiven'

theorem Valid.subset {drawn others : List String} {jobs : List Job} (h : Valid drawn jobs)
    (hdrawn : drawn ⊆ others) : Valid others jobs :=
  ⟨h.unique, h.sound, fun job hjob token hgiven ↦ hdrawn (h.issued job hjob token hgiven), h.owned⟩

theorem Valid.enqueue {drawn : List String} {jobs result : List Job} (h : Valid drawn jobs) {given : Enqueue}
    (henqueue : Jobs.enqueue jobs now given = .ok result) : Valid drawn result := by
  simp only [Jobs.enqueue, Py.bind_eq_ok_iff] at henqueue
  obtain ⟨_, -, henqueue⟩ := henqueue
  cases hdelay : given.delay with
  | none => simp [hdelay] at henqueue
  | some delay =>
    simp only [hdelay, Py.bind_eq_ok_iff] at henqueue
    obtain ⟨_, -, henqueue⟩ := henqueue
    split_ifs at henqueue
    · cases henqueue
      exact h
    · obtain ⟨hpairs, rfl⟩ := written_eq_ok_iff.mp henqueue
      refine ⟨hpairs, ?_, ?_, ?_⟩
      · rw [List.forall_mem_append, List.forall_mem_singleton]
        refine ⟨h.sound, sound_of_queued ?_ rfl rfl⟩
        change 0 < (max 1 (min given.maxAttempts 20)).toNat
        omega
      · rw [List.forall_mem_append, List.forall_mem_singleton]
        refine ⟨h.issued, ?_⟩
        rintro token ⟨⟩
      · intro job hjob other hother token hgiven hgiven'
        obtain hold | hnew := List.mem_append.mp hjob
        · obtain hold' | hnew' := List.mem_append.mp hother
          · exact h.owned job hold other hold' token hgiven hgiven'
          · rw [List.mem_singleton.mp hnew'] at hgiven'
            cases hgiven'
        · rw [List.mem_singleton.mp hnew] at hgiven
          cases hgiven

theorem mem_of_first {jobs : List Job} (h : first jobs = some job) : job ∈ jobs := by
  unfold first at h
  induction jobs using List.reverseRecOn generalizing job with
  | nil => cases h
  | append_singleton jobs last ih =>
    rw [List.foldl_append, List.foldl_cons, List.foldl_nil, Option.some.injEq] at h
    cases hbest : jobs.foldl (fun best job ↦
        some (best.elim job fun other ↦ if precedes job other then job else other)) none with
    | none =>
      rw [hbest] at h
      rw [← h]
      exact List.mem_append_right _ List.mem_cons_self
    | some best =>
      rw [hbest, Option.elim_some] at h
      split_ifs at h
      · rw [← h]
        exact List.mem_append_right _ List.mem_cons_self
      · rw [← h]
        exact List.mem_append_left _ (ih hbest)

theorem Valid.claim {drawn : List String} {jobs result : List Job} (h : Valid drawn jobs) {kinds : List String}
    (hfresh : token ∉ drawn) (hclaim : Jobs.claim jobs now kinds lease token = .ok result) :
    Valid (drawn ++ [token]) result := by
  cases lease with
  | none => cases hclaim
  | some lease =>
    simp only [Jobs.claim, Py.bind_eq_ok_iff] at hclaim
    obtain ⟨rows, hrows, hclaim⟩ := hclaim
    have hvalid : Valid drawn rows := h.update hrows (fun _ ↦ rfl) (fun _ ↦ Or.inl rfl)
      fun job _ ↦ sound_expire job now
    cases hnext : next rows now kinds with
    | none =>
      rw [hnext] at hclaim
      cases hclaim
      exact hvalid.subset (List.subset_append_left _ _)
    | some chosen =>
      rw [hnext] at hclaim
      obtain ⟨hchosen, hready⟩ := List.mem_filter.mp (mem_of_first hnext)
      rw [Bool.and_eq_true] at hready
      exact hvalid.start hchosen hready.1 hfresh hclaim

theorem Valid.renew {drawn : List String} {jobs result : List Job} (h : Valid drawn jobs)
    (hrenew : Jobs.renew jobs now identity token lease = .ok result) : Valid drawn result := by
  simp only [Jobs.renew, Py.bind_eq_ok_iff] at hrenew
  obtain ⟨_, -, _, -, hrenew⟩ := hrenew
  refine h.update hrenew (fun _ ↦ rfl) (fun _ ↦ Or.inr rfl) ?_
  intro job _ hsound
  refine ⟨hsound.positive, hsound.bounded, ?_, hsound.waiting⟩
  intro hstatus
  change (job.leaseUntil.map _).isSome = true
  rw [Option.isSome_map]
  exact hsound.leased hstatus

theorem Valid.complete {drawn : List String} {jobs result : List Job} (h : Valid drawn jobs)
    {token : Option String} (hcomplete : Jobs.complete jobs now identity body token = .ok result) :
    Valid drawn result := by
  simp only [Jobs.complete, Py.bind_eq_ok_iff] at hcomplete
  obtain ⟨_, -, _, -, hcomplete⟩ := hcomplete
  exact h.update hcomplete (fun _ ↦ rfl) (fun _ ↦ Or.inl rfl) fun job _ ↦ sound_finish job now body

theorem Valid.fail {drawn : List String} {jobs result : List Job} (h : Valid drawn jobs) {token : Option String}
    (hfail : Jobs.fail jobs now identity error token = .ok result) : Valid drawn result := by
  unfold Jobs.fail at hfail
  split at hfail
  · cases hfail
  · rw [Py.bind_eq_ok_iff] at hfail
    obtain ⟨_, -, hfail⟩ := hfail
    exact h.update hfail (fun _ ↦ rfl) (fun _ ↦ Or.inl rfl) fun job _ ↦ sound_park job now error

theorem Valid.retry {drawn : List String} {jobs result : List Job} (h : Valid drawn jobs)
    {identity : Option String} (hretry : Jobs.retry jobs now identity = .ok result) : Valid drawn result := by
  unfold Jobs.retry at hretry
  split at hretry
  · exact h.update hretry (fun _ ↦ rfl) (fun _ ↦ Or.inl rfl) fun job _ ↦ sound_requeue job now
  · exact h.update hretry (fun _ ↦ rfl) (fun _ ↦ Or.inl rfl) fun job _ ↦ sound_requeue job now

theorem Valid.purge {drawn : List String} {jobs : List Job} (h : Valid drawn jobs) (now days : ℚ) :
    Valid drawn (Jobs.purge jobs now days) := by
  have hsubset : ∀ job ∈ Jobs.purge jobs now days, job ∈ jobs := fun job hjob ↦ (List.mem_filter.mp hjob).1
  exact ⟨h.unique.filter _, fun job hjob ↦ h.sound job (hsubset job hjob),
    fun job hjob ↦ h.issued job (hsubset job hjob),
    fun job hjob other hother ↦ h.owned job (hsubset job hjob) other (hsubset other hother)⟩

theorem Valid.step {drawn : List String} {next : World} (h : Valid drawn world.jobs)
    (hfresh : ∀ token, action.drawn = some token → token ∉ drawn) (hstep : Jobs.step world action = .ok next) :
    Valid (drawn ++ action.drawn.toList) next.jobs := by
  cases action with
  | tick elapsed =>
    cases hstep
    exact h.subset (List.subset_append_left _ _)
  | purge days =>
    cases hstep
    exact (h.purge world.clock days).subset (List.subset_append_left _ _)
  | enqueue given =>
    obtain ⟨jobs, hjobs, heq⟩ := Py.of_bind hstep
    cases heq
    exact (h.enqueue hjobs).subset (List.subset_append_left _ _)
  | claim kinds lease token =>
    obtain ⟨jobs, hjobs, heq⟩ := Py.of_bind hstep
    cases heq
    exact h.claim (hfresh token rfl) hjobs
  | renew identity token lease =>
    obtain ⟨jobs, hjobs, heq⟩ := Py.of_bind hstep
    cases heq
    exact (h.renew hjobs).subset (List.subset_append_left _ _)
  | complete identity body token =>
    obtain ⟨jobs, hjobs, heq⟩ := Py.of_bind hstep
    cases heq
    exact (h.complete hjobs).subset (List.subset_append_left _ _)
  | fail identity error token =>
    obtain ⟨jobs, hjobs, heq⟩ := Py.of_bind hstep
    cases heq
    exact (h.fail hjobs).subset (List.subset_append_left _ _)
  | retry identity =>
    obtain ⟨jobs, hjobs, heq⟩ := Py.of_bind hstep
    cases heq
    exact (h.retry hjobs).subset (List.subset_append_left _ _)

theorem Valid.run {actions : List Action} {drawn : List String} (h : Valid drawn world.jobs)
    (hnodup : (drawn ++ tokens actions).Nodup) :
    Valid (drawn ++ tokens actions) (Library.run Jobs.step world actions).jobs := by
  induction actions generalizing drawn world with
  | nil =>
    rw [tokens, List.filterMap_nil, List.append_nil, run_nil]
    exact h
  | cons action actions ih =>
    have hsplit : drawn ++ tokens (action :: actions) =
        (drawn ++ action.drawn.toList) ++ tokens actions := by
      unfold tokens
      cases hdrawn : action.drawn with
      | none => rw [List.filterMap_cons_none hdrawn, Option.toList_none, List.append_nil]
      | some token =>
        rw [List.filterMap_cons_some hdrawn, Option.toList_some, List.append_assoc, List.singleton_append]
    rw [hsplit] at hnodup ⊢
    rw [run_cons]
    refine ih ?_ hnodup
    obtain heq | ⟨next, hnext, heq⟩ := perform_cases Jobs.step world action
    · rw [heq]
      exact h.subset (List.subset_append_left _ _)
    · rw [heq]
      refine h.step ?_ hnext
      intro token hdrawn hmem
      have hdisjoint := (List.nodup_append.mp (List.nodup_append.mp hnodup).1).2.2
      exact hdisjoint token hmem token (by rw [hdrawn]; exact List.mem_cons_self) rfl

theorem valid_run {actions : List Action} (clock : ℚ) (hnodup : (tokens actions).Nodup) :
    Valid (tokens actions) (Library.run step (.initial clock) actions).jobs := by
  have hinitial : Valid [] (World.initial clock).jobs :=
    ⟨.nil, by rintro job ⟨⟩, by rintro job ⟨⟩, by rintro job ⟨⟩⟩
  have hvalid : Valid ([] ++ tokens actions) _ := hinitial.run hnodup
  exact hvalid

/-- Whether a call with a token succeeds for a job. -/
def Accepts (world : World) (identity token : String) : Prop :=
  (∃ lease jobs, renew world.jobs world.clock identity token lease = .ok jobs) ∨
    (∃ body jobs, complete world.jobs world.clock identity body (some token) = .ok jobs) ∨
    ∃ error jobs, fail world.jobs world.clock identity error (some token) = .ok jobs

theorem live_spec (h : live now identity token job = true) :
    job.id = identity ∧ job.leaseToken = some token := by
  simp only [live, Bool.and_eq_true, decide_eq_true_eq] at h
  exact ⟨h.1.1.1, h.1.2⟩

theorem held_of_complete {jobs result : List Job} (h : complete jobs now identity body (some token) = .ok result) :
    ∃ job ∈ jobs, live now identity token job = true := by
  simp only [complete, Py.bind_eq_ok_iff, Py.require_eq_ok_iff] at h
  obtain ⟨_, -, _, hchanged, -⟩ := h
  simpa using hchanged

theorem held_of_fail {jobs result : List Job} (h : fail jobs now identity error (some token) = .ok result) :
    ∃ job ∈ jobs, job.id = identity ∧ job.leaseToken = some token := by
  unfold fail at h
  cases hrow : jobs.find? fun job ↦ job.id = identity with
  | none => simp [hrow] at h
  | some row =>
    simp only [hrow, Py.bind_eq_ok_iff, Py.require_eq_ok_iff] at h
    obtain ⟨_, htoken, -⟩ := h
    have hid := List.find?_some hrow
    rw [decide_eq_true_eq] at hid
    refine ⟨row, List.mem_of_find?_eq_some hrow, hid, ?_⟩
    by_contra hother
    simp [refused, hother] at htoken

theorem Accepts.held (h : Accepts world identity token) :
    ∃ job ∈ world.jobs, job.id = identity ∧ job.leaseToken = some token := by
  obtain ⟨lease, jobs, hrenew⟩ | ⟨body, jobs, hcomplete⟩ | ⟨error, jobs, hfail⟩ := h
  · simp only [renew, Py.bind_eq_ok_iff, Py.require_eq_ok_iff] at hrenew
    obtain ⟨_, -, _, hchanged, -⟩ := hrenew
    obtain ⟨job, hjob, hlive⟩ := List.any_eq_true.mp hchanged
    exact ⟨job, hjob, live_spec hlive⟩
  · obtain ⟨job, hjob, hlive⟩ := held_of_complete hcomplete
    exact ⟨job, hjob, live_spec hlive⟩
  · exact held_of_fail hfail

/-- The calls that end the attempt of a token. -/
def Action.Ends (token : String) (action : Action) : Prop :=
  (∃ identity body, action = .complete identity body token) ∨
    ∃ identity error, action = .fail identity error token

theorem Valid.unheld {drawn : List String} {next : World} (h : Valid drawn world.jobs) (hends : action.Ends token)
    (hstep : Jobs.step world action = .ok next) :
    token ∈ drawn ∧ ∀ job ∈ next.jobs, job.leaseToken ≠ some token := by
  obtain ⟨identity, body, rfl⟩ | ⟨identity, error, rfl⟩ := hends
  · obtain ⟨jobs, hcomplete, heq⟩ := Py.of_bind hstep
    cases heq
    obtain ⟨held, hheld, hlive⟩ := held_of_complete hcomplete
    obtain ⟨hid, htoken⟩ := live_spec hlive
    refine ⟨h.issued held hheld token htoken, ?_⟩
    simp only [Jobs.complete, Py.bind_eq_ok_iff, Option.elim_some] at hcomplete
    obtain ⟨_, -, _, -, hupdate⟩ := hcomplete
    intro job hjob hgiven
    obtain ⟨old, hold, rfl⟩ := (mem_update hupdate).mp hjob
    split_ifs at hgiven with hcondition
    · cases hgiven
    · have hsame := eq_of_id h.unique hold hheld (h.owned old hold held hheld token hgiven htoken)
      rw [hsame] at hcondition
      exact hcondition hlive
  · obtain ⟨jobs, hfail, heq⟩ := Py.of_bind hstep
    cases heq
    obtain ⟨held, hheld, hid, htoken⟩ := held_of_fail hfail
    refine ⟨h.issued held hheld token htoken, ?_⟩
    unfold Jobs.fail at hfail
    split at hfail
    · cases hfail
    · rw [Py.bind_eq_ok_iff] at hfail
      obtain ⟨_, -, hupdate⟩ := hfail
      intro job hjob hgiven
      obtain ⟨old, hold, rfl⟩ := (mem_update hupdate).mp hjob
      split_ifs at hgiven with hcondition
      · cases hgiven
      · rw [decide_eq_true_eq] at hcondition
        exact hcondition ((h.owned old hold held hheld token hgiven htoken).trans hid)

theorem not_accepts_of_ended {clock : ℚ} {before after : List Action} {next : World}
    (hnodup : (tokens (before ++ action :: after)).Nodup) (hends : action.Ends token)
    (hstep : step (run step (.initial clock) before) action = .ok next) (identity : String) :
    ¬Accepts (run step (.initial clock) (before ++ action :: after)) identity token := by
  have htokens : tokens (before ++ action :: after) = tokens before ++ tokens after := by
    unfold tokens
    rw [List.filterMap_append]
    obtain ⟨other, body, rfl⟩ | ⟨other, error, rfl⟩ := hends
    · rfl
    · rfl
  rw [htokens] at hnodup
  have hbefore := valid_run clock (List.nodup_append.mp hnodup).1
  obtain ⟨hissued, hunheld⟩ := hbefore.unheld hends hstep
  -- the table is valid without the token, and the rest of the run does not draw it again
  have hnext : Valid ((tokens before).filter (· ≠ token)) next.jobs := by
    have hvalid := hbefore.step (by
      intro drawn hdrawn
      obtain ⟨other, body, rfl⟩ | ⟨other, error, rfl⟩ := hends
      · cases hdrawn
      · cases hdrawn) hstep
    refine ⟨hvalid.unique, hvalid.sound, ?_, hvalid.owned⟩
    intro job hjob found hfound
    refine List.mem_filter.mpr ⟨?_, ?_⟩
    · have hmem := hvalid.issued job hjob found hfound
      obtain ⟨other, body, rfl⟩ | ⟨other, error, rfl⟩ := hends
      · simpa [Action.drawn] using hmem
      · simpa [Action.drawn] using hmem
    · rw [decide_eq_true_eq]
      rintro rfl
      exact hunheld job hjob hfound
  have hafter : Valid ((tokens before).filter (· ≠ token) ++ tokens after) _ :=
    hnext.run (hnodup.sublist (List.filter_sublist.append_right _))
  rintro haccepts
  rw [run_append, run_cons, perform_eq_of_ok hstep] at haccepts
  obtain ⟨job, hjob, -, hgiven⟩ := haccepts.held
  have hmem := hafter.issued job hjob token hgiven
  obtain hold | hnew := List.mem_append.mp hmem
  · exact absurd (List.mem_filter.mp hold).2 (by simp)
  · exact (List.nodup_append.mp hnodup).2.2 token hissued token hnew rfl

theorem length_pending_le {jobs : List Job} (h : jobs.Pairwise Compatible) (key : String) :
    (jobs.filter fun job ↦ job.status.pending && job.dedupeKey = some key).length ≤ 1 := by
  have hpairs := h.filter fun job ↦ job.status.pending && job.dedupeKey = some key
  have hall : ∀ job ∈ jobs.filter (fun job ↦ job.status.pending && job.dedupeKey = some key),
      job.status.pending = true ∧ job.dedupeKey = some key := by
    intro job hjob
    simpa using (List.mem_filter.mp hjob).2
  generalize jobs.filter (fun job ↦ job.status.pending && job.dedupeKey = some key) = found at hpairs hall ⊢
  match found with
  | [] => exact Nat.zero_le _
  | [job] => exact le_rfl
  | job :: other :: rest =>
    obtain ⟨hpending, hkey⟩ := hall job List.mem_cons_self
    obtain ⟨hpending', hkey'⟩ := hall other (List.mem_cons_of_mem _ List.mem_cons_self)
    have hcompatible := (List.pairwise_cons.mp hpairs).1 other List.mem_cons_self
    exact absurd (hkey.trans hkey'.symm) (hcompatible.2 hpending hpending' (by rw [hkey]; rfl))

theorem ready_or_exhausted (h : Sound job) (hdone : job.status ≠ .done) (hdead : job.status ≠ .dead)
    (hrun : job.runAfter ≤ now) (hlease : ∀ lease, job.leaseUntil = some lease → lease ≤ now) :
    ready now job = true ∨ exhausted now job = true := by
  cases hstatus : job.status with
  | done => exact absurd hstatus hdone
  | dead => exact absurd hstatus hdead
  | queued =>
    left
    simp [ready, hstatus, hrun, h.waiting (Or.inl hstatus)]
  | failed =>
    left
    simp [ready, hstatus, hrun, h.waiting (Or.inr hstatus)]
  | running =>
    obtain ⟨lease, hlookup⟩ := Option.isSome_iff_exists.mp (h.leased hstatus)
    by_cases hattempts : job.attempts < job.maxAttempts
    · left
      simp [ready, hstatus, hlookup, hlease lease hlookup, hattempts]
    · right
      simp [exhausted, hstatus, hlookup, hlease lease hlookup, not_lt.mp hattempts]

/-- With different tokens a job has one lease and bounded attempts, and it is never stuck. -/
theorem job_leases_fenced (clock : ℚ) (actions : List Action) (hnodup : (tokens actions).Nodup) :
    let world := run step (.initial clock) actions
    (∀ identity token other, Accepts world identity token → Accepts world identity other → token = other) ∧
    (∀ before action after next token, actions = before ++ action :: after → action.Ends token →
      step (run step (.initial clock) before) action = .ok next → ∀ identity, ¬Accepts world identity token) ∧
    (∀ job ∈ world.jobs, job.attempts ≤ job.maxAttempts) ∧
    (∀ key, (world.jobs.filter fun job ↦ job.status.pending && job.dedupeKey = some key).length ≤ 1) ∧
    ∀ job ∈ world.jobs, job.status ≠ .done → job.status ≠ .dead → ∀ now, job.runAfter ≤ now →
      (∀ lease, job.leaseUntil = some lease → lease ≤ now) →
      ready now job = true ∨ exhausted now job = true := by
  intro world
  have hvalid := valid_run clock hnodup
  refine ⟨?_, ?_, ?_, ?_, ?_⟩
  · intro identity token other haccepts haccepts'
    obtain ⟨job, hjob, hid, htoken⟩ := haccepts.held
    obtain ⟨job', hjob', hid', htoken'⟩ := haccepts'.held
    rw [eq_of_id hvalid.unique hjob hjob' (hid.trans hid'.symm), htoken', Option.some.injEq] at htoken
    exact htoken.symm
  · rintro before action after next token rfl hends hstep identity
    exact not_accepts_of_ended hnodup hends hstep identity
  · intro job hjob
    exact (hvalid.sound job hjob).bounded
  · intro key
    exact length_pending_le hvalid.unique key
  · intro job hjob hdone hdead now hrun hlease
    exact ready_or_exhausted (hvalid.sound job hjob) hdone hdead hrun hlease

/-- A job that is claimed, and one that is claimed and completed. -/
def Sample.actions : List Action :=
  [.enqueue ⟨"ingest", "", some "report", some 0, 3, 0, "job-1"⟩,
    .enqueue ⟨"commit", "", none, some 0, 3, 1, "job-2"⟩, .claim [] (some 600) "token-1",
    .claim [] (some 600) "token-2", .tick 1, .complete "job-2" "null" "token-1"]

theorem job_leases_fenced_sample : (tokens Sample.actions).Nodup ∧
    ¬Accepts (run step (.initial 0) Sample.actions) "job-2" "token-1" := by
  have hnodup : (tokens Sample.actions).Nodup := by decide
  have hcompleted : (step (run step (.initial 0) (Sample.actions.take 5))
      (.complete "job-2" "null" "token-1")).isOk = true := by decide +kernel
  refine ⟨hnodup, ?_⟩
  cases hstep : step (run step (.initial 0) (Sample.actions.take 5)) (.complete "job-2" "null" "token-1") with
  | error error =>
    rw [hstep] at hcompleted
    cases hcompleted
  | ok next =>
    exact (job_leases_fenced 0 Sample.actions hnodup).2.1 (Sample.actions.take 5)
      (.complete "job-2" "null" "token-1") [] next "token-1" rfl (Or.inl ⟨"job-2", "null", rfl⟩) hstep "job-2"

end UniMem.Jobs
