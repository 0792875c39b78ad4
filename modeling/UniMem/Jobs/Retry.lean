import UniMem.Jobs.Leases

/-!
# Retrying dead jobs

A dead job has given up its deduplication key, so the key may have been taken since, or belong to several dead jobs.
`retry` without a job puts all dead jobs back in one update, and the index on pending keys refuses it as a whole.
-/

namespace UniMem.Jobs

open Library

/-- A call of a worker, or of an operator, who needs no token. -/
inductive Call where
  | tick (elapsed : NNRat)
  | enqueue (given : Enqueue)
  | claim (kinds : List String) (lease : Option ℚ) (token : String)
  | renew (identity token : String) (lease : Option ℚ)
  | complete (identity body : String) (token : Option String)
  | fail (identity error : String) (token : Option String)
  | retry (identity : Option String)
  | purge (olderThanDays : ℚ)

/-- One call. -/
def Call.step (world : World) : Call → Py World
  | .tick elapsed => .ok { world with clock := world.clock + elapsed }
  | .enqueue given => do return { world with jobs := ← Jobs.enqueue world.jobs world.clock given }
  | .claim kinds lease token => do return { world with jobs := ← Jobs.claim world.jobs world.clock kinds lease token }
  | .renew identity token lease => do
    return { world with jobs := ← Jobs.renew world.jobs world.clock identity token lease }
  | .complete identity body token => do
    return { world with jobs := ← Jobs.complete world.jobs world.clock identity body token }
  | .fail identity error token => do
    return { world with jobs := ← Jobs.fail world.jobs world.clock identity error token }
  | .retry identity => do return { world with jobs := ← Jobs.retry world.jobs world.clock identity }
  | .purge olderThanDays => .ok { world with jobs := Jobs.purge world.jobs world.clock olderThanDays }

section Index

variable {jobs result : List Job} {condition : Job → Bool} {change : Job → Job}

theorem pairwise_of_update (h : update condition change jobs = .ok result) : result.Pairwise Compatible := by
  obtain ⟨hpairs, rfl⟩ := written_eq_ok_iff.mp h
  exact hpairs

theorem pairwise_enqueue {now : ℚ} {given : Enqueue} (hpairs : jobs.Pairwise Compatible)
    (h : enqueue jobs now given = .ok result) : result.Pairwise Compatible := by
  simp only [enqueue, Py.bind_eq_ok_iff] at h
  obtain ⟨_, -, h⟩ := h
  cases hdelay : given.delay with
  | none => simp [hdelay] at h
  | some delay =>
    simp only [hdelay, Py.bind_eq_ok_iff] at h
    obtain ⟨_, -, h⟩ := h
    split_ifs at h
    · cases h
      exact hpairs
    · obtain ⟨hwritten, rfl⟩ := written_eq_ok_iff.mp h
      exact hwritten

theorem pairwise_claim {now : ℚ} {kinds : List String} {lease : Option ℚ} {token : String}
    (h : claim jobs now kinds lease token = .ok result) : result.Pairwise Compatible := by
  cases lease with
  | none => cases h
  | some lease =>
    simp only [claim, Py.bind_eq_ok_iff] at h
    obtain ⟨rows, hrows, h⟩ := h
    cases hnext : next rows now kinds with
    | none =>
      rw [hnext] at h
      cases h
      exact pairwise_of_update hrows
    | some chosen =>
      rw [hnext] at h
      exact pairwise_of_update h

theorem Call.pairwise_step {world next : World} {call : Call} (hpairs : world.jobs.Pairwise Compatible)
    (h : call.step world = .ok next) : next.jobs.Pairwise Compatible := by
  cases call with
  | tick elapsed =>
    cases h
    exact hpairs
  | enqueue given =>
    obtain ⟨jobs, hjobs, rfl⟩ := Py.map_eq_ok_iff.mp h
    exact pairwise_enqueue hpairs hjobs
  | claim kinds lease token =>
    obtain ⟨jobs, hjobs, rfl⟩ := Py.map_eq_ok_iff.mp h
    exact pairwise_claim hjobs
  | renew identity token lease =>
    obtain ⟨jobs, hjobs, rfl⟩ := Py.map_eq_ok_iff.mp h
    simp only [Jobs.renew, Py.bind_eq_ok_iff] at hjobs
    obtain ⟨_, -, _, -, hjobs⟩ := hjobs
    exact pairwise_of_update hjobs
  | complete identity body token =>
    obtain ⟨jobs, hjobs, rfl⟩ := Py.map_eq_ok_iff.mp h
    simp only [Jobs.complete, Py.bind_eq_ok_iff] at hjobs
    obtain ⟨_, -, _, -, hjobs⟩ := hjobs
    exact pairwise_of_update hjobs
  | fail identity error token =>
    obtain ⟨jobs, hjobs, rfl⟩ := Py.map_eq_ok_iff.mp h
    unfold Jobs.fail at hjobs
    split at hjobs
    · cases hjobs
    · obtain ⟨_, hjobs⟩ := Py.of_rest hjobs
      exact pairwise_of_update hjobs
  | retry identity =>
    obtain ⟨jobs, hjobs, rfl⟩ := Py.map_eq_ok_iff.mp h
    unfold Jobs.retry at hjobs
    split at hjobs
    · exact pairwise_of_update hjobs
    · exact pairwise_of_update hjobs
  | purge olderThanDays =>
    cases h
    exact hpairs.filter _

theorem pairwise_run (clock : ℚ) (calls : List Call) :
    (run Call.step (.initial clock) calls).jobs.Pairwise Compatible := by
  apply @run_invariant _ _ _ Call.step _ fun world ↦ world.jobs.Pairwise Compatible
  · exact fun _ _ _ hpairs h ↦ Call.pairwise_step hpairs h
  · exact List.Pairwise.nil

end Index

/-- The key of a dead job belongs to no other job that is dead or pending. -/
def KeysFree (jobs : List Job) : Prop :=
  jobs.Pairwise fun first second ↦
    (first.status = .dead ∨ second.status = .dead) → first.status ≠ .done → second.status ≠ .done →
      first.dedupeKey.isSome = true → first.dedupeKey ≠ second.dedupeKey

/-- `retry` returns, no dead job is left dead, and the constraints of the table hold. -/
def Requeued (jobs : List Job) (now : ℚ) : Prop :=
  ∃ result, retry jobs now none = .ok result ∧
    (∀ old ∈ jobs, old.status = .dead → ∀ job ∈ result, job.id = old.id → job.status ≠ .dead) ∧
    result.Pairwise Compatible

/-- A row after `retry`. -/
def Job.revive (now : ℚ) (job : Job) : Job := if job.status = .dead then job.requeue now else job

theorem id_revive (now : ℚ) (job : Job) : (job.revive now).id = job.id := by
  unfold Job.revive
  split <;> rfl

theorem dedupeKey_revive (now : ℚ) (job : Job) : (job.revive now).dedupeKey = job.dedupeKey := by
  unfold Job.revive
  split <;> rfl

theorem status_revive_ne_dead (now : ℚ) (job : Job) : (job.revive now).status ≠ .dead := by
  unfold Job.revive
  split
  · exact nofun
  · assumption

theorem pending_revive (now : ℚ) (job : Job) : (job.revive now).status.pending = true ↔ job.status ≠ .done := by
  unfold Job.revive
  split
  · next h =>
    rw [h]
    exact ⟨fun _ ↦ nofun, fun _ ↦ rfl⟩
  · next h =>
    cases hstatus : job.status <;> simp_all [Status.pending]

theorem retry_eq (jobs : List Job) (now : ℚ) : retry jobs now none = written (jobs.map (Job.revive now)) := by
  show written _ = _
  refine congrArg written (List.map_congr_left fun job _ ↦ ?_)
  by_cases h : job.status = .dead
  · simp [Job.revive, h]
  · simp [Job.revive, h]

theorem pairwise_revive_iff {jobs : List Job} (h : jobs.Pairwise Compatible) (now : ℚ) :
    (jobs.map (Job.revive now)).Pairwise Compatible ↔ KeysFree jobs := by
  rw [List.pairwise_map, KeysFree]
  constructor
  · intro hrevived
    refine hrevived.imp ?_
    intro first second hpair _ hfirst hsecond
    have hkeys := hpair.2 ((pending_revive now first).mpr hfirst) ((pending_revive now second).mpr hsecond)
    rwa [dedupeKey_revive, dedupeKey_revive] at hkeys
  · intro hfree
    refine (h.and hfree).imp ?_
    rintro first second ⟨hcompatible, hpair⟩
    refine ⟨?_, ?_⟩
    · rw [id_revive, id_revive]
      exact hcompatible.1
    · rw [pending_revive, pending_revive, dedupeKey_revive, dedupeKey_revive]
      intro hfirst hsecond hsome
      by_cases hdead : first.status = .dead ∨ second.status = .dead
      · exact hpair hdead hfirst hsecond hsome
      · obtain ⟨hdead, hdead'⟩ := not_or.mp hdead
        have hpending : first.status.pending = true := by
          cases hstatus : first.status <;> simp_all [Status.pending]
        have hpending' : second.status.pending = true := by
          cases hstatus : second.status <;> simp_all [Status.pending]
        exact hcompatible.2 hpending hpending' hsome

/-- `retry` puts all dead jobs back exactly when no dead job shares its key with another one. -/
theorem retry_requeues_iff (clock : ℚ) (calls : List Call) :
    let world := run Call.step (.initial clock) calls
    Requeued world.jobs world.clock ↔ KeysFree world.jobs := by
  intro world
  have hpairs : world.jobs.Pairwise Compatible := pairwise_run clock calls
  rw [← pairwise_revive_iff hpairs world.clock, Requeued, retry_eq]
  constructor
  · rintro ⟨result, hresult, -⟩
    exact (written_eq_ok_iff.mp hresult).1
  · intro hrevived
    refine ⟨_, written_eq_ok_iff.mpr ⟨hrevived, rfl⟩, ?_, hrevived⟩
    intro old _ _ job hjob _
    obtain ⟨source, -, rfl⟩ := List.mem_map.mp hjob
    exact status_revive_ne_dead _ _

/-- A job dies, and its key is taken again. -/
def Sample.taken : List Call :=
  [.enqueue ⟨"index", "", some "all", some 0, 1, 0, "job-1"⟩, .claim [] (some 600) "token-1",
    .fail "job-1" "stopped" (some "token-1"), .enqueue ⟨"index", "", some "all", some 0, 1, 0, "job-2"⟩]

theorem retry_of_taken_key_raises :
    ¬Requeued (run Call.step (.initial 0) Sample.taken).jobs (run Call.step (.initial 0) Sample.taken).clock := by
  have hraises : (retry (run Call.step (.initial 0) Sample.taken).jobs
      (run Call.step (.initial 0) Sample.taken).clock none).isOk = false := by
    decide +kernel
  rintro ⟨result, hresult, -⟩
  rw [hresult] at hraises
  cases hraises

end UniMem.Jobs
