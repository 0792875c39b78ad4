import UniMem.TeamIsolation.Transactions

/-!
# Fenced writes

`_fence` accepts only the last token that was granted for a work item. A sequenced write passes it again before it
commits under the lock, so no larger token was granted before.
-/

namespace UniMem.TeamIsolation

open Library FrontierProtocol

/-- The leases that were granted, in order. -/
def granted (history : List Event) : List Lease :=
  history.filterMap fun event ↦
    match event with
    | .granted lease => some lease
    | .committed _ => none

/-- A commit in sequenced mode that carries a token for a work item. -/
def Commit.Carries (commit : Commit) (space item : String) (token : ℤ) : Prop :=
  ∃ check, commit.kind = .checked check ∧ check.settings.level = .sequenced ∧
    check.value.claimed.space = space ∧ check.value.claimed.item = item ∧
    check.value.claimed.fencingToken = some token

/-- An earlier grant does not exceed the token of a later commit. -/
def NotFenced (earlier later : Event) : Prop :=
  ∀ lease commit token, earlier = .granted lease → later = .committed commit →
    commit.Carries lease.space lease.item token → lease.fence ≤ token

/-- What holds of the leases of a team in every run. -/
structure Fenced (world : World) : Prop where
  bounded : ∀ lease ∈ granted world.history, ∃ row,
    findLease world.leases lease.space lease.item = some row ∧ lease.fence ≤ row.fence
  increasing : (granted world.history).Pairwise fun earlier later ↦
    earlier.space = later.space → earlier.item = later.item → earlier.fence < later.fence
  commits : world.history.Pairwise NotFenced
  validated : ∀ write check, world.active = some write → write.validated = true →
    write.kind = .checked check → check.settings.level = .sequenced →
    ∃ row, findLease world.leases check.value.claimed.space check.value.claimed.item = some row ∧
      some row.fence = check.value.claimed.fencingToken

theorem granted_append_granted (history : List Event) (lease : Lease) :
    granted (history ++ [.granted lease]) = granted history ++ [lease] := by
  simp [granted, List.filterMap_append]

theorem granted_append_committed (history : List Event) (commit : Commit) :
    granted (history ++ [.committed commit]) = granted history := by
  simp [granted, List.filterMap_append]

variable {lease : Lease} {leases : List Lease}

theorem mem_granted {history : List Event} :
    lease ∈ granted history ↔ .granted lease ∈ history := by
  unfold granted
  rw [List.mem_filterMap]
  constructor
  · rintro ⟨event, hevent, heq⟩
    cases event with
    | granted other =>
      cases heq
      exact hevent
    | committed commit => cases heq
  · intro h
    exact ⟨_, h, rfl⟩

theorem bounded_putLease
    (hgrows : ∀ row, findLease leases lease.space lease.item = some row → row.fence ≤ lease.fence)
    {space item : String} {token : ℤ} (h : ∃ row, findLease leases space item = some row ∧ token ≤ row.fence) :
    ∃ row, findLease (putLease leases lease) space item = some row ∧ token ≤ row.fence := by
  obtain ⟨row, hrow, hle⟩ := h
  rw [findLease_putLease]
  split_ifs with hkey
  · obtain ⟨rfl, rfl⟩ := hkey
    exact ⟨lease, rfl, hle.trans (hgrows row hrow)⟩
  · exact ⟨row, hrow, hle⟩

theorem fence_lt_of_grant {config : Config} {now : ℤ} {request : LeaseRequest} {row : Lease}
    (h : grantLease config leases now request = .ok lease)
    (hrow : findLease leases lease.space lease.item = some row) : row.fence < lease.fence := by
  obtain ⟨hspace, hitem, -, -, -, -, hfence⟩ := grantLease_spec h
  rw [← hspace, ← hitem, hrow, Option.elim_some] at hfence
  omega

theorem fence_eq_ok {now : ℤ} {settings : Space} {principal : String} {claimed : Claimed}
    (h : fence leases now settings principal claimed = .ok ()) (hlevel : settings.level = .sequenced) :
    accepts leases now principal claimed = true := by
  unfold fence at h
  rw [if_neg (not_not.mpr hlevel)] at h
  split_ifs at h
  exact Py.require_eq_ok_iff.mp h

theorem fence_of_checkAfter {team : Team} {now : ℤ} {caller : Caller} {check : Check} {facts : Facts}
    (h : checkAfter team leases now caller check facts = .ok ()) :
    fence leases now check.settings caller.principal check.value.claimed = .ok () := by
  simp only [checkAfter, Py.bind_eq_ok_iff] at h
  obtain ⟨_, -, _, -, _, -, _, -, _, -, hfence⟩ := h
  exact hfence

theorem Fenced.moved {team : Team} {world next : World} (h : Fenced world) (hmoved : Moved team world next) :
    Fenced next := by
  cases hmoved with
  | ticked microseconds => exact ⟨h.bounded, h.increasing, h.commits, h.validated⟩
  | leased request lease hfree hgrant =>
    have hgrows : ∀ row, findLease world.leases lease.space lease.item = some row →
        row.fence < lease.fence := fun row ↦ fence_lt_of_grant hgrant
    refine ⟨?_, ?_, ?_, ?_⟩
    · rw [granted_append_granted, List.forall_mem_append, List.forall_mem_singleton]
      constructor
      · intro earlier hearlier
        exact bounded_putLease (fun row hrow ↦ (hgrows row hrow).le) (h.bounded earlier hearlier)
      · refine ⟨lease, ?_, le_rfl⟩
        rw [findLease_putLease, if_pos ⟨rfl, rfl⟩]
    · rw [granted_append_granted, List.pairwise_append]
      refine ⟨h.increasing, List.pairwise_singleton _ _, ?_⟩
      intro earlier hearlier later hlater hspace hitem
      rw [List.mem_singleton] at hlater
      subst hlater
      obtain ⟨row, hrow, hle⟩ := h.bounded earlier hearlier
      rw [hspace, hitem] at hrow
      exact hle.trans_lt (hgrows row hrow)
    · rw [List.pairwise_append]
      refine ⟨h.commits, List.pairwise_singleton _ _, ?_⟩
      intro earlier _ later hlater other commit token _ hcommit
      rw [List.mem_singleton, hcommit] at hlater
      cases hlater
    · intro write check hactive hvalidated
      rw [hfree write hactive] at hvalidated
      cases hvalidated
  | released request lease hfree hrelease =>
    obtain ⟨row, hrow, rfl⟩ := releaseLease_spec hrelease
    obtain ⟨-, hspace, hitem⟩ := findLease_eq_some hrow
    refine ⟨?_, h.increasing, h.commits, ?_⟩
    · intro earlier hearlier
      refine bounded_putLease ?_ (h.bounded earlier hearlier)
      intro other hother
      change findLease world.leases row.space row.item = some other at hother
      rw [hspace, hitem, hrow, Option.some.injEq] at hother
      rw [hother]
    · intro write check hactive hvalidated
      rw [hfree write hactive] at hvalidated
      cases hvalidated
  | began thread caller erasure arguments kind hactive hkind =>
    refine ⟨h.bounded, h.increasing, h.commits, ?_⟩
    rintro write check ⟨⟩ hvalidated
    cases hvalidated
  | edited write facts hactive hrunning =>
    refine ⟨h.bounded, h.increasing, h.commits, ?_⟩
    rintro _ check ⟨⟩ hvalidated
    rw [hrunning] at hvalidated
    cases hvalidated
  | validated write hactive hchecks =>
    refine ⟨h.bounded, h.increasing, h.commits, ?_⟩
    rintro _ check ⟨⟩ - hkind hlevel
    change write.kind = .checked check at hkind
    rw [lastChecks, hkind] at hchecks
    obtain ⟨row, hrow, -, htoken, -⟩ :=
      accepts_iff.mp (fence_eq_ok (fence_of_checkAfter hchecks) hlevel)
    exact ⟨row, hrow, htoken⟩
  | committed write hactive hvalidated =>
    refine ⟨?_, ?_, ?_, ?_⟩
    · rw [granted_append_committed]
      exact h.bounded
    · rw [granted_append_committed]
      exact h.increasing
    · rw [List.pairwise_append]
      refine ⟨h.commits, List.pairwise_singleton _ _, ?_⟩
      intro earlier hearlier later hlater lease commit token hgranted hcommit hcarries
      rw [List.mem_singleton, hcommit, Event.committed.injEq] at hlater
      subst hlater hgranted
      obtain ⟨check, hkind, hlevel, hspace, hitem, htoken⟩ := hcarries
      obtain ⟨row, hrow, hfence⟩ := h.validated write check hactive hvalidated hkind hlevel
      obtain ⟨last, hlast, hle⟩ := h.bounded lease (mem_granted.mpr hearlier)
      rw [← hspace, ← hitem, hrow, Option.some.injEq] at hlast
      rw [htoken, Option.some.injEq] at hfence
      rw [← hfence, hlast]
      exact hle
    · rintro write check ⟨⟩
  | ended =>
    refine ⟨h.bounded, h.increasing, h.commits, ?_⟩
    rintro write check ⟨⟩

theorem fenced_run (team : Team) (facts : Facts) (clock : ℤ) (actions : List Action) :
    Fenced (run (step team) (.initial facts clock) actions) := by
  refine run_invariant (fun world action next h hstep ↦ h.moved (moved_of_step hstep)) ?_ actions
  refine ⟨?_, .nil, .nil, ?_⟩
  · simp [World.initial, granted]
  · rintro write check ⟨⟩

/-- Tokens increase, one principal holds each, and no write commits behind a larger one. -/
theorem team_writes_fenced (team : Team) (facts : Facts) (clock : ℤ) (actions : List Action) :
    let world := run (step team) (.initial facts clock) actions
    (∀ space item, (((granted world.history).filter fun lease ↦
        lease.space = space ∧ lease.item = item).map Lease.fence).Pairwise (· < ·)) ∧
      (∀ principal other claimed claimed', claimed.space = claimed'.space → claimed.item = claimed'.item →
        accepts world.leases world.clock principal claimed = true →
        accepts world.leases world.clock other claimed' = true →
        principal = other ∧ claimed.fencingToken = claimed'.fencingToken) ∧
      ∀ before after lease commit token, world.history = before ++ .committed commit :: after →
        commit.Carries lease.space lease.item token → .granted lease ∈ before → lease.fence ≤ token := by
  intro world
  have hfenced := fenced_run team facts clock actions
  refine ⟨?_, ?_, ?_⟩
  · intro space item
    rw [List.pairwise_map]
    refine (hfenced.increasing.filter _).imp_of_mem ?_
    intro earlier later hearlier hlater hless
    have hkey := of_decide_eq_true (List.mem_filter.mp hearlier).2
    have hkey' := of_decide_eq_true (List.mem_filter.mp hlater).2
    exact hless (hkey.1.trans hkey'.1.symm) (hkey.2.trans hkey'.2.symm)
  · intro principal other claimed claimed' hspace hitem haccepts haccepts'
    obtain ⟨row, hrow, hprincipal, htoken, -⟩ := accepts_iff.mp haccepts
    obtain ⟨row', hrow', hprincipal', htoken', -⟩ := accepts_iff.mp haccepts'
    rw [hspace, hitem, hrow', Option.some.injEq] at hrow
    subst hrow
    exact ⟨hprincipal.symm.trans hprincipal', htoken.symm.trans htoken'⟩
  · intro before after lease commit token hhistory hcarries hgranted
    have hpairs := hfenced.commits
    rw [hhistory, List.pairwise_append] at hpairs
    exact hpairs.2.2 _ hgranted _ List.mem_cons_self lease commit token rfl rfl hcarries

end UniMem.TeamIsolation
