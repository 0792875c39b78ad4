import UniMem.Library.Json
import UniMem.Library.Transitions

/-!
# The provider circuit

A call enters and leaves the circuit in two critical sections, and what it does in the second depends on the
generation it saw in the first. Steps interleave in any order. Moments are rational numbers.
-/

namespace UniMem.CircuitBreaker

open Library

/-- The arguments of `CircuitBreaker`. -/
structure Settings where
  threshold : ℕ
  recoverySeconds : ℚ
  threshold_pos : 1 ≤ threshold
  recoverySeconds_pos : 0 < recoverySeconds

/-- The fields that the lock guards. -/
structure Circuit where
  failures : ℕ
  generation : ℕ
  opened : Option ℚ
  probe : Bool
  deriving DecidableEq

def Circuit.initial : Circuit := ⟨0, 0, none, false⟩

/-- The variables of an admitted call. -/
structure Ticket where
  probe : Bool
  generation : ℕ
  deriving DecidableEq

/-- Why a step does not take place. -/
inductive Refusal where
  /-- `CircuitOpenError`. -/
  | circuitOpen (retryAfter : ℚ)
  /-- A thread is in one call at a time. -/
  | running
  | notRunning
  deriving DecidableEq

/-- The first critical section of `call`. -/
def enter (settings : Settings) (circuit : Circuit) (now : ℚ) : Except Refusal (Circuit × Ticket) :=
  match circuit.opened with
  | none => .ok (circuit, ⟨false, circuit.generation⟩)
  | some opened =>
    let remaining := settings.recoverySeconds - (now - opened)
    if 0 < remaining ∨ circuit.probe = true then .error (.circuitOpen (max 0 remaining))
    else .ok ({ circuit with probe := true }, ⟨true, circuit.generation⟩)

/-- How the provider's function ends. -/
inductive Outcome where
  | success
  /-- An `Exception` that the classifier counts. -/
  | transient
  | permanent
  /-- A `BaseException` that is no `Exception`. -/
  | cancelled
  /-- The classifier raises. -/
  | unclassified
  deriving DecidableEq

/-- The probe of a call is over. -/
def Circuit.release (circuit : Circuit) (ticket : Ticket) : Circuit :=
  { circuit with probe := circuit.probe && !ticket.probe }

/-- The provider was reached: a probe closes the circuit. -/
def Circuit.reached (circuit : Circuit) (ticket : Ticket) : Circuit :=
  if ticket.probe then
    { failures := 0, generation := circuit.generation + 1, opened := none, probe := false }
  else { circuit with failures := 0 }

/-- A failure of a probe, or the last one below the threshold, opens the circuit. -/
def Circuit.failed (settings : Settings) (circuit : Circuit) (ticket : Ticket) (now : ℚ) : Circuit :=
  let circuit := { circuit.release ticket with failures := circuit.failures + 1 }
  if ticket.probe = true ∨ settings.threshold ≤ circuit.failures then
    { circuit with opened := some now, generation := circuit.generation + 1 }
  else circuit

/-- The second critical section of `call`. -/
def leave (settings : Settings) (circuit : Circuit) (ticket : Ticket) (outcome : Outcome) (now : ℚ) : Circuit :=
  if circuit.generation = ticket.generation then
    match outcome with
    | .success => circuit.reached ticket
    | .transient => circuit.failed settings ticket now
    | .permanent => circuit.reached ticket
    | .cancelled => circuit.release ticket
    | .unclassified => circuit.release ticket
  else circuit

/-- The circuit with the calls that are in flight, by thread. -/
structure World where
  circuit : Circuit
  calls : List (ℕ × Ticket)

def World.initial : World := ⟨.initial, []⟩

inductive Action where
  | enter (thread : ℕ) (now : ℚ)
  | leave (thread : ℕ) (outcome : Outcome) (now : ℚ)

/-- The reading of the clock in the critical section. -/
def Action.now : Action → ℚ
  | enter _ now => now
  | leave _ _ now => now

def step (settings : Settings) (world : World) : Action → Except Refusal World
  | .enter thread now =>
    match world.calls.lookup thread with
    | some _ => .error .running
    | none => do
      let (circuit, ticket) ← CircuitBreaker.enter settings world.circuit now
      return ⟨circuit, (thread, ticket) :: world.calls⟩
  | .leave thread outcome now =>
    match world.calls.lookup thread with
    | none => .error .notRunning
    | some ticket =>
      .ok ⟨CircuitBreaker.leave settings world.circuit ticket outcome now, world.calls.erase (thread, ticket)⟩

/-- The world after some actions. -/
def worldAfter (settings : Settings) (actions : List Action) : World := run (step settings) World.initial actions

variable {settings : Settings} {circuit next : Circuit} {ticket : Ticket} {world : World} {thread : ℕ}
  {outcome : Outcome} {now : ℚ}

theorem enter_eq_ok_iff : enter settings circuit now = .ok (next, ticket) ↔
    circuit.opened = none ∧ next = circuit ∧ ticket = ⟨false, circuit.generation⟩ ∨
    ∃ opened, circuit.opened = some opened ∧ opened + settings.recoverySeconds ≤ now ∧ circuit.probe = false ∧
      next = { circuit with probe := true } ∧ ticket = ⟨true, circuit.generation⟩ := by
  unfold enter
  cases hopened : circuit.opened with
  | none =>
    rw [Except.ok.injEq, Prod.mk.injEq]
    constructor
    · rintro ⟨rfl, rfl⟩
      exact .inl ⟨rfl, rfl, rfl⟩
    · rintro (⟨-, rfl, rfl⟩ | ⟨_, h, -⟩)
      · exact ⟨rfl, rfl⟩
      · cases h
  | some opened =>
    dsimp only
    by_cases hwait : 0 < settings.recoverySeconds - (now - opened) ∨ circuit.probe = true
    · rw [if_pos hwait]
      constructor
      · exact fun h ↦ by cases h
      · rintro (⟨h, -⟩ | ⟨other, hother, hlate, hprobe, -⟩)
        · cases h
        · obtain rfl := Option.some.inj hother
          rw [hprobe] at hwait
          obtain hwait | hheld := hwait
          · linarith
          · cases hheld
    · rw [if_neg hwait]
      rw [not_or, not_lt, Bool.not_eq_true] at hwait
      have hlate : opened + settings.recoverySeconds ≤ now := by linarith [hwait.1]
      constructor
      · intro h
        obtain ⟨rfl, rfl⟩ := Prod.mk.inj (Except.ok.inj h)
        exact .inr ⟨opened, rfl, hlate, hwait.2, rfl, rfl⟩
      · rintro (⟨h, -⟩ | ⟨_, _, _, _, rfl, rfl⟩)
        · cases h
        · rfl

theorem leave_of_stale (h : ticket.generation < circuit.generation) :
    leave settings circuit ticket outcome now = circuit :=
  if_neg h.ne'

/-- What a call of the current generation does when it ends. -/
theorem leave_cases (hcurrent : circuit.generation = ticket.generation) :
    leave settings circuit ticket outcome now = circuit.release ticket ∨
    (ticket.probe = false ∧ ∃ failures < settings.threshold,
      leave settings circuit ticket outcome now = { circuit with failures }) ∨
    (ticket.probe = true ∧ leave settings circuit ticket outcome now =
      { failures := 0, generation := circuit.generation + 1, opened := none, probe := false }) ∨
    ∃ failures, leave settings circuit ticket outcome now =
      { circuit.release ticket with failures, generation := circuit.generation + 1, opened := some now } := by
  have hreached : (ticket.probe = false ∧ ∃ failures < settings.threshold,
        circuit.reached ticket = { circuit with failures }) ∨
      (ticket.probe = true ∧ circuit.reached ticket =
        { failures := 0, generation := circuit.generation + 1, opened := none, probe := false }) := by
    unfold Circuit.reached
    cases ticket.probe with
    | false => exact .inl ⟨rfl, 0, settings.threshold_pos, rfl⟩
    | true => exact .inr ⟨rfl, rfl⟩
  unfold leave
  rw [if_pos hcurrent]
  cases outcome with
  | success => exact .inr (hreached.imp_right .inl)
  | permanent => exact .inr (hreached.imp_right .inl)
  | cancelled => exact .inl rfl
  | unclassified => exact .inl rfl
  | transient =>
    dsimp only [Circuit.failed]
    by_cases hopens : ticket.probe = true ∨ settings.threshold ≤ circuit.failures + 1
    · rw [if_pos hopens]
      exact .inr (.inr (.inr ⟨_, rfl⟩))
    · rw [if_neg hopens]
      rw [not_or, Bool.not_eq_true, not_le] at hopens
      refine .inr (.inl ⟨hopens.1, _, hopens.2, ?_⟩)
      rw [Circuit.release, hopens.1, Bool.not_false, Bool.and_true]

/-- The calls in flight that hold the probe. -/
def World.probes (world : World) : List (ℕ × Ticket) := world.calls.filter (·.2.probe)

/-- The probe is that of one call of its generation; others of an open circuit are gone. -/
structure Sound (settings : Settings) (world : World) : Prop where
  reserved : world.probes.length = if world.circuit.probe then 1 else 0
  generation_le : ∀ call ∈ world.calls, call.2.generation ≤ world.circuit.generation
  probes : ∀ call ∈ world.calls, call.2.probe = true → call.2.generation = world.circuit.generation
  fenced : world.circuit.opened ≠ none → ∀ call ∈ world.calls,
    call.2.generation = world.circuit.generation → call.2.probe = true
  closed : world.circuit.opened = none → world.circuit.probe = false ∧ world.circuit.failures < settings.threshold

theorem sound_initial : Sound settings World.initial :=
  ⟨rfl, fun _ h ↦ absurd h List.not_mem_nil, fun _ h ↦ absurd h List.not_mem_nil,
    fun h ↦ absurd rfl h, fun _ ↦ ⟨rfl, settings.threshold_pos⟩⟩

theorem Sound.enter (h : Sound settings world) (henter : enter settings world.circuit now = .ok (next, ticket)) :
    Sound settings ⟨next, (thread, ticket) :: world.calls⟩ := by
  obtain ⟨hclosed, rfl, rfl⟩ | ⟨opened, hopened, -, hfree, rfl, rfl⟩ := enter_eq_ok_iff.mp henter
  · refine ⟨h.reserved, List.forall_mem_cons.mpr ⟨le_rfl, h.generation_le⟩,
      List.forall_mem_cons.mpr ⟨fun hprobe ↦ absurd hprobe (by simp), h.probes⟩,
      fun hopened ↦ absurd hclosed hopened, h.closed⟩
  · have hnone : world.probes = [] := by
      have hlength := h.reserved
      rw [hfree] at hlength
      exact List.eq_nil_of_length_eq_zero hlength
    refine ⟨?_, List.forall_mem_cons.mpr ⟨le_rfl, h.generation_le⟩,
      List.forall_mem_cons.mpr ⟨fun _ ↦ rfl, h.probes⟩, fun _ ↦ List.forall_mem_cons.mpr ⟨fun _ ↦ rfl, ?_⟩,
      fun hclosed ↦ ?_⟩
    · rw [World.probes, List.filter_cons_of_pos rfl]
      exact congrArg (fun probes : List (ℕ × Ticket) ↦ probes.length + 1) hnone
    · exact h.fenced (hopened ▸ Option.some_ne_none opened)
    · rw [hopened] at hclosed
      cases hclosed

theorem length_probes_erase (hmem : (thread, ticket) ∈ world.calls) :
    world.probes.length = ((world.calls.erase (thread, ticket)).filter (·.2.probe)).length +
      if ticket.probe then 1 else 0 := by
  rw [World.probes, ((List.perm_cons_erase hmem).filter _).length_eq, List.filter_cons]
  cases ticket.probe with
  | false => rfl
  | true => rfl

theorem Sound.leave (h : Sound settings world) (hmem : (thread, ticket) ∈ world.calls) :
    Sound settings ⟨leave settings world.circuit ticket outcome now, world.calls.erase (thread, ticket)⟩ := by
  have hsub : ∀ call ∈ world.calls.erase (thread, ticket), call ∈ world.calls := fun _ ↦ List.mem_of_mem_erase
  have hremain := length_probes_erase hmem
  rw [h.reserved] at hremain
  obtain hstale | hcurrent := (h.generation_le _ hmem).lt_or_eq
  · have hplain : ticket.probe = false :=
      Bool.eq_false_iff.mpr fun hprobe ↦ hstale.ne (h.probes _ hmem hprobe)
    rw [leave_of_stale hstale]
    rw [hplain] at hremain
    exact ⟨hremain.symm, fun call hcall ↦ h.generation_le call (hsub call hcall),
      fun call hcall ↦ h.probes call (hsub call hcall),
      fun hopened call hcall ↦ h.fenced hopened call (hsub call hcall), h.closed⟩
  -- A call of the current generation holds the probe of an open circuit, and a closed circuit has none.
  have hreleased : (world.circuit.release ticket).probe = false := by
    rw [Circuit.release]
    cases hprobe : ticket.probe with
    | true => rw [Bool.not_true, Bool.and_false]
    | false =>
      have hclosed : world.circuit.opened = none := by
        by_contra hopened
        rw [h.fenced hopened _ hmem hcurrent] at hprobe
        cases hprobe
      rw [(h.closed hclosed).1, Bool.false_and]
  have hnone : (world.calls.erase (thread, ticket)).filter (·.2.probe) = [] := by
    apply List.eq_nil_of_length_eq_zero
    rw [Circuit.release] at hreleased
    cases hprobe : ticket.probe with
    | false =>
      rw [hprobe, Bool.not_false, Bool.and_true] at hreleased
      rw [hprobe, hreleased] at hremain
      exact hremain.symm
    | true =>
      rw [hprobe] at hremain
      cases hheld : world.circuit.probe with
      | false =>
        rw [hheld] at hremain
        exact absurd hremain (by simp)
      | true =>
        rw [hheld] at hremain
        exact (Nat.succ.inj hremain).symm
  have hplain : ∀ call ∈ world.calls.erase (thread, ticket), call.2.probe ≠ true :=
    List.filter_eq_nil_iff.mp hnone
  have hbelow : ∀ call ∈ world.calls.erase (thread, ticket), call.2.generation < world.circuit.generation + 1 :=
    fun call hcall ↦ Nat.lt_succ_of_le (h.generation_le call (hsub call hcall))
  obtain hleave | ⟨hprobe, failures, hfailures, hleave⟩ | ⟨-, hleave⟩ | ⟨failures, hleave⟩ :=
    @leave_cases settings world.circuit ticket outcome now hcurrent.symm
  · rw [hleave]
    refine ⟨?_, fun call hcall ↦ h.generation_le call (hsub call hcall),
      fun call hcall hprobe ↦ absurd hprobe (hplain call hcall),
      fun hopened call hcall ↦ h.fenced hopened call (hsub call hcall), fun hclosed ↦
        ⟨hreleased, (h.closed hclosed).2⟩⟩
    rw [World.probes, hnone, hreleased]
    rfl
  · rw [hleave]
    refine ⟨?_, fun call hcall ↦ h.generation_le call (hsub call hcall),
      fun call hcall hprobe ↦ absurd hprobe (hplain call hcall),
      fun hopened call hcall ↦ h.fenced hopened call (hsub call hcall), fun hclosed ↦
        ⟨(h.closed hclosed).1, hfailures⟩⟩
    rw [Circuit.release, hprobe, Bool.not_false, Bool.and_true] at hreleased
    rw [World.probes, hnone]
    dsimp only
    rw [hreleased]
    rfl
  · rw [hleave]
    refine ⟨?_, fun call hcall ↦ (hbelow call hcall).le, fun call hcall hprobe ↦ absurd hprobe (hplain call hcall),
      fun hopened ↦ absurd rfl hopened, fun _ ↦ ⟨rfl, settings.threshold_pos⟩⟩
    rw [World.probes, hnone]
    rfl
  · rw [hleave]
    refine ⟨?_, fun call hcall ↦ (hbelow call hcall).le, fun call hcall hprobe ↦ absurd hprobe (hplain call hcall),
      fun _ call hcall heq ↦ absurd heq (hbelow call hcall).ne, fun hclosed ↦ by cases hclosed⟩
    rw [World.probes, hnone]
    dsimp only
    rw [hreleased]
    rfl

variable {action : Action} {after : World} {first second : Circuit}

theorem step_cases (h : CircuitBreaker.step settings world action = .ok after) :
    (∃ thread now circuit ticket, action = .enter thread now ∧
      CircuitBreaker.enter settings world.circuit now = .ok (circuit, ticket) ∧
      after = ⟨circuit, (thread, ticket) :: world.calls⟩) ∨
    ∃ thread outcome now ticket, action = .leave thread outcome now ∧ (thread, ticket) ∈ world.calls ∧
      after = ⟨CircuitBreaker.leave settings world.circuit ticket outcome now,
        world.calls.erase (thread, ticket)⟩ := by
  cases action with
  | enter thread now =>
    dsimp only [CircuitBreaker.step] at h
    cases hlookup : world.calls.lookup thread with
    | some ticket =>
      rw [hlookup] at h
      cases h
    | none =>
      rw [hlookup] at h
      cases henter : CircuitBreaker.enter settings world.circuit now with
      | error refusal =>
        dsimp only at h
        rw [henter] at h
        cases h
      | ok entered =>
        dsimp only at h
        rw [henter] at h
        exact .inl ⟨thread, now, entered.1, entered.2, rfl, henter, (Except.ok.inj h).symm⟩
  | leave thread outcome now =>
    dsimp only [CircuitBreaker.step] at h
    cases hlookup : world.calls.lookup thread with
    | none =>
      rw [hlookup] at h
      cases h
    | some ticket =>
      rw [hlookup] at h
      exact .inr ⟨thread, outcome, now, ticket, rfl, mem_of_lookup hlookup, (Except.ok.inj h).symm⟩

theorem Sound.step (h : Sound settings world) (hstep : CircuitBreaker.step settings world action = .ok after) :
    Sound settings after := by
  obtain ⟨_, _, _, _, -, henter, rfl⟩ | ⟨_, _, _, _, -, hmem, rfl⟩ := step_cases hstep
  · exact h.enter henter
  · exact h.leave hmem

/-- A circuit is the same or of a later generation. -/
def Circuit.Precedes (first second : Circuit) : Prop :=
  first.generation < second.generation ∨
    first.generation = second.generation ∧ first.opened = second.opened

theorem Circuit.Precedes.generation_le (h : first.Precedes second) :
    first.generation ≤ second.generation :=
  h.elim le_of_lt fun hsame ↦ hsame.1.le

theorem Circuit.Precedes.trans {third : Circuit} (h : first.Precedes second) (h' : second.Precedes third) :
    first.Precedes third := by
  obtain hlater | ⟨hgeneration, hopened⟩ := h
  · exact .inl (hlater.trans_le h'.generation_le)
  · obtain hlater | ⟨hgeneration', hopened'⟩ := h'
    · exact .inl (hgeneration.trans_lt hlater)
    · exact .inr ⟨hgeneration.trans hgeneration', hopened.trans hopened'⟩

theorem circuit_of_step (h : CircuitBreaker.step settings world action = .ok after) :
    (world.circuit.generation = after.circuit.generation ∧ world.circuit.opened = after.circuit.opened) ∨
    (world.circuit.generation < after.circuit.generation ∧ ∀ opened, after.circuit.opened = some opened →
      ∃ thread outcome, action = .leave thread outcome opened) := by
  obtain ⟨thread, now, circuit, ticket, rfl, henter, rfl⟩ | ⟨thread, outcome, now, ticket, rfl, -, rfl⟩ :=
    step_cases h
  · obtain ⟨-, rfl, -⟩ | ⟨_, -, -, -, rfl, -⟩ := enter_eq_ok_iff.mp henter
    · exact .inl ⟨rfl, rfl⟩
    · exact .inl ⟨rfl, rfl⟩
  · dsimp only
    by_cases hcurrent : world.circuit.generation = ticket.generation
    · obtain heq | ⟨-, _, -, heq⟩ | ⟨-, heq⟩ | ⟨_, heq⟩ :=
        @leave_cases settings world.circuit ticket outcome now hcurrent
      · rw [heq]
        exact .inl ⟨rfl, rfl⟩
      · rw [heq]
        exact .inl ⟨rfl, rfl⟩
      · rw [heq]
        exact .inr ⟨Nat.lt_succ_self _, fun _ hopened ↦ by cases hopened⟩
      · rw [heq]
        exact .inr ⟨Nat.lt_succ_self _, fun _ hopened ↦ ⟨thread, outcome, by rw [Option.some.inj hopened]⟩⟩
    · unfold CircuitBreaker.leave
      rw [if_neg hcurrent]
      exact .inl ⟨rfl, rfl⟩

theorem worldAfter_append (first rest : List Action) :
    worldAfter settings (first ++ rest) = run (CircuitBreaker.step settings) (worldAfter settings first) rest :=
  run_append rest

theorem precedes_run (settings : Settings) (world : World) (actions : List Action) :
    world.circuit.Precedes (run (CircuitBreaker.step settings) world actions).circuit := by
  have hstep : ∀ state action next, world.circuit.Precedes state.circuit →
      CircuitBreaker.step settings state action = .ok next → world.circuit.Precedes next.circuit :=
    fun _ _ _ hbefore hnext ↦ hbefore.trans ((circuit_of_step hnext).symm.imp_left And.left)
  exact run_invariant hstep (.inr ⟨rfl, rfl⟩) actions

theorem exists_opening {actions : List Action} {opened : ℚ}
    (h : (worldAfter settings actions).circuit.opened = some opened) :
    ∃ before thread outcome after, actions = before ++ .leave thread outcome opened :: after ∧
      (worldAfter settings before).circuit.generation < (worldAfter settings actions).circuit.generation ∧
      (worldAfter settings (before ++ [.leave thread outcome opened])).circuit.generation =
        (worldAfter settings actions).circuit.generation := by
  induction actions using List.reverseRecOn with
  | nil => cases h
  | append_singleton actions action ih =>
    rw [worldAfter_append, run_cons, run_nil] at h ⊢
    have hkept : (worldAfter settings actions).circuit.generation =
          (perform (CircuitBreaker.step settings) (worldAfter settings actions) action).circuit.generation →
        (worldAfter settings actions).circuit.opened = some opened →
        ∃ before thread outcome after, actions ++ [action] = before ++ .leave thread outcome opened :: after ∧
          (worldAfter settings before).circuit.generation <
            (perform (CircuitBreaker.step settings) (worldAfter settings actions) action).circuit.generation ∧
          (worldAfter settings (before ++ [.leave thread outcome opened])).circuit.generation =
            (perform (CircuitBreaker.step settings) (worldAfter settings actions)
              action).circuit.generation := by
      intro hgeneration hopened
      obtain ⟨before, thread, outcome, after, hactions, hbefore, hsince⟩ := ih hopened
      refine ⟨before, thread, outcome, after ++ [action], ?_, hgeneration ▸ hbefore, hgeneration ▸ hsince⟩
      rw [hactions, List.append_assoc, List.cons_append]
    obtain heq | ⟨next, hnext, heq⟩ := perform_cases (CircuitBreaker.step settings)
      (worldAfter settings actions) action
    · rw [heq] at h hkept ⊢
      exact hkept rfl h
    · rw [heq] at h hkept ⊢
      obtain ⟨hgeneration, hopened⟩ | ⟨hgeneration, hopening⟩ := circuit_of_step hnext
      · exact hkept hgeneration (hopened.trans h)
      · obtain ⟨thread, outcome, rfl⟩ := hopening opened h
        refine ⟨actions, thread, outcome, [], rfl, hgeneration, ?_⟩
        rw [worldAfter_append, run_cons, run_nil, heq]

theorem sound_run (settings : Settings) (actions : List Action) : Sound settings (worldAfter settings actions) :=
  run_invariant (fun _ _ _ hsound hstep ↦ hsound.step hstep) sound_initial actions

/-- In every interleaving one probe is in flight at most and late calls change nothing. -/
theorem fenced (settings : Settings) (actions : List Action) :
    let world := worldAfter settings actions
    world.probes.length ≤ 1 ∧
    (∀ first middle last, actions = first ++ middle ++ last → ∀ call ∈ (worldAfter settings first).calls,
      (worldAfter settings first).circuit.opened = none →
      (worldAfter settings (first ++ middle)).circuit.opened ≠ none →
      ∀ outcome now, CircuitBreaker.leave settings world.circuit call.2 outcome now = world.circuit) ∧
    (∀ opened, world.circuit.opened = some opened →
      (∃ before thread outcome after, actions = before ++ .leave thread outcome opened :: after ∧
        (worldAfter settings before).circuit.generation < world.circuit.generation ∧ (worldAfter settings
          (before ++ [.leave thread outcome opened])).circuit.generation = world.circuit.generation) ∧
      ∀ now next ticket, CircuitBreaker.enter settings world.circuit now = .ok (next, ticket) →
        opened + settings.recoverySeconds ≤ now) ∧
    (world.circuit.opened = none → world.circuit.failures < settings.threshold) ∧
    (world.calls = [] → world.circuit.probe = false) := by
  have hsound := sound_run settings actions
  refine ⟨?_, ?_, fun opened hopened ↦ ⟨exists_opening hopened, fun now next ticket henter ↦ ?_⟩,
    fun hclosed ↦ (hsound.closed hclosed).2, fun hnone ↦ ?_⟩
  · rw [hsound.reserved]
    split <;> simp
  · rintro first middle last rfl call hcall hclosed hopen outcome now
    refine leave_of_stale ?_
    have hle := (sound_run settings first).generation_le call hcall
    have hopening := precedes_run settings (worldAfter settings first) middle
    have hlast := precedes_run settings (worldAfter settings (first ++ middle)) last
    rw [← worldAfter_append] at hopening hlast
    obtain hlater | ⟨-, hsame⟩ := hopening
    · exact (hle.trans_lt hlater).trans_le hlast.generation_le
    · exact absurd (hsame.symm.trans hclosed) hopen
  · obtain ⟨hclosed, -⟩ | ⟨other, hother, hlate, -⟩ := enter_eq_ok_iff.mp henter
    · rw [hopened] at hclosed
      cases hclosed
    · rw [hopened] at hother
      rwa [Option.some.inj hother]
  · have hreserved := hsound.reserved
    rw [World.probes, hnone] at hreserved
    cases hprobe : (worldAfter settings actions).circuit.probe with
    | false => rfl
    | true =>
      rw [hprobe] at hreserved
      cases hreserved

end UniMem.CircuitBreaker
