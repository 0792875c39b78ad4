import UniMem.Library.Transitions

/-!
# Transactions at read committed

Each statement of a transaction sees what is committed, with its own writes on top, and waits for locks. The rules
of a discipline keep an invariant in every run. A transaction that runs alone does what its program does.
-/

namespace UniMem.Library

/-- What is left of a transaction: it returns, raises, reads, or executes a statement. -/
inductive Program (δ : Type) {ς : Type} (ρ : ς → Type) (ε α : Type) where
  | done (value : α)
  | fail (error : ε)
  | select (next : δ → Program δ ρ ε α)
  | execute (statement : ς) (next : ρ statement → Program δ ρ ε α)

/-- How statements act: the locks they take, their result and their writes. -/
structure Engine (δ : Type) {ς : Type} (ρ : ς → Type) (ω κ : Type) where
  locks : ς → δ → List κ
  result : (statement : ς) → δ → ρ statement
  writes : ς → δ → List ω
  write : δ → ω → δ

variable {δ ς ε ω κ ο σ α β : Type} {ρ : ς → Type}

namespace Program

/-- One program after another. -/
def bind : Program δ ρ ε α → (α → Program δ ρ ε β) → Program δ ρ ε β
  | done value, next => next value
  | fail error, _ => .fail error
  | select read, next => .select fun view ↦ (read view).bind next
  | execute statement rest, next => .execute statement fun result ↦ (rest result).bind next

instance : Monad (Program δ ρ ε) where
  pure := done
  bind := bind

/-- A read. -/
def read (query : δ → α) : Program δ ρ ε α := .select fun view ↦ .done (query view)

/-- A statement. -/
def statement (statement : ς) : Program δ ρ ε (ρ statement) := .execute statement .done

/-- A computation without the database. -/
def lift : Except ε α → Program δ ρ ε α
  | .ok value => .done value
  | .error error => .fail error

/-- The statement that a program executes next. -/
def pending : Program δ ρ ε α → Option ς
  | .execute statement _ => some statement
  | _ => none

end Program

/-- The database after some writes. -/
def Engine.after (engine : Engine δ ρ ω κ) (database : δ) (writes : List ω) : δ := writes.foldl engine.write database

/-- A transaction: what its last statement saw, its writes and its locks. -/
structure Transaction (δ : Type) {ς : Type} (ρ : ς → Type) (ε ω κ ο α : Type) where
  call : ο
  program : Program δ ρ ε α
  seen : δ
  writes : List ω
  locks : List κ

/-- The committed database, the running transactions, and the results of the others. -/
structure Sessions (δ : Type) {ς : Type} (ρ : ς → Type) (ε ω κ ο α : Type) where
  committed : δ
  active : List (Transaction δ ρ ε ω κ ο α)
  outcomes : List (ο × Except ε α)

inductive SessionAction (ο : Type) where
  | start (call : ο)
  | proceed (index : ℕ)
  | abort (index : ℕ)

section Interleavings

variable (engine : Engine δ ρ ω κ) [DecidableEq κ] (programOf : ο → Except ε (Program δ ρ ε α))

/-- No transaction runs and none has ended. -/
def Sessions.fresh (committed : δ) : Sessions δ ρ ε ω κ ο α := ⟨committed, [], []⟩

/-- What a statement of a transaction sees. -/
def Transaction.view (committed : δ) (transaction : Transaction δ ρ ε ω κ ο α) : δ :=
  engine.after committed transaction.writes

/-- The transaction after a statement that need not wait. -/
def Transaction.execute (transaction : Transaction δ ρ ε ω κ ο α) (view : δ) (statement : ς)
    (next : ρ statement → Program δ ρ ε α) : Transaction δ ρ ε ω κ ο α :=
  { transaction with
    program := next (engine.result statement view)
    seen := view
    writes := transaction.writes ++ engine.writes statement view
    locks := transaction.locks ++ engine.locks statement view }

/-- Whether a transaction holds one of some locks. -/
def Transaction.holds (transaction : Transaction δ ρ ε ω κ ο α) (locks : List κ) : Bool :=
  transaction.locks.any fun lock ↦ lock ∈ locks

/-- The next turn of a transaction. A statement that has to wait changes nothing. -/
def turn (state : Sessions δ ρ ε ω κ ο α) (index : ℕ) (transaction : Transaction δ ρ ε ω κ ο α) :
    Sessions δ ρ ε ω κ ο α :=
  let view := transaction.view engine state.committed
  match transaction.program with
  | .done value =>
    ⟨view, state.active.eraseIdx index, state.outcomes ++ [(transaction.call, .ok value)]⟩
  | .fail error =>
    { state with
      active := state.active.eraseIdx index
      outcomes := state.outcomes ++ [(transaction.call, .error error)] }
  | .select next => { state with active := state.active.set index { transaction with program := next view } }
  | .execute statement next =>
    if (state.active.eraseIdx index).any fun other ↦ other.holds (engine.locks statement view) then state
    else { state with active := state.active.set index (transaction.execute engine view statement next) }

/-- One step of some transaction. -/
def sessionStep (state : Sessions δ ρ ε ω κ ο α) : SessionAction ο → Except ε (Sessions δ ρ ε ω κ ο α)
  | .start call => do
    let program ← programOf call
    return { state with active := state.active ++ [⟨call, program, state.committed, [], []⟩] }
  | .abort index => .ok { state with active := state.active.eraseIdx index }
  | .proceed index =>
    match state.active[index]? with
    | none => .ok state
    | some transaction => .ok (turn engine state index transaction)

/-- Every executed statement is good on what it sees and what the one before it saw. -/
def Executes (good : ο → ς → δ → δ → Prop) (state : Sessions δ ρ ε ω κ ο α) : SessionAction ο → Prop
  | .proceed index => ∀ transaction ∈ state.active[index]?, ∀ statement ∈ transaction.program.pending,
    good transaction.call statement transaction.seen (transaction.view engine state.committed)
  | _ => True

instance {good : ο → ς → δ → δ → Prop} [∀ call statement seen view, Decidable (good call statement seen view)]
    (state : Sessions δ ρ ε ω κ ο α) : ∀ action, Decidable (Executes engine good state action)
  | .proceed index => inferInstanceAs (Decidable (∀ transaction ∈ state.active[index]?,
    ∀ statement ∈ transaction.program.pending,
      good transaction.call statement transaction.seen (transaction.view engine state.committed)))
  | .start _ => inferInstanceAs (Decidable True)
  | .abort _ => inferInstanceAs (Decidable True)

end Interleavings

/-- What a program may rely on and has to keep to, with a ghost state. -/
structure Rules (σ δ : Type) {ς : Type} (ρ : ς → Type) (ε : Type) where
  sees : σ → δ → Prop
  permits : σ → ς → Prop
  answers : σ → (statement : ς) → ρ statement → σ → Prop
  raises : ε → Prop

/-- A program keeps to its rules and returns with a postcondition. -/
inductive Program.Meets (rules : Rules σ δ ρ ε) (post : σ → α → Prop) : σ → Program δ ρ ε α → Prop
  | done {ghost : σ} {value : α} (h : post ghost value) : Meets rules post ghost (.done value)
  | fail {ghost : σ} {error : ε} (h : rules.raises error) : Meets rules post ghost (.fail error)
  | select {ghost : σ} {next : δ → Program δ ρ ε α}
    (h : ∀ view, rules.sees ghost view → Meets rules post ghost (next view)) : Meets rules post ghost (.select next)
  | execute {ghost : σ} {statement : ς} {next : ρ statement → Program δ ρ ε α}
    (hpermits : rules.permits ghost statement)
    (h : ∀ result after, rules.answers ghost statement result after → Meets rules post after (next result)) :
    Meets rules post ghost (.execute statement next)

namespace Program.Meets

variable {rules : Rules σ δ ρ ε} {ghost : σ} {program : Program δ ρ ε α} {next : α → Program δ ρ ε β}
  {post : σ → β → Prop}

theorem bind (h : Meets rules (fun after value ↦ Meets rules post after (next value)) ghost program) :
    Meets rules post ghost (program >>= next) := by
  induction h with
  | done h => exact h
  | fail h => exact .fail h
  | select _ ih => exact .select ih
  | execute hpermits _ ih => exact .execute hpermits ih

theorem mono {first second : σ → α → Prop} (hmono : ∀ ghost value, first ghost value → second ghost value)
    (h : Meets rules first ghost program) : Meets rules second ghost program := by
  induction h with
  | done h => exact .done (hmono _ _ h)
  | fail h => exact .fail h
  | select _ ih => exact .select ih
  | execute hpermits _ ih => exact .execute hpermits ih

theorem read {query : δ → α} {post : σ → α → Prop} (h : ∀ view, rules.sees ghost view → post ghost (query view)) :
    Meets rules post ghost (Program.read query : Program δ ρ ε α) := .select fun view hview ↦ .done (h view hview)

theorem statement {statement : ς} {post : σ → ρ statement → Prop} (hpermits : rules.permits ghost statement)
    (h : ∀ result after, rules.answers ghost statement result after → post after result) :
    Meets rules post ghost (Program.statement statement : Program δ ρ ε (ρ statement)) :=
  .execute hpermits fun result after hresult ↦ .done (h result after hresult)

theorem lift {result : Except ε α} {post : σ → α → Prop}
    (hraises : ∀ error, result = .error error → rules.raises error)
    (h : ∀ value, result = .ok value → post ghost value) :
    Meets rules post ghost (Program.lift result : Program δ ρ ε α) := by
  cases result with
  | error error => exact .fail (hraises error rfl)
  | ok value => exact .done (h value rfl)

theorem of_done {value : α} {post : σ → α → Prop} (h : Meets rules post ghost (.done value : Program δ ρ ε α)) :
    post ghost value := by
  cases h with
  | done h => exact h

theorem of_select {read : δ → Program δ ρ ε α} {post : σ → α → Prop} (h : Meets rules post ghost (.select read))
    {view : δ} (hview : rules.sees ghost view) : Meets rules post ghost (read view) := by
  cases h with
  | select h => exact h view hview

theorem of_fail {error : ε} {post : σ → α → Prop} (h : Meets rules post ghost (.fail error : Program δ ρ ε α)) :
    rules.raises error := by
  cases h with
  | fail h => exact h

theorem of_execute {statement : ς} {rest : ρ statement → Program δ ρ ε α} {post : σ → α → Prop}
    (h : Meets rules post ghost (.execute statement rest)) : rules.permits ghost statement ∧
      ∀ result after, rules.answers ghost statement result after → Meets rules post after (rest result) := by
  cases h with
  | execute hpermits h => exact ⟨hpermits, h⟩

end Program.Meets

/-- How transactions keep an invariant and their promises, with locks against others. -/
structure Discipline (engine : Engine δ ρ ω κ) (programOf : ο → Except ε (Program δ ρ ε α)) (σ : Type) where
  invariant : δ → Prop
  linked : ο → δ → δ → List ω → List κ → σ → Prop
  rules : ο → Rules σ δ ρ ε
  final : ο → σ → α → Prop
  promise : ο → α → δ → Prop
  good : ο → ς → δ → δ → Prop
  starts : ∀ committed call program, invariant committed → programOf call = .ok program →
    ∃ ghost, linked call committed committed [] [] ghost ∧ Program.Meets (rules call) (final call) ghost program
  sees : ∀ call committed seen writes locks ghost, invariant committed →
    linked call committed seen writes locks ghost → (rules call).sees ghost (engine.after committed writes)
  executes : ∀ call committed seen writes locks ghost statement, invariant committed →
    linked call committed seen writes locks ghost → (rules call).permits ghost statement →
    good call statement seen (engine.after committed writes) →
      ∃ after, (rules call).answers ghost statement (engine.result statement (engine.after committed writes)) after ∧
        linked call committed (engine.after committed writes)
          (writes ++ engine.writes statement (engine.after committed writes))
          (locks ++ engine.locks statement (engine.after committed writes)) after
  commits : ∀ call committed seen writes locks ghost value, invariant committed →
    linked call committed seen writes locks ghost → final call ghost value →
      invariant (engine.after committed writes) ∧ promise call value (engine.after committed writes)
  keeps : ∀ call committed seen writes locks ghost value other result, invariant committed →
    linked call committed seen writes locks ghost → final call ghost value →
    promise other result committed → promise other result (engine.after committed writes)
  stable : ∀ call committed seen writes locks ghost value other seen' writes' locks' ghost', invariant committed →
    linked call committed seen writes locks ghost → final call ghost value →
    linked other committed seen' writes' locks' ghost' →
    (∀ lock ∈ locks, lock ∉ locks') → linked other (engine.after committed writes) seen' writes' locks' ghost'

namespace Discipline

variable {engine : Engine δ ρ ω κ} {programOf : ο → Except ε (Program δ ρ ε α)}
  {discipline : Discipline engine programOf σ}

/-- A transaction that has kept to its rules so far. -/
def Kept (discipline : Discipline engine programOf σ) (committed : δ) (transaction : Transaction δ ρ ε ω κ ο α) :
    Prop :=
  ∃ ghost, discipline.linked transaction.call committed transaction.seen transaction.writes transaction.locks ghost ∧
    Program.Meets (discipline.rules transaction.call) (discipline.final transaction.call) ghost transaction.program

/-- What a call has promised by what it returned, and what it may raise. -/
def Answered (discipline : Discipline engine programOf σ) (committed : δ) : ο × Except ε α → Prop
  | (call, .ok value) => discipline.promise call value committed
  | (call, .error error) => (discipline.rules call).raises error

/-- Two transactions that hold no common lock. -/
def Apart (first second : Transaction δ ρ ε ω κ ο α) : Prop := ∀ lock ∈ first.locks, lock ∉ second.locks

theorem Apart.symm {first second : Transaction δ ρ ε ω κ ο α} (h : Apart first second) : Apart second first :=
  fun lock hsecond hfirst ↦ h lock hfirst hsecond

/-- What a discipline keeps. -/
structure Sound (discipline : Discipline engine programOf σ) (state : Sessions δ ρ ε ω κ ο α) : Prop where
  invariant : discipline.invariant state.committed
  kept : ∀ transaction ∈ state.active, discipline.Kept state.committed transaction
  apart : state.active.Pairwise Apart
  answered : ∀ outcome ∈ state.outcomes, discipline.Answered state.committed outcome

variable {state next : Sessions δ ρ ε ω κ ο α} {transaction changed : Transaction δ ρ ε ω κ ο α} {index : ℕ}

theorem exists_split {active : List β} {value : β} (h : active[index]? = some value) :
    ∃ before after, active = before ++ value :: after ∧ active.eraseIdx index = before ++ after ∧
      ∀ changed, active.set index changed = before ++ changed :: after := by
  obtain ⟨hlt, rfl⟩ := List.getElem?_eq_some_iff.mp h
  refine ⟨active.take index, active.drop (index + 1), ?_, ?_, ?_⟩
  · rw [← List.drop_eq_getElem_cons hlt, List.take_append_drop]
  · exact List.eraseIdx_eq_take_drop_succ _ _
  · intro changed
    exact List.set_eq_take_append_cons_drop.trans (if_pos hlt)

section

variable (hsound : discipline.Sound state)
include hsound

theorem Sound.erase :
    discipline.Sound { state with active := state.active.eraseIdx index } :=
  ⟨hsound.invariant, fun other hother ↦ hsound.kept other (List.mem_of_mem_eraseIdx hother),
    hsound.apart.sublist (List.eraseIdx_sublist _ _), hsound.answered⟩

theorem Sound.answer {outcome : ο × Except ε α}
    (h : discipline.Answered state.committed outcome) :
    discipline.Sound { state with outcomes := state.outcomes ++ [outcome] } := by
  refine ⟨hsound.invariant, hsound.kept, hsound.apart, fun other hother ↦ ?_⟩
  obtain hold | hnew := List.mem_append.mp hother
  · exact hsound.answered other hold
  · rwa [List.mem_singleton.mp hnew]

section

variable (h : state.active[index]? = some transaction)
include h

theorem Sound.set
    (hkept : discipline.Kept state.committed changed)
      (hapart : ∀ other ∈ state.active.eraseIdx index, Apart changed other) :
    discipline.Sound { state with active := state.active.set index changed } := by
  obtain ⟨before, after, hactive, herase, hset⟩ := exists_split h
  rw [herase] at hapart
  refine ⟨hsound.invariant, ?_, ?_, hsound.answered⟩
  · intro other hother
    change other ∈ state.active.set index changed at hother
    rw [hset, List.mem_append, List.mem_cons] at hother
    obtain hbefore | rfl | hafter := hother
    · exact hsound.kept other (hactive ▸ List.mem_append_left _ hbefore)
    · exact hkept
    · exact hsound.kept other (hactive ▸ List.mem_append_right _ (List.mem_cons_of_mem _ hafter))
  · change (state.active.set index changed).Pairwise Apart
    have hpairs := hsound.apart
    rw [hactive, List.pairwise_append, List.pairwise_cons] at hpairs
    rw [hset, List.pairwise_append, List.pairwise_cons]
    obtain ⟨hbefore, ⟨-, hafter⟩, hcross⟩ := hpairs
    refine ⟨hbefore, ⟨fun other hother ↦ hapart other (List.mem_append_right _ hother), hafter⟩, ?_⟩
    intro first hfirst second hsecond
    obtain rfl | hsecond := List.mem_cons.mp hsecond
    · exact (hapart first (List.mem_append_left _ hfirst)).symm
    · exact hcross first hfirst second (List.mem_cons_of_mem _ hsecond)

theorem Sound.apart_of_getElem? :
    ∀ other ∈ state.active.eraseIdx index, Apart transaction other := by
  obtain ⟨before, after, hactive, herase, -⟩ := exists_split h
  have hpairs := hsound.apart
  rw [hactive, List.pairwise_append, List.pairwise_cons] at hpairs
  obtain ⟨-, ⟨hafter, -⟩, hcross⟩ := hpairs
  intro other hother
  rw [herase, List.mem_append] at hother
  obtain hbefore | hlater := hother
  · exact (hcross other hbefore transaction List.mem_cons_self).symm
  · exact hafter other hlater

theorem Sound.commit {ghost : σ}
    {value : α} (hlinked : discipline.linked transaction.call state.committed transaction.seen transaction.writes
      transaction.locks ghost) (hfinal : discipline.final transaction.call ghost value) :
    discipline.Sound ⟨transaction.view engine state.committed, state.active.eraseIdx index,
      state.outcomes ++ [(transaction.call, .ok value)]⟩ := by
  obtain ⟨hinvariant, hpromise⟩ := discipline.commits _ _ _ _ _ _ _ hsound.invariant hlinked hfinal
  refine ⟨hinvariant, ?_, hsound.erase.apart, ?_⟩
  · intro other hother
    obtain ⟨ghost', hlinked', hmeets'⟩ := hsound.kept other (List.mem_of_mem_eraseIdx hother)
    exact ⟨ghost', discipline.stable _ _ _ _ _ _ _ _ _ _ _ _ hsound.invariant hlinked hfinal hlinked'
      (hsound.apart_of_getElem? h other hother), hmeets'⟩
  · rintro ⟨other, result⟩ houtcome
    obtain hold | hnew := List.mem_append.mp houtcome
    · cases result with
      | error error => exact hsound.answered _ hold
      | ok result =>
        exact discipline.keeps _ _ _ _ _ _ _ _ _ hsound.invariant hlinked hfinal (hsound.answered _ hold)
    · obtain ⟨rfl, rfl⟩ := Prod.mk.inj (List.mem_singleton.mp hnew)
      exact hpromise

end

end

variable [DecidableEq κ]

theorem Sound.turn (hsound : discipline.Sound state) (h : state.active[index]? = some transaction)
    (hgood : ∀ statement ∈ transaction.program.pending,
      discipline.good transaction.call statement transaction.seen (transaction.view engine state.committed)) :
    discipline.Sound (turn engine state index transaction) := by
  obtain ⟨ghost, hlinked, hmeets⟩ := hsound.kept transaction (List.mem_of_getElem? h)
  have hapart := hsound.apart_of_getElem? h
  unfold Library.turn
  dsimp only
  cases hprogram : transaction.program with
  | done value =>
    rw [hprogram] at hmeets
    exact hsound.commit h hlinked hmeets.of_done
  | fail error =>
    rw [hprogram] at hmeets
    exact hsound.erase.answer hmeets.of_fail
  | select read =>
    rw [hprogram] at hmeets
    have hsees := discipline.sees _ _ _ _ _ _ hsound.invariant hlinked
    exact hsound.set h ⟨ghost, hlinked, hmeets.of_select hsees⟩ hapart
  | execute statement rest =>
    rw [hprogram] at hmeets
    obtain ⟨hpermits, hmeets⟩ := hmeets.of_execute
    dsimp only
    split_ifs with hwaits
    · exact hsound
    · obtain ⟨after, hanswers, hlinked'⟩ := discipline.executes _ _ _ _ _ _ _ hsound.invariant hlinked hpermits
        (hgood statement (by rw [hprogram]; rfl))
      refine hsound.set h ⟨after, hlinked', hmeets _ _ hanswers⟩ ?_
      intro other hother lock hlock
      obtain hold | hnew := List.mem_append.mp hlock
      · exact hapart other hother lock hold
      · intro hheld
        rw [List.any_eq_true] at hwaits
        exact hwaits ⟨other, hother, List.any_eq_true.mpr ⟨lock, hheld, decide_eq_true hnew⟩⟩

theorem Sound.step (hsound : discipline.Sound state) {action : SessionAction ο}
    (hgood : Executes engine discipline.good state action)
    (h : sessionStep engine programOf state action = .ok next) : discipline.Sound next := by
  cases action with
  | abort index =>
    obtain rfl := Except.ok.inj h
    exact hsound.erase
  | start call =>
    rw [sessionStep] at h
    cases hprogram : programOf call with
    | error error => rw [hprogram] at h; cases h
    | ok program =>
      rw [hprogram] at h
      obtain rfl := Except.ok.inj h
      refine ⟨hsound.invariant, ?_, ?_, hsound.answered⟩
      · intro transaction htransaction
        obtain hold | hnew := List.mem_append.mp htransaction
        · exact hsound.kept transaction hold
        · obtain rfl := List.mem_singleton.mp hnew
          exact discipline.starts _ _ _ hsound.invariant hprogram
      · refine List.pairwise_append.mpr ⟨hsound.apart, List.pairwise_singleton _ _, ?_⟩
        intro first _ second hsecond lock _
        rw [List.mem_singleton.mp hsecond]
        exact List.not_mem_nil
  | proceed index =>
    rw [sessionStep] at h
    cases htransaction : state.active[index]? with
    | none =>
      rw [htransaction] at h
      obtain rfl := Except.ok.inj h
      exact hsound
    | some transaction =>
      rw [htransaction] at h
      obtain rfl := Except.ok.inj h
      exact hsound.turn htransaction (hgood transaction htransaction)

theorem sound_run (discipline : Discipline engine programOf σ) {committed : δ} (h : discipline.invariant committed)
    {actions : List (SessionAction ο)}
    (hgood : Along (sessionStep engine programOf) (Executes engine discipline.good) (.fresh committed) actions) :
    discipline.Sound (run (sessionStep engine programOf) (.fresh committed) actions) :=
  run_invariant_along (fun _ _ _ hsound hgood hstep ↦ Sound.step hsound hgood hstep)
    ⟨h, fun _ hmem ↦ absurd hmem List.not_mem_nil, List.Pairwise.nil, fun _ hmem ↦ absurd hmem List.not_mem_nil⟩ hgood

end Discipline

/-! ## One transaction alone -/

section Alone

variable (engine : Engine δ ρ ω κ)

/-- A program that no other transaction interrupts. -/
def Program.alone : Program δ ρ ε α → δ → Except ε (α × δ)
  | .done value, database => .ok (value, database)
  | .fail error, _ => .error error
  | .select next, database => (next database).alone database
  | .execute statement next, database =>
    (next (engine.result statement database)).alone (engine.after database (engine.writes statement database))

/-- A transaction that runs alone takes some turns, and commits this result or raises this error. -/
def Program.Ends [DecidableEq κ] (program : Program δ ρ ε α) (database : δ) (result : Except ε (α × δ)) : Prop :=
  ∃ turns : ℕ, run (sessionStep engine fun _ : Unit ↦ .ok program) (.fresh database)
      (.start () :: List.replicate turns (.proceed 0)) =
    match result with
    | .ok (value, after) => ⟨after, [], [((), .ok value)]⟩
    | .error error => ⟨database, [], [((), .error error)]⟩

variable {engine} {database : δ} {program : Program δ ρ ε α} {next : α → Program δ ρ ε β}

theorem after_append (writes more : List ω) :
    engine.after database (writes ++ more) = engine.after (engine.after database writes) more :=
  List.foldl_append

namespace Program

theorem alone_bind :
    (program >>= next).alone engine database =
      (do let (value, after) ← program.alone engine database; (next value).alone engine after) := by
  induction program generalizing database with
  | done value => rfl
  | fail error => rfl
  | select read ih => exact ih database
  | execute statement rest ih => exact ih _

@[simp]
theorem alone_pure (value : α) :
    (pure value : Program δ ρ ε α).alone engine database = .ok (value, database) := rfl

@[simp]
theorem alone_read_bind {query : δ → α} :
    (read query >>= next).alone engine database = (next (query database)).alone engine database := rfl

@[simp]
theorem alone_statement_bind {command : ς} {next : ρ command → Program δ ρ ε β} :
    (statement command >>= next).alone engine database =
      (next (engine.result command database)).alone engine
        (engine.after database (engine.writes command database)) := rfl

@[simp]
theorem alone_lift_bind {result : Except ε α} :
    (lift result >>= next).alone engine database = (do let value ← result; (next value).alone engine database) := by
  cases result <;> rfl

@[simp]
theorem alone_lift (result : Except ε α) :
    (lift result : Program δ ρ ε α).alone engine database = (do let value ← result; return (value, database)) := by
  cases result <;> rfl

end Program

variable [DecidableEq κ]

/-- The turns of the only transaction lead to what its program leaves alone. -/
theorem exists_turns (programOf : ο → Except ε (Program δ ρ ε α)) (program : Program δ ρ ε α)
    (transaction : Transaction δ ρ ε ω κ ο α) (hprogram : transaction.program = program) :
    ∃ turns : ℕ, run (sessionStep engine programOf) ⟨database, [transaction], []⟩
        (List.replicate turns (.proceed 0)) =
      match program.alone engine (transaction.view engine database) with
      | .ok (value, after) => ⟨after, [], [(transaction.call, .ok value)]⟩
      | .error error => ⟨database, [], [(transaction.call, .error error)]⟩ := by
  have hturn : perform (sessionStep engine programOf) ⟨database, [transaction], []⟩ (.proceed 0) =
      turn engine ⟨database, [transaction], []⟩ 0 transaction := rfl
  induction program generalizing transaction with
  | done value =>
    refine ⟨1, ?_⟩
    rw [List.replicate_one, run_cons, hturn, turn, hprogram]
    rfl
  | fail error =>
    refine ⟨1, ?_⟩
    rw [List.replicate_one, run_cons, hturn, turn, hprogram]
    rfl
  | select read ih =>
    obtain ⟨turns, h⟩ := ih (transaction.view engine database)
      { transaction with program := read (transaction.view engine database) } rfl rfl
    refine ⟨turns + 1, ?_⟩
    rw [List.replicate_succ, run_cons, hturn, turn, hprogram]
    exact h
  | execute statement rest ih =>
    obtain ⟨turns, h⟩ := ih (engine.result statement (transaction.view engine database))
      (transaction.execute engine (transaction.view engine database) statement rest) rfl rfl
    refine ⟨turns + 1, ?_⟩
    rw [List.replicate_succ, run_cons, hturn, turn, hprogram]
    have hview : (transaction.execute engine (transaction.view engine database) statement rest).view engine database =
        engine.after (transaction.view engine database)
          (engine.writes statement (transaction.view engine database)) := after_append _ _
    rw [hview] at h
    exact h

theorem Program.ends_alone (program : Program δ ρ ε α) (database : δ) :
    program.Ends engine database (program.alone engine database) := by
  obtain ⟨turns, h⟩ := exists_turns (fun _ : Unit ↦ .ok program) program
    (⟨(), program, database, [], []⟩ : Transaction δ ρ ε ω κ Unit α) rfl
  exact ⟨turns, h⟩

end Alone

end UniMem.Library
