import UniMem.Library.Transitions

/-!
# The lock of the store

`frontmatter.locked` on one path, as steps of processes that interleave in any order, fail and crash. The lock file
is deleted on release, so a file has an identity besides its inode.
-/

namespace UniMem.Frontmatter

open Library

/-- A file that was at the lock path, and its device and inode. -/
structure File where
  serial : ℕ
  inode : ℕ
  deriving DecidableEq

/-- Where a process is in `_acquire_lock_fd`, the protected block or `_release_lock_fd`. -/
inductive Phase where
  /-- Before the call and after it. -/
  | outside
  /-- In `_lock_exclusive`. -/
  | contending (file : File)
  /-- `flock` returned. -/
  | obtained (file : File)
  /-- The inode at the path, or none when `fstat` or `stat` raised. -/
  | compared (file : File) (seen : Option ℕ)
  /-- The inode at the path is another one: before `_unlock`. -/
  | mismatched (file : File)
  /-- The lock was released because of another inode: before `os.close`. -/
  | retrying (file : File)
  /-- After `os.close`, before the deadline is checked. -/
  | again
  /-- An exception in the acquisition: before `os.close`. -/
  | failing (file : File)
  /-- In the protected block. -/
  | inside (file : File)
  /-- In `_release_lock_fd`, before `stat`. -/
  | leaving (file : File)
  | releasing (file : File) (seen : Option ℕ)
  /-- The inode at the path is the own one: before `os.unlink`. -/
  | unlinking (file : File)
  /-- Before `_unlock`. -/
  | unlocking (file : File)
  /-- Before `os.close`. -/
  | closing (file : File)
  deriving DecidableEq

/-- What happens to a process. A created file gets an inode from the file system. -/
inductive Event where
  | openPath (inode : ℕ)
  | flock
  | stat
  | statFails
  | compare
  | unlock
  | unlockFails
  | close
  | giveUp
  | raises
  | leave
  | unlink
  | unlinkFails
  | crash
  deriving DecidableEq

/-- The file that a process has open. -/
def Phase.file : Phase → Option File
  | outside | again => none
  | contending file | obtained file | compared file _ | mismatched file | retrying file | failing file
  | inside file | leaving file | releasing file _ | unlinking file | unlocking file | closing file => some file

/-- The file at the lock path, the files created, who locks them, and the processes. -/
structure World (ι : Type) where
  path : Option File
  created : ℕ
  holder : File → Option ι
  phase : ι → Phase

variable {ι : Type}

/-- No process has started; a lock file may be left from before. -/
def World.start (inode : Option ℕ) : World ι where
  path := inode.map (File.mk 0)
  created := 1
  holder _ := none
  phase _ := .outside

variable [DecidableEq ι]

def World.move (world : World ι) (process : ι) (phase : Phase) : World ι :=
  { world with phase := Function.update world.phase process phase }

/-- A process gets the lock of a file. -/
def World.lock (world : World ι) (process : ι) (file : File) : World ι :=
  { world with holder := Function.update world.holder file (some process) }

/-- A process loses the lock of a file if it has it. -/
def World.unlock (world : World ι) (process : ι) (file : File) : World ι :=
  { world with
    holder := fun other ↦ if other = file ∧ world.holder other = some process then none else world.holder other }

/-- A process drops the lock of the file that it has open. -/
def World.drop (world : World ι) (process : ι) : World ι :=
  match (world.phase process).file with
  | none => world
  | some file => world.unlock process file

/-- `os.open` with `O_CREAT`. -/
def World.openPath (world : World ι) (process : ι) (inode : ℕ) : World ι :=
  match world.path with
  | some file => world.move process (.contending file)
  | none =>
    let file := ⟨world.created, inode⟩
    { world with path := some file, created := world.created + 1 }.move process (.contending file)

/-- The steps that change neither the path nor a lock. -/
def Phase.advance (path : Option File) : Phase → Event → Option Phase
  | again, .giveUp => some outside
  | contending file, .raises | obtained file, .raises | compared file _, .raises | mismatched file, .raises =>
    some (failing file)
  | obtained file, .stat => some (compared file (path.map File.inode))
  | obtained file, .statFails => some (compared file none)
  | compared file seen, .compare => some (if seen = some file.inode then inside file else mismatched file)
  | inside file, .leave => some (leaving file)
  | leaving file, .stat => some (releasing file (path.map File.inode))
  | leaving file, .statFails => some (unlocking file)
  | releasing file seen, .compare => some (if seen = some file.inode then unlinking file else unlocking file)
  | unlinking file, .unlinkFails => some (unlocking file)
  | unlocking file, .unlockFails => some (closing file)
  | _, _ => none

/-- The steps that drop the lock of the process. -/
def Phase.release : Phase → Event → Option Phase
  | mismatched file, .unlock => some (retrying file)
  | retrying _, .close => some again
  | unlocking file, .unlock => some (closing file)
  | failing _, .close | closing _, .close => some outside
  | _, .crash => some outside
  | _, _ => none

/-- One step of a process. A `flock` that finds the lock taken changes nothing. -/
def step (world : World ι) (action : ι × Event) : Except Unit (World ι) :=
  let process := action.1
  match world.phase process, action.2 with
  | .outside, .openPath inode | .again, .openPath inode => .ok (world.openPath process inode)
  | .contending file, .flock =>
    if world.holder file = none then .ok ((world.lock process file).move process (.obtained file)) else .ok world
  | .unlinking file, .unlink => .ok ({ world with path := none }.move process (.unlocking file))
  | phase, event =>
    match phase.advance world.path event, phase.release event with
    | some after, _ => .ok (world.move process after)
    | none, some after => .ok ((world.drop process).move process after)
    | none, none => .error ()

/-- The file system gives a created file no inode of a file that some process has open. -/
def Fresh (world : World ι) (action : ι × Event) : Prop :=
  match action.2, world.path with
  | .openPath inode, none => ∀ process, ∀ file ∈ (world.phase process).file, file.inode ≠ inode
  | _, _ => True

instance [Fintype ι] (world : World ι) (action : ι × Event) : Decidable (Fresh world action) := by
  unfold Fresh
  split <;> infer_instance

/-- The process holds the lock of its file. -/
def Phase.Holds : Phase → Prop
  | obtained _ | compared _ _ | mismatched _ | inside _ | leaving _ | releasing _ _ | unlinking _
  | unlocking _ => True
  | _ => False

/-- The process may hold the lock of its file. -/
def Phase.MayHold : Phase → Prop
  | failing _ | closing _ => True
  | phase => phase.Holds

/-- The file of the process is the one at the path. -/
def Phase.Owns : Phase → Prop
  | compared file seen => seen = some file.inode
  | inside _ | leaving _ | releasing _ _ | unlinking _ => True
  | _ => False

/-- The phase of a process agrees with the locks and with the path. -/
structure Fits (world : World ι) (process : ι) (phase : Phase) : Prop where
  locked : ∀ file, world.holder file = some process → phase.file = some file ∧ phase.MayHold
  holds : ∀ file, phase.file = some file → phase.Holds → world.holder file = some process
  owns : ∀ file, phase.file = some file → phase.Owns → world.path = some file
  /-- No other file with the inode of an open file is at the path. -/
  named : ∀ file there, phase.file = some file → world.path = some there → there.inode = file.inode →
    there = file

/-- Every process agrees with the locks and with the path. -/
def Guarded (world : World ι) : Prop := ∀ process, Fits world process (world.phase process)

variable {world : World ι} {process other : ι} {phase : Phase} {file : File}

theorem Phase.holds_of_owns (h : phase.Owns) : phase.Holds := by
  cases phase <;> trivial

variable {after : Phase} {event : Event}

omit [DecidableEq ι] in
theorem Fits.congr {next : World ι} (h : Fits world process phase) (hpath : next.path = world.path)
    (hholder : ∀ file, next.holder file = some process ↔ world.holder file = some process) :
    Fits next process phase where
  locked file hlocked := h.locked file ((hholder file).mp hlocked)
  holds file hfile hholds := (hholder file).mpr (h.holds file hfile hholds)
  owns file hfile howns := hpath.trans (h.owns file hfile howns)
  named file there hfile hthere := h.named file there hfile (hpath ▸ hthere)

theorem Guarded.moved {next : World ι} (h : Guarded world) (hphase : next.phase = world.phase)
    (hothers : ∀ other ≠ process, Fits world other (world.phase other) → Fits next other (world.phase other))
    (hprocess : Fits next process phase) : Guarded (next.move process phase) := by
  intro other
  have hfits : Fits next other (Function.update world.phase process phase other) := by
    by_cases heq : other = process
    · subst heq
      rwa [Function.update_self]
    · rw [Function.update_of_ne heq]
      exact hothers other heq (h other)
  rw [← hphase] at hfits
  exact hfits.congr rfl fun _ ↦ Iff.rfl

theorem holder_unlock_iff (h : other ≠ process) (held : File) :
    (world.unlock process file).holder held = some other ↔ world.holder held = some other := by
  unfold World.unlock
  dsimp only
  split_ifs with hheld
  · rw [hheld.2, Option.some.injEq]
    exact ⟨fun hnone ↦ absurd hnone (by simp), fun heq ↦ absurd heq.symm h⟩
  · exact Iff.rfl

theorem holder_unlock_ne (h : Fits world process phase) (hfile : phase.file = some file) (held : File) :
    (world.unlock process file).holder held ≠ some process := by
  unfold World.unlock
  dsimp only
  split_ifs with hheld
  · simp
  · intro hlocked
    refine hheld ⟨?_, hlocked⟩
    exact Option.some.inj ((h.locked held hlocked).1.symm.trans hfile)

omit [DecidableEq ι] in
theorem Fits.next {after : Phase} (h : Fits world process phase) (hfile : after.file = phase.file)
    (hmay : phase.MayHold → after.MayHold) (hholds : after.Holds → phase.Holds)
    (howns : ∀ file, phase.file = some file → after.Owns → world.path = some file) :
    Fits world process after where
  locked file hlocked := ⟨hfile.trans (h.locked file hlocked).1, hmay (h.locked file hlocked).2⟩
  holds file hopen hheld := h.holds file (hfile.symm.trans hopen) (hholds hheld)
  owns file hopen := howns file (hfile.symm.trans hopen)
  named file there hopen := h.named file there (hfile.symm.trans hopen)

omit [DecidableEq ι] in
theorem Fits.unlocked {next : World ι} (h : Fits world process phase) (hpath : next.path = world.path)
    (hnone : ∀ file, next.holder file ≠ some process)
    (hfile : ∀ file, after.file = some file → phase.file = some file) (hholds : ¬after.Holds) :
    Fits next process after where
  locked file hlocked := absurd hlocked (hnone file)
  holds _ _ hheld := absurd hheld hholds
  owns _ _ howns := absurd (Phase.holds_of_owns howns) hholds
  named file there hopen hthere := h.named file there (hfile file hopen) (hpath ▸ hthere)

theorem Guarded.move (h : Guarded world) (hprocess : Fits world process phase) :
    Guarded (world.move process phase) :=
  h.moved rfl (fun _ _ hfits ↦ hfits) hprocess

omit [DecidableEq ι] in
theorem Guarded.holder_ne (h : Guarded world) (hfile : (world.phase process).file = none) (held : File) :
    world.holder held ≠ some process := fun hlocked ↦ by
  have hopen := ((h process).locked held hlocked).1
  rw [hfile] at hopen
  cases hopen

theorem Guarded.drop (h : Guarded world)
    (hfile : ∀ file, after.file = some file → (world.phase process).file = some file) (hholds : ¬after.Holds) :
    Guarded ((world.drop process).move process after) := by
  unfold World.drop
  split
  · next hnone => exact h.move ((h process).unlocked rfl (h.holder_ne hnone) hfile hholds)
  · next file hopen =>
    refine h.moved rfl (fun other hne hfits ↦ hfits.congr rfl (holder_unlock_iff hne)) ?_
    exact (h process).unlocked rfl (holder_unlock_ne (h process) hopen) hfile hholds

theorem Guarded.openPath {inode : ℕ} (h : Guarded world) (hfile : (world.phase process).file = none)
    (hfresh : world.path = none → ∀ process file, (world.phase process).file = some file → file.inode ≠ inode) :
    Guarded (world.openPath process inode) := by
  unfold World.openPath
  split
  · next file hpath =>
    refine h.move ⟨fun held hlocked ↦ absurd hlocked (h.holder_ne hfile held), fun _ _ hheld ↦ absurd hheld id,
      fun _ _ howns ↦ absurd howns id, fun held there hopen hthere _ ↦ ?_⟩
    obtain rfl : file = held := Option.some.inj hopen
    exact Option.some.inj (hthere.symm.trans hpath)
  · next hpath =>
    refine h.moved rfl (fun other _ hfits ↦ ?_) ?_
    · -- Nobody owns a path without a file.
      refine ⟨hfits.locked, hfits.holds, fun held hopen howns ↦ ?_, fun held there hopen hthere hinode ↦ ?_⟩
      · have hnone := hfits.owns held hopen howns
        rw [hpath] at hnone
        cases hnone
      · obtain rfl := Option.some.inj hthere
        exact absurd hinode.symm (hfresh hpath other held hopen)
    · refine ⟨fun held hlocked ↦ absurd hlocked (h.holder_ne hfile held), fun _ _ hheld ↦ absurd hheld id,
        fun _ _ howns ↦ absurd howns id, fun held there hopen hthere _ ↦ ?_⟩
      exact Option.some.inj (hthere.symm.trans hopen)

theorem Guarded.lock (h : Guarded world) (hphase : world.phase process = .contending file)
    (hfree : world.holder file = none) : Guarded ((world.lock process file).move process (.obtained file)) := by
  have hcontending := h process
  rw [hphase] at hcontending
  refine h.moved rfl (fun other hne hfits ↦ hfits.congr rfl fun held ↦ ?_) ?_
  · by_cases hheld : held = file
    · subst hheld
      simp [World.lock, hfree, hne.symm]
    · simp [World.lock, hheld]
  · constructor
    · intro held hlocked
      by_cases hheld : held = file
      · exact ⟨congrArg some hheld.symm, trivial⟩
      · have hbefore : world.holder held = some process := (Function.update_of_ne hheld _ _).symm.trans hlocked
        exact absurd (hcontending.locked held hbefore).2 id
    · intro held hopen _
      obtain rfl : file = held := Option.some.inj hopen
      simp [World.lock]
    · exact fun _ _ howns ↦ absurd howns id
    · exact fun held there hopen ↦ hcontending.named held there hopen

theorem Guarded.unlink (h : Guarded world) (hphase : world.phase process = .unlinking file) :
    Guarded ({ world with path := none }.move process (.unlocking file)) := by
  have hunlinking := h process
  rw [hphase] at hunlinking
  have hpath := hunlinking.owns file rfl trivial
  have hholder := hunlinking.holds file rfl trivial
  refine h.moved rfl (fun other hne hfits ↦ ?_) ?_
  · refine ⟨hfits.locked, hfits.holds, fun held hopen howns ↦ ?_, fun _ _ _ hthere ↦ by cases hthere⟩
    have hsame : file = held := Option.some.inj (hpath.symm.trans (hfits.owns held hopen howns))
    have hlocked := hfits.holds held hopen (Phase.holds_of_owns howns)
    rw [← hsame, hholder] at hlocked
    exact absurd (Option.some.inj hlocked).symm hne
  · exact ⟨fun held hlocked ↦ ⟨(hunlinking.locked held hlocked).1, trivial⟩,
      fun held hopen _ ↦ hunlinking.holds held hopen trivial, fun _ _ howns ↦ absurd howns id,
      fun _ _ _ hthere ↦ by cases hthere⟩

theorem Phase.advance_spec {path : Option File} (h : phase.advance path event = some after) :
    after.file = phase.file ∧ (phase.MayHold → after.MayHold) ∧ (after.Holds → phase.Holds) ∧
      (after.Owns → phase.Owns ∨ ∃ file, phase.file = some file ∧ path.map File.inode = some file.inode) := by
  unfold advance at h
  split at h
  case h_8 file seen =>
    obtain rfl := Option.some.inj h
    split_ifs with hseen
    · exact ⟨rfl, id, id, fun _ ↦ .inl hseen⟩
    · exact ⟨rfl, id, id, False.elim⟩
  case h_12 file seen =>
    obtain rfl := Option.some.inj h
    split_ifs
    · exact ⟨rfl, id, id, .inl⟩
    · exact ⟨rfl, id, id, False.elim⟩
  case h_6 file =>
    obtain rfl := Option.some.inj h
    exact ⟨rfl, id, id, fun howns ↦ .inr ⟨file, rfl, howns⟩⟩
  case h_15 => cases h
  all_goals
    obtain rfl := Option.some.inj h
    simp [Phase.file, Phase.MayHold, Phase.Holds, Phase.Owns]

theorem Phase.release_spec (h : phase.release event = some after) :
    (∀ file, after.file = some file → phase.file = some file) ∧ ¬after.Holds := by
  unfold release at h
  split at h
  case h_7 => cases h
  all_goals
    obtain rfl := Option.some.inj h
    simp [Phase.file, Phase.Holds]

theorem guarded_step {next : World ι} {action : ι × Event} (h : Guarded world) (hfresh : Fresh world action)
    (hstep : step world action = .ok next) : Guarded next := by
  obtain ⟨process, event⟩ := action
  unfold step at hstep
  dsimp only at hstep
  split at hstep
  case h_1 inode hphase | h_2 inode hphase =>
    obtain rfl := Except.ok.inj hstep
    refine h.openPath (by rw [hphase]; rfl) fun hnone other file hopen ↦ ?_
    simp only [Fresh, hnone] at hfresh
    exact hfresh other file hopen
  case h_3 file hphase =>
    split_ifs at hstep with hfree
    · obtain rfl := Except.ok.inj hstep
      exact h.lock hphase hfree
    · exact Except.ok.inj hstep ▸ h
  case h_4 file hphase =>
    obtain rfl := Except.ok.inj hstep
    exact h.unlink hphase
  case h_5 =>
    split at hstep
    · next after hadvance =>
      obtain rfl := Except.ok.inj hstep
      obtain ⟨hfile, hmay, hholds, howns⟩ := Phase.advance_spec hadvance
      refine h.move ((h process).next hfile hmay hholds fun file hopen hclaims ↦ ?_)
      obtain hbefore | ⟨own, hown, hread⟩ := howns hclaims
      · exact (h process).owns file hopen hbefore
      · -- The inode at the path is the own one, so the own file is at the path.
        obtain ⟨there, hthere, hinode⟩ := Option.map_eq_some_iff.mp hread
        obtain rfl : own = file := Option.some.inj (hown.symm.trans hopen)
        exact hthere.trans (congrArg some ((h process).named own there hopen hthere hinode))
    · next after _ hrelease =>
      obtain rfl := Except.ok.inj hstep
      exact h.drop (Phase.release_spec hrelease).1 (Phase.release_spec hrelease).2
    · cases hstep

omit [DecidableEq ι] in
theorem guarded_start (inode : Option ℕ) : Guarded (World.start inode : World ι) := fun _ ↦ {
  locked := fun _ hlocked ↦ by cases hlocked
  holds := fun _ hopen ↦ by cases hopen
  owns := fun _ hopen ↦ by cases hopen
  named := fun _ _ hopen ↦ by cases hopen }

/-- The process is in the protected block. -/
def World.Inside (world : World ι) (process : ι) : Prop := ∃ file, world.phase process = .inside file

/-- The process goes on after it saw another inode at the path. -/
def World.Retries (world : World ι) (process : ι) : Prop :=
  world.phase process = .again ∨ ∃ file, world.phase process = .retrying file

omit [DecidableEq ι] in
theorem Guarded.inside_unique (h : Guarded world) (hprocess : world.Inside process) (hother : world.Inside other) :
    process = other := by
  obtain ⟨file, hphase⟩ := hprocess
  obtain ⟨otherFile, hotherPhase⟩ := hother
  have hfits := h process
  have hotherFits := h other
  rw [hphase] at hfits
  rw [hotherPhase] at hotherFits
  -- Both have the file at the path and hold its lock.
  have hsame : file = otherFile := Option.some.inj ((hfits.owns file rfl trivial).symm.trans
    (hotherFits.owns otherFile rfl trivial))
  have hlocked := hfits.holds file rfl trivial
  rw [hsame, hotherFits.holds otherFile rfl trivial] at hlocked
  exact (Option.some.inj hlocked).symm

omit [DecidableEq ι] in
theorem Guarded.holder_ne_of_retries (h : Guarded world) (hretries : world.Retries process) (file : File) :
    world.holder file ≠ some process := by
  intro hlocked
  obtain ⟨hopen, hmay⟩ := (h process).locked file hlocked
  obtain hphase | ⟨own, hphase⟩ := hretries
  · rw [hphase] at hopen
    cases hopen
  · rw [hphase] at hmay
    exact hmay

/-- In every interleaving at most one process is in the protected block, and one that retries holds no lock. -/
theorem locked_excludes (inode : Option ℕ) (actions : List (ι × Event))
    (hfresh : Along step Fresh (World.start inode) actions) :
    (∀ process other, (run step (World.start inode) actions).Inside process →
      (run step (World.start inode) actions).Inside other → process = other) ∧
    ∀ process, (run step (World.start inode) actions).Retries process →
      ∀ file, (run step (World.start inode) actions).holder file ≠ some process := by
  have hguarded : Guarded (run step (World.start inode) actions) :=
    run_invariant_along (fun _ _ _ h hcondition hstep ↦ guarded_step h hcondition hstep) (guarded_start inode) hfresh
  exact ⟨fun _ _ hprocess hother ↦ hguarded.inside_unique hprocess hother,
    fun _ hretries ↦ hguarded.holder_ne_of_retries hretries⟩

namespace Sample

/-- A process leaves while another waits for the deleted file, which then enters with a new one. -/
def handover : List (Bool × Event) :=
  [(false, .openPath 7), (true, .openPath 7), (false, .flock), (true, .flock), (false, .stat), (false, .compare),
    (false, .leave), (false, .stat), (false, .compare), (false, .unlink), (false, .unlock), (true, .flock),
    (true, .statFails), (true, .compare), (true, .unlock), (true, .close), (true, .openPath 8), (true, .flock),
    (true, .stat), (true, .compare)]

example : (run step (World.start none) handover).phase true = .inside ⟨2, 8⟩ := by decide

end Sample

theorem locked_excludes_handover :
    (∀ process other, (run step (World.start none) Sample.handover).Inside process →
      (run step (World.start none) Sample.handover).Inside other → process = other) ∧
    ∀ process, (run step (World.start none) Sample.handover).Retries process →
      ∀ file, (run step (World.start none) Sample.handover).holder file ≠ some process :=
  locked_excludes none Sample.handover (by decide)

end UniMem.Frontmatter
