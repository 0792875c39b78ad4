import UniMem.HoldoutIo.Recording

/-!
# Recorded outcomes are permanent

Whatever was cut, the outcome log consists of rows and starts of rows, each on a line of its own. An outcome that
was recorded stays.
-/

namespace UniMem.HoldoutIo

open Library AppendedLines Capabilities FrontierProtocol

variable {φ τ ι ρ μ : Type} {setting : Setting φ τ}

/-- `json.loads` reads an outcome back, and raises on a row that is cut short. -/
structure ReadsRows (setting : Setting φ τ) : Prop where
  row : ∀ occasion succeeded moment, setting.loads (asciiDumps (outcomeRow occasion succeeded moment)) =
    some (outcomeRow occasion succeeded moment)
  torn : ∀ occasion succeeded moment start, start <+: asciiDumps (outcomeRow occasion succeeded moment) →
    start ≠ asciiDumps (outcomeRow occasion succeeded moment) → setting.loads start = none

/-- A row of an outcome, or the start of one. -/
def RowStart (line : Bytes) : Prop :=
  ∃ occasion succeeded moment, line <+: asciiDumps (outcomeRow occasion succeeded moment)

variable {byte : UInt8} {lines : List Bytes}

theorem le_of_mem_outcomeRow {occasion moment : String} {succeeded : Bool}
    (h : byte ∈ asciiDumps (outcomeRow occasion succeeded moment)) : 0x20 ≤ byte.toNat := by
  have hflag : ∀ byte ∈ (Json.bool succeeded).encode .spaced, 0x20 ≤ byte.toNat := by
    cases succeeded <;> decide +kernel
  simp only [outcomeRow, asciiDumps, asciiFields, List.mem_cons, List.mem_append, List.not_mem_nil, or_false] at h
  rcases h with rfl | (((h | rfl | rfl) | h) |
    ((((rfl | rfl) | h) | rfl | rfl) | h) | (((rfl | rfl) | h) | rfl | rfl) | h) | rfl
  all_goals first
    | decide
    | exact le_of_mem_asciiQuote h
    | exact hflag _ h

theorem head_outcomeRow (occasion : String) (succeeded : Bool) (moment : String) :
    (asciiDumps (outcomeRow occasion succeeded moment)).head? = some 0x7b := by
  rw [outcomeRow, asciiDumps]
  rfl

theorem RowStart.le_of_mem {line : Bytes} (h : RowStart line) (hbyte : byte ∈ line) :
    0x20 ≤ byte.toNat := by
  obtain ⟨occasion, succeeded, moment, hstarts⟩ := h
  exact le_of_mem_outcomeRow (hstarts.subset hbyte)

theorem RowStart.newline_notMem {line : Bytes} (h : RowStart line) : newline ∉ line :=
  fun hmem ↦ absurd (h.le_of_mem hmem) (by decide)

theorem rowStart_nil : RowStart [] := ⟨"", true, "", List.nil_prefix⟩

theorem RowStart.eq_nil_of_blank {line : Bytes} (h : RowStart line) (hblank : line.all isSpaceByte) : line = [] := by
  obtain ⟨occasion, succeeded, moment, rest, hrest⟩ := h
  cases line with
  | nil => rfl
  | cons byte line =>
    have hhead := head_outcomeRow occasion succeeded moment
    rw [← hrest] at hhead
    obtain rfl := Option.some.inj hhead
    exact absurd (List.all_eq_true.mp hblank _ List.mem_cons_self) (by decide)

theorem parseOutcomeLine_of_prefix (hreads : ReadsRows setting) {occasion : String} (hoccasion : occasion ≠ "")
    {succeeded : Bool} {moment : String} {start : Bytes}
    (h : start <+: asciiDumps (outcomeRow occasion succeeded moment)) (out : Outcomes) :
    parseOutcomeLine setting out start =
      if start = asciiDumps (outcomeRow occasion succeeded moment) then assign occasion succeeded out else out := by
  by_cases hwhole : start = asciiDumps (outcomeRow occasion succeeded moment)
  · rw [if_pos hwhole, hwhole, parseOutcomeLine, hreads.row]
    exact if_pos hoccasion
  · rw [if_neg hwhole, parseOutcomeLine, hreads.torn _ _ _ _ h hwhole]

theorem parseOutcomeLine_nil (hreads : ReadsRows setting) (out : Outcomes) : parseOutcomeLine setting out [] =
    out := by
  rw [parseOutcomeLine, hreads.torn "" true "" [] List.nil_prefix]
  intro h
  have hhead := head_outcomeRow "" true ""
  rw [← h] at hhead
  cases hhead

/-- The bytes are lines that start rows, and the start of a row. -/
structure Rows (bytes : Bytes) (lines : List Bytes) (last : Bytes) : Prop where
  eq : bytes = lines.flatMap (· ++ [newline]) ++ last
  lines : ∀ line ∈ lines, RowStart line
  last : RowStart last

theorem closed_lines (lines : List Bytes) : Closed (lines.flatMap (· ++ [newline])) := by
  rcases List.eq_nil_or_concat lines with rfl | ⟨before, line, rfl⟩
  · exact closed_nil
  · rw [List.concat_eq_append, List.flatMap_append, List.flatMap_singleton, ← List.append_assoc]
    exact closed_concat _

theorem splitlines_lines (h : ∀ line ∈ lines, RowStart line) :
    splitlines (lines.flatMap (· ++ [newline])) = lines := by
  induction lines with
  | nil => rfl
  | cons line lines ih =>
    obtain ⟨hline, hlines⟩ := List.forall_mem_cons.mp h
    rw [List.flatMap_cons, splitlines_append (closed_concat line), ih hlines,
      splitlines_of_printable fun byte ↦ hline.le_of_mem]
    rfl

theorem Rows.parseOutcomes_eq (hreads : ReadsRows setting) {bytes last : Bytes} (h : Rows bytes lines last) :
    parseOutcomes setting bytes = (lines ++ [last]).foldl (parseOutcomeLine setting) [] := by
  have hwhole : whole bytes = lines.flatMap (· ++ [newline]) := by
    rw [h.eq, whole_append (closed_lines lines), whole_eq_nil_of_notMem h.last.newline_notMem, List.append_nil]
  have hpending : pending bytes = last := by
    rw [h.eq, pending_append (closed_lines lines), pending_of_notMem h.last.newline_notMem]
  rw [parseOutcomes, hwhole, hpending, absorbOutcomes, splitlines_lines h.lines, List.foldl_append, mergeOutcome]
  by_cases hblank : last.all isSpaceByte
  · rw [if_pos hblank, h.last.eq_nil_of_blank hblank]
    exact (parseOutcomeLine_nil hreads _).symm
  · rw [if_neg hblank]
    rfl

/-- A file of rows and starts of rows. -/
def IsRows (bytes : Bytes) : Prop := ∃ lines last, Rows bytes lines last

theorem isRows_nil : IsRows [] := ⟨[], [], rfl, fun _ h ↦ (nomatch h), rowStart_nil⟩

section Appending

variable {base done : Bytes} {occasion moment : String} {succeeded : Bool}

theorem rows_append_of_closed (hreads : ReadsRows setting) (hoccasion : occasion ≠ "")
    (hbase : Rows base lines []) (hdone : done <+: asciiDumps (outcomeRow occasion succeeded moment) ++ [newline]) :
    IsRows (base ++ done) ∧ (parseOutcomes setting (base ++ done) = parseOutcomes setting base ∧
          done ≠ asciiDumps (outcomeRow occasion succeeded moment) ++ [newline] ∨
        parseOutcomes setting (base ++ done) = assign occasion succeeded (parseOutcomes setting base)) := by
  have hparsed : parseOutcomes setting base = lines.foldl (parseOutcomeLine setting) [] := by
    rw [hbase.parseOutcomes_eq hreads, List.foldl_append]
    exact parseOutcomeLine_nil hreads _
  have heq := hbase.eq
  rw [List.append_nil] at heq
  obtain rfl | hstart := List.prefix_concat_iff.mp hdone
  · have hrow : RowStart (asciiDumps (outcomeRow occasion succeeded moment)) :=
      ⟨occasion, succeeded, moment, List.prefix_rfl⟩
    have hrows : Rows (base ++ (asciiDumps (outcomeRow occasion succeeded moment) ++ [newline]))
        (lines ++ [asciiDumps (outcomeRow occasion succeeded moment)]) [] := by
      refine ⟨?_, ?_, rowStart_nil⟩
      · rw [heq, List.flatMap_append, List.flatMap_singleton, List.append_nil]
      · exact List.forall_mem_append.mpr ⟨hbase.lines, List.forall_mem_singleton.mpr hrow⟩
    refine ⟨⟨_, _, hrows⟩, Or.inr ?_⟩
    rw [hrows.parseOutcomes_eq hreads, hparsed, List.foldl_append, List.foldl_append]
    show parseOutcomeLine setting (parseOutcomeLine setting _ _) [] = _
    rw [parseOutcomeLine_nil hreads, parseOutcomeLine_of_prefix hreads hoccasion List.prefix_rfl, if_pos rfl]
  · have hrows : Rows (base ++ done) lines done := ⟨by rw [heq], hbase.lines, occasion, succeeded, moment, hstart⟩
    refine ⟨⟨_, _, hrows⟩, ?_⟩
    have hread : parseOutcomes setting (base ++ done) =
        parseOutcomeLine setting (lines.foldl (parseOutcomeLine setting) []) done := by
      rw [hrows.parseOutcomes_eq hreads, List.foldl_append]
      rfl
    rw [hread, hparsed, parseOutcomeLine_of_prefix hreads hoccasion hstart]
    by_cases hwhole : done = asciiDumps (outcomeRow occasion succeeded moment)
    · exact Or.inr (if_pos hwhole)
    · refine Or.inl ⟨if_neg hwhole, ?_⟩
      rintro rfl
      exact absurd hstart.length_le (by simp)

theorem getLast?_ne_of_notMem {line : Bytes} (hline : line ≠ []) (h : newline ∉ line) (before : Bytes) :
    (before ++ line).getLast? ≠ some newline := by
  intro hlast
  rw [List.getLast?_append_of_ne_nil _ hline] at hlast
  exact h (List.mem_of_getLast? hlast)

theorem rows_append (hreads : ReadsRows setting) (hoccasion : occasion ≠ "") (hbase : IsRows base)
    (hdone : done <+: appended base [asciiDumps (outcomeRow occasion succeeded moment)]) :
    IsRows (base ++ done) ∧ (parseOutcomes setting (base ++ done) = parseOutcomes setting base ∧
          done ≠ appended base [asciiDumps (outcomeRow occasion succeeded moment)] ∨
        parseOutcomes setting (base ++ done) = assign occasion succeeded (parseOutcomes setting base)) := by
  obtain ⟨lines, last, hrows⟩ := hbase
  unfold appended at hdone ⊢
  rw [List.flatMap_singleton] at hdone ⊢
  by_cases hlast : last = []
  · subst hlast
    have hlead : ¬(base ≠ [] ∧ base.getLast? ≠ some newline) := by
      rintro ⟨hne, hend⟩
      have heq := hrows.eq
      rw [List.append_nil] at heq
      have hclosed := closed_lines lines
      rw [← heq] at hclosed
      obtain rfl | ⟨before, rfl⟩ := hclosed.eq_nil_or_concat
      · exact hne rfl
      · exact hend (List.getLast?_concat ..)
    rw [if_neg hlead, List.nil_append] at hdone ⊢
    exact rows_append_of_closed hreads hoccasion hrows hdone
  · have hlead : base ≠ [] ∧ base.getLast? ≠ some newline := by
      rw [hrows.eq]
      exact ⟨by simp [hlast], getLast?_ne_of_notMem hlast hrows.last.newline_notMem _⟩
    rw [if_pos hlead, List.singleton_append] at hdone ⊢
    cases done with
    | nil =>
      rw [List.append_nil]
      exact ⟨⟨lines, last, hrows⟩, Or.inl ⟨rfl, (List.cons_ne_nil _ _).symm⟩⟩
    | cons byte done =>
      obtain ⟨rfl, hrest⟩ := List.cons_prefix_cons.mp hdone
      have hclosed : Rows (base ++ [newline]) (lines ++ [last]) [] := by
        refine ⟨?_, List.forall_mem_append.mpr ⟨hrows.lines, List.forall_mem_singleton.mpr hrows.last⟩, rowStart_nil⟩
        rw [hrows.eq, List.flatMap_append, List.flatMap_singleton, List.append_nil, List.append_assoc]
      have hsame : parseOutcomes setting (base ++ [newline]) = parseOutcomes setting base := by
        rw [hclosed.parseOutcomes_eq hreads, hrows.parseOutcomes_eq hreads, List.foldl_append]
        exact parseOutcomeLine_nil hreads _
      have happend := rows_append_of_closed hreads hoccasion hclosed hrest
      rw [List.append_assoc, List.singleton_append, hsame] at happend
      refine ⟨happend.1, happend.2.imp_left fun h ↦ ⟨h.1, fun heq ↦ h.2 (List.cons.inj heq).2⟩⟩

end Appending

/-- The outcomes agree with what has been recorded. -/
def Keeps (recorded : List (String × Bool)) (outcomes : Outcomes) : Prop :=
  ∀ entry ∈ recorded, occasionArgument entry.1 = .ok entry.1 ∧ outcomes.lookup entry.1 = some entry.2

theorem ne_empty_of_occasionArgument {occasion result : String} (h : occasionArgument occasion = .ok result) :
    occasion ≠ "" ∧ result = occasion := by
  unfold occasionArgument at h
  split_ifs at h
  obtain ⟨hchecks, rfl⟩ := text_eq_ok_iff.mp h
  refine ⟨?_, rfl⟩
  rintro rfl
  exact hchecks (Or.inl rfl)

/-- What a writer does: some bytes of a row behind a file without an outcome of its occasion. -/
structure Appending (setting : Setting φ τ) (recorded : List (String × Bool)) (bytes : Bytes)
    (writer : Writer ρ (String × Bool)) (base done : Bytes) (moment : String) : Prop where
  eq : bytes = base ++ done
  written : done ++ writer.rest = appended base [asciiDumps (outcomeRow writer.task.1 writer.task.2 moment)]
  rows : IsRows base
  keeps : Keeps recorded (parseOutcomes setting base)
  occasion : occasionArgument writer.task.1 = .ok writer.task.1
  absent : (parseOutcomes setting base).lookup writer.task.1 = none

/-- The outcome log consists of rows, and what was recorded is read from it. -/
def Settled (setting : Setting φ τ) (recorded : List (String × Bool)) (bytes : Bytes) : Prop :=
  IsRows bytes ∧ Keeps recorded (parseOutcomes setting bytes)

variable {recorded : List (String × Bool)} {bytes base done : Bytes} {moment : String}
  {writer : Writer ρ (String × Bool)}

theorem Appending.settled (hreads : ReadsRows setting)
    (h : Appending setting recorded bytes writer base done moment) :
    Settled setting recorded bytes ∧
      (writer.rest = [] → (parseOutcomes setting bytes).lookup writer.task.1 = some writer.task.2) := by
  have hstarts : done <+: appended base [asciiDumps (outcomeRow writer.task.1 writer.task.2 moment)] :=
    ⟨writer.rest, h.written⟩
  obtain ⟨hrows, hparsed⟩ := rows_append hreads (ne_empty_of_occasionArgument h.occasion).1 h.rows hstarts
  rw [← h.eq] at hrows hparsed
  refine ⟨⟨hrows, ?_⟩, ?_⟩
  · intro entry hentry
    obtain ⟨hargument, hlookup⟩ := h.keeps entry hentry
    refine ⟨hargument, ?_⟩
    obtain ⟨hsame, -⟩ | hassigned := hparsed
    · rw [hsame, hlookup]
    · have hne : entry.1 ≠ writer.task.1 := by
        intro heq
        rw [heq, h.absent] at hlookup
        cases hlookup
      rw [hassigned, lookup_assign, if_neg hne, hlookup]
  · intro hrest
    obtain ⟨-, hne⟩ | hassigned := hparsed
    · have hwritten := h.written
      rw [hrest, List.append_nil] at hwritten
      exact absurd hwritten hne
    · rw [hassigned, lookup_assign, if_pos rfl]

theorem Appending.write (h : Appending setting recorded bytes writer base done moment) (count : ℕ) :
    Appending setting recorded (bytes ++ writer.rest.take count) { writer with rest := writer.rest.drop count } base
      (done ++ writer.rest.take count) moment where
  eq := by rw [h.eq, List.append_assoc]
  written := by
    rw [List.append_assoc, List.take_append_drop]
    exact h.written
  rows := h.rows
  keeps := h.keeps
  occasion := h.occasion
  absent := h.absent

/-- The outcome log between two steps. -/
def Progress (setting : Setting φ τ) (recorded : List (String × Bool)) (bytes : Bytes) :
    Option (Writer ρ (String × Bool)) → Prop
  | none => Settled setting recorded bytes
  | some writer => ∃ base done moment, Appending setting recorded bytes writer base done moment

theorem Progress.settled (hreads : ReadsRows setting) {writer : Option (Writer ρ (String × Bool))}
    (h : Progress setting recorded bytes writer) : Settled setting recorded bytes := by
  cases writer with
  | none => exact h
  | some writer =>
    obtain ⟨base, done, moment, hwriter⟩ := h
    exact (hwriter.settled hreads).1

/-- What holds between the steps of a run. -/
structure World.Sound (setting : Setting φ τ) (world : World φ τ ι ρ) : Prop where
  outcomes : world.outcomes.Tracked (absorbOutcomes setting) []
  assignments : world.assignments.Tracked (absorbLog setting) ([], 0)
  file : world.outcomes.writer.isSome → world.outcomes.file.isSome
  progress : Progress setting world.recorded (content world.outcomes.file) world.outcomes.writer

/-- A store without what its processes remember. -/
def World.stored (world : World φ τ ι ρ) : World φ τ ι ρ :=
  { world with
    outcomes := { world.outcomes with caches := fun _ ↦ none }
    assignments := { world.assignments with caches := fun _ ↦ none } }

namespace World

theorem sound_init : (init : World φ τ ι ρ).Sound setting where
  outcomes := Log.tracked_init
  assignments := Log.tracked_init
  file := fun h ↦ (nomatch h)
  progress := ⟨isRows_nil, fun _ h ↦ (nomatch h)⟩

variable {world : World φ τ ι ρ}

theorem Sound.withAuditor (h : world.Sound setting) (auditor : Option (Auditor ρ))
    (secondary : List (String × Label)) : ({ world with auditor, secondary } : World φ τ ι ρ).Sound setting :=
  ⟨h.outcomes, h.assignments, h.file, h.progress⟩


theorem Sound.release (hreads : ReadsRows setting) (h : world.Sound setting)
    {outcomes : Log ρ ι (String × Bool) Outcomes}
    (hfile : outcomes.file = world.outcomes.file) (hwriter : outcomes.writer = none)
    (htracked : outcomes.Tracked (absorbOutcomes setting) []) :
    ({ world with outcomes } : World φ τ ι ρ).Sound setting where
  outcomes := htracked
  assignments := h.assignments
  file := fun hsome ↦ by
    rw [hwriter] at hsome
    cases hsome
  progress := by
    show Progress setting world.recorded (content outcomes.file) outcomes.writer
    rw [hfile, hwriter]
    exact h.progress.settled hreads

theorem Sound.writeOutcome (h : world.Sound setting) (count : ℕ) :
    ({ world with outcomes := world.outcomes.write count } : World φ τ ι ρ).Sound setting := by
  refine ⟨h.outcomes.write count, h.assignments, ?_, ?_⟩
  · intro hsome
    cases hwriter : world.outcomes.writer with
    | none =>
      simp only [Log.write, hwriter] at hsome
      cases hsome
    | some writer =>
      have hfile := h.file (by rw [hwriter]; rfl)
      simp only [Log.write, hwriter, Option.isSome_map]
      exact hfile
  · have hprogress := h.progress
    cases hwriter : world.outcomes.writer with
    | none =>
      simp only [Log.write, hwriter]
      rwa [hwriter] at hprogress
    | some writer =>
      rw [hwriter] at hprogress
      obtain ⟨base, done, moment, happending⟩ := hprogress
      obtain ⟨file, hfile⟩ := Option.isSome_iff_exists.mp (h.file (by rw [hwriter]; rfl))
      simp only [Log.write, hwriter, hfile]
      rw [hfile] at happending
      exact ⟨base, _, moment, happending.write count⟩

section Processes

variable [DecidableEq ρ]

theorem Sound.crash (hreads : ReadsRows setting) (h : world.Sound setting) (process : ρ) :
    ({ world with
      outcomes := world.outcomes.crash process
      assignments := world.assignments.crash process
      auditor := world.auditor.filter fun auditor ↦ auditor.process ≠ process } : World φ τ ι ρ).Sound setting := by
  refine ⟨h.outcomes.crash process, h.assignments.crash process, ?_, ?_⟩
  · intro hsome
    obtain ⟨writer, hwriter⟩ := Option.isSome_iff_exists.mp hsome
    exact h.file (by rw [(Option.filter_eq_some_iff.mp hwriter).1]; rfl)
  · show Progress setting world.recorded (content world.outcomes.file)
      (world.outcomes.writer.filter fun writer ↦ writer.process ≠ process)
    cases hwriter : world.outcomes.writer with
    | none => exact h.progress.settled hreads
    | some writer =>
      by_cases hown : writer.process = process
      · rw [Option.filter_some, if_neg (by simpa using hown)]
        exact h.progress.settled hreads
      · rw [Option.filter_some, if_pos (by simpa using hown), ← hwriter]
        exact h.progress

end Processes

variable [DecidableEq ι] [DecidableEq ρ]

section

variable (h : world.Sound setting)
include h

theorem Sound.readOutcomes (process : ρ) (size : ℕ) :
    (world.readOutcomes setting process size).1 = parseOutcomes setting (content world.outcomes.file) ∧
      (world.readOutcomes setting process size).2.Sound setting ∧
      (world.readOutcomes setting process size).2.stored = world.stored := by
  obtain ⟨heq, hcache⟩ := outcomesShared_eq setting (h.outcomes process) size
  exact ⟨heq, ⟨h.outcomes.remember process hcache, h.assignments, h.file, h.progress⟩, rfl⟩

theorem Sound.readLog (process : ρ) (size : ℕ) :
    (world.readLog setting process size).1 = parseLog setting (content world.assignments.file) ∧
      (world.readLog setting process size).2.Sound setting ∧
      (world.readLog setting process size).2.stored = world.stored := by
  obtain ⟨heq, hcache⟩ := readLog_eq setting (h.assignments process) size
  exact ⟨heq, ⟨h.outcomes, h.assignments.remember process hcache, h.file, h.progress⟩, rfl⟩

/-- `record_metrics` up to its write, which it makes only when no outcome of the occasion is read. -/
theorem Sound.audit (auditing : Auditing μ) (process : ρ) (occasion : String) (values : μ)
    (size logSize : ℕ) :
    (world.audit setting auditing process occasion values size logSize).1.Sound setting ∧
      ((world.audit setting auditing process occasion values size logSize).2 = .writing ∧
          (parseOutcomes setting (content world.outcomes.file)).lookup occasion = none ∨
        (world.audit setting auditing process occasion values size logSize).2 ≠ .writing ∧
          (world.audit setting auditing process occasion values size logSize).1.stored = world.stored) := by
  unfold World.audit
  split
  · exact ⟨h, Or.inr ⟨nofun, rfl⟩⟩
  · exact ⟨h, Or.inr ⟨nofun, rfl⟩⟩
  · dsimp only
    split
    · split
      · exact ⟨h, Or.inr ⟨nofun, rfl⟩⟩
      · exact ⟨h, Or.inr ⟨nofun, rfl⟩⟩
    · obtain ⟨hread, hsound, hstored⟩ := h.readOutcomes process size
      obtain ⟨-, hsound', hstored'⟩ := hsound.readLog process logSize
      split_ifs with hpresent hmembers hpermits
      · exact ⟨hsound, Or.inr ⟨nofun, hstored⟩⟩
      · exact ⟨hsound', Or.inr ⟨nofun, hstored'.trans hstored⟩⟩
      · exact ⟨hsound', Or.inr ⟨nofun, hstored'.trans hstored⟩⟩
      · refine ⟨hsound'.withAuditor _ _, Or.inl ⟨rfl, ?_⟩⟩
        rw [hread, Bool.not_eq_true, Option.isSome_eq_false_iff, Option.isNone_iff_eq_none] at hpresent
        exact hpresent

theorem Sound.record_of_some {occasion : String} {existing : Bool}
    (hoccasion : occasionArgument occasion = .ok occasion)
    (hexisting : (parseOutcomes setting (content world.outcomes.file)).lookup occasion = some existing)
    (process : ρ) (succeeded : Bool) (moment : String) (size : ℕ) (identity : ι) :
    world.record setting process occasion succeeded moment size identity =
      ((world.readOutcomes setting process size).2,
        if existing = succeeded then .returned false else conflict setting occasion existing) := by
  rw [World.record, hoccasion]
  dsimp only
  rw [(h.readOutcomes process size).1, hexisting]
  dsimp only
  split_ifs <;> rfl

theorem Sound.record (hlock : world.outcomes.writer = none) (process : ρ)
    (occasion : String) (succeeded : Bool) (moment : String) (size : ℕ) (identity : ι) :
    (world.record setting process occasion succeeded moment size identity).1.Sound setting := by
  cases hoccasion : occasionArgument occasion with
  | error error =>
    rw [World.record, hoccasion]
    exact h
  | ok result =>
    obtain ⟨-, rfl⟩ := ne_empty_of_occasionArgument hoccasion
    obtain ⟨hread, hsound, -⟩ := h.readOutcomes process size
    cases hlookup : (parseOutcomes setting (content world.outcomes.file)).lookup result with
    | some existing =>
      rw [h.record_of_some hoccasion hlookup]
      exact hsound
    | none =>
      rw [World.record, hoccasion]
      dsimp only
      rw [hread, hlookup]
      have hprogress := h.progress
      rw [hlock] at hprogress
      refine ⟨hsound.outcomes.start _ _ _ _, hsound.assignments, fun _ ↦ rfl, content world.outcomes.file, [], moment,
        ?_, rfl, hprogress.1, hprogress.2, hoccasion, hlookup⟩
      rw [List.append_nil]
      show content (some (world.outcomes.file.getD _)) = _
      cases world.outcomes.file <;> rfl

end

theorem recorded_audit (auditing : Auditing μ) (world : World φ τ ι ρ) (process : ρ) (occasion : String) (values : μ)
    (size logSize : ℕ) :
    (world.audit setting auditing process occasion values size logSize).1.recorded = world.recorded := by
  unfold World.audit
  split
  · rfl
  · rfl
  · dsimp only
    split
    · split <;> rfl
    · split_ifs <;> rfl

theorem recorded_record (world : World φ τ ι ρ) (process : ρ) (occasion : String) (succeeded : Bool) (moment : String)
    (size : ℕ) (identity : ι) :
    (world.record setting process occasion succeeded moment size identity).1.recorded = world.recorded := by
  unfold World.record
  split
  · rfl
  · dsimp only
    split
    · split <;> rfl
    · rfl

variable {auditing : Auditing μ} {next : World φ τ ι ρ}

theorem Sound.finishOutcome (hreads : ReadsRows setting) (h : world.Sound setting)
    (hstep : world.step setting auditing .finishOutcome = .ok next) :
    next.Sound setting ∧ world.recorded ⊆ next.recorded := by
  rw [World.step] at hstep
  split at hstep
  · cases hstep
  · next writer hwriter =>
    split_ifs at hstep with hrest
    obtain rfl := Except.ok.inj hstep
    have hprogress := h.progress
    rw [hwriter] at hprogress
    obtain ⟨base, done, moment, happending⟩ := hprogress
    obtain ⟨⟨hrows, hkeeps⟩, hnew⟩ := happending.settled hreads
    refine ⟨⟨h.outcomes, h.assignments, fun hsome ↦ (nomatch hsome), hrows, ?_⟩, List.subset_cons_self _ _⟩
    exact List.forall_mem_cons.mpr ⟨⟨happending.occasion, hnew hrest⟩, hkeeps⟩

theorem Sound.step (hreads : ReadsRows setting) (h : world.Sound setting) {action : Action ι ρ μ}
    (hstep : world.step setting auditing action = .ok next) :
    next.Sound setting ∧ world.recorded ⊆ next.recorded := by
  cases action with
  | readOutcomes process size =>
    obtain rfl := Except.ok.inj hstep
    exact ⟨(h.readOutcomes process size).2.1, List.Subset.refl _⟩
  | readLog process size =>
    obtain rfl := Except.ok.inj hstep
    exact ⟨(h.readLog process size).2.1, List.Subset.refl _⟩
  | audit process occasion values size logSize =>
    rw [World.step] at hstep
    split_ifs at hstep
    obtain rfl := Except.ok.inj hstep
    refine ⟨(h.audit auditing process occasion values size logSize).1, ?_⟩
    rw [recorded_audit]
    exact List.Subset.refl _
  | label written =>
    rw [World.step] at hstep
    split at hstep
    · cases hstep
    · obtain rfl := Except.ok.inj hstep
      exact ⟨h.withAuditor _ _, List.Subset.refl _⟩
  | record process occasion succeeded moment size identity =>
    rw [World.step] at hstep
    split_ifs at hstep with hlock
    obtain rfl := Except.ok.inj hstep
    rw [Bool.not_eq_true, Option.isSome_eq_false_iff, Option.isNone_iff_eq_none] at hlock
    refine ⟨h.record hlock process occasion succeeded moment size identity, ?_⟩
    rw [recorded_record]
    exact List.Subset.refl _
  | assign process rows identity =>
    rw [World.step] at hstep
    split_ifs at hstep
    obtain rfl := Except.ok.inj hstep
    exact ⟨⟨h.outcomes, h.assignments.start _ _ _ _, h.file, h.progress⟩, List.Subset.refl _⟩
  | writeOutcome count =>
    obtain rfl := Except.ok.inj hstep
    exact ⟨h.writeOutcome count, List.Subset.refl _⟩
  | writeAssignments count =>
    obtain rfl := Except.ok.inj hstep
    exact ⟨⟨h.outcomes, h.assignments.write count, h.file, h.progress⟩, List.Subset.refl _⟩
  | finishOutcome => exact h.finishOutcome hreads hstep
  | finishAssignments =>
    rw [World.step] at hstep
    split at hstep
    · cases hstep
    · split_ifs at hstep
      obtain rfl := Except.ok.inj hstep
      exact ⟨⟨h.outcomes, h.assignments, h.file, h.progress⟩, List.Subset.refl _⟩
  | tearOutcome =>
    obtain rfl := Except.ok.inj hstep
    exact ⟨h.release hreads rfl rfl h.outcomes, List.Subset.refl _⟩
  | tearAssignments =>
    obtain rfl := Except.ok.inj hstep
    exact ⟨⟨h.outcomes, h.assignments, h.file, h.progress⟩, List.Subset.refl _⟩
  | crash process =>
    obtain rfl := Except.ok.inj hstep
    exact ⟨h.crash hreads process, List.Subset.refl _⟩

theorem Sound.run (hreads : ReadsRows setting) (auditing : Auditing μ) (h : world.Sound setting)
    (actions : List (Action ι ρ μ)) :
    (run (World.step setting auditing) world actions).Sound setting ∧
      world.recorded ⊆ (run (World.step setting auditing) world actions).recorded := by
  apply @run_invariant _ _ _ (World.step setting auditing) world
    (fun state ↦ state.Sound setting ∧ world.recorded ⊆ state.recorded)
  · rintro state action next ⟨hsound, hrecorded⟩ hstep
    obtain ⟨hnext, hmore⟩ := hsound.step hreads hstep
    exact ⟨hnext, List.Subset.trans hrecorded hmore⟩
  · exact ⟨h, List.Subset.refl _⟩

end World

variable [DecidableEq ι] [DecidableEq ρ]

/-- With writes cut anywhere, a recorded outcome is read ever after and never contradicted. -/
theorem recorded_outcomes_stay (hreads : ReadsRows setting) (auditing : Auditing μ)
    (before after : List (Action ι ρ μ)) :
    let world := run (World.step setting auditing) (.init : World φ τ ι ρ) (before ++ after)
    (∀ process size,
      (world.readOutcomes setting process size).1 = parseOutcomes setting (content world.outcomes.file)) ∧
    (∀ process size, (world.readLog setting process size).1 = parseLog setting (content world.assignments.file)) ∧
    ∀ occasion value,
      (occasion, value) ∈ (run (World.step setting auditing) (.init : World φ τ ι ρ) before).recorded →
      (parseOutcomes setting (content world.outcomes.file)).lookup occasion = some value ∧
      (∀ process values size logSize,
        (world.audit setting auditing process occasion values size logSize).2 ≠ .writing ∧
          (world.audit setting auditing process occasion values size logSize).1.stored = world.stored) ∧
      ∀ process succeeded moment size identity, succeeded ≠ value →
        (world.record setting process occasion succeeded moment size identity).2 = conflict setting occasion value ∧
          (world.record setting process occasion succeeded moment size identity).1.stored = world.stored := by
  intro world
  obtain ⟨hbefore, -⟩ := World.sound_init.run hreads auditing before
  obtain ⟨hsound, hmore⟩ := hbefore.run hreads auditing after
  rw [← run_append] at hsound hmore
  refine ⟨fun process size ↦ (hsound.readOutcomes process size).1,
    fun process size ↦ (hsound.readLog process size).1, ?_⟩
  intro occasion value hrecorded
  obtain ⟨hargument, hlookup⟩ := (hsound.progress.settled hreads).2 _ (hmore hrecorded)
  refine ⟨hlookup, ?_, ?_⟩
  · intro process values size logSize
    obtain ⟨-, ⟨-, habsent⟩ | hunchanged⟩ := hsound.audit auditing process occasion values size logSize
    · rw [hlookup] at habsent
      cases habsent
    · exact hunchanged
  · intro process succeeded moment size identity hne
    have hrecord := hsound.record_of_some hargument hlookup process succeeded moment size identity
    rw [if_neg (Ne.symm hne)] at hrecord
    rw [hrecord]
    exact ⟨rfl, (hsound.readOutcomes process size).2.2⟩

/-! A setting that reads the rows of outcomes and nothing else. -/

theorem outcomeRow_inj_of_prefix {occasion occasion' moment moment' : String} {succeeded succeeded' : Bool}
    (h : asciiDumps (outcomeRow occasion succeeded moment) <+: asciiDumps (outcomeRow occasion' succeeded' moment')) :
    occasion = occasion' ∧ succeeded = succeeded' ∧ moment = moment' := by
  obtain ⟨rest, hrest⟩ := h
  simp only [outcomeRow, asciiDumps, asciiFields, List.cons_append, List.append_assoc, List.nil_append,
    List.cons.injEq, true_and, List.append_cancel_left_eq] at hrest
  obtain ⟨rfl, hrest⟩ := asciiQuote_append_inj hrest
  simp only [List.cons.injEq, true_and, List.append_cancel_left_eq] at hrest
  have hflag : succeeded = succeeded' := by
    have hhead := congrArg List.head? hrest
    revert hhead
    cases succeeded <;> cases succeeded' <;> first | exact fun _ ↦ rfl | exact fun hhead ↦ (nomatch hhead)
  subst hflag
  simp only [List.append_cancel_left_eq, List.cons.injEq, true_and] at hrest
  exact ⟨rfl, rfl, (asciiQuote_append_inj hrest).1⟩

/-- Some bytes are the text of the row of an outcome. -/
def IsTextOf (bytes : Bytes) (row : Json) : Prop :=
  (∃ occasion succeeded moment, row = outcomeRow occasion succeeded moment) ∧ bytes = asciiDumps row

/-- The row whose text some bytes are. -/
noncomputable def rowOf (bytes : Bytes) : Option Json :=
  haveI := Classical.propDecidable
  if h : ∃ row, IsTextOf bytes row then some h.choose else none

/-- A setting that reads the rows of outcomes and nothing else. -/
noncomputable def rowSetting : Setting ℕ ℕ where
  loads := rowOf
  loadsText := fun _ ↦ none
  str := fun _ ↦ ""
  repr := id
  float := fun _ ↦ none
  int := fun _ ↦ none
  fromisoformat := fun _ ↦ none
  defaultRate := 0

theorem readsRows_rowSetting : ReadsRows rowSetting where
  row := by
    intro occasion succeeded moment
    have h : ∃ row, IsTextOf (asciiDumps (outcomeRow occasion succeeded moment)) row :=
      ⟨_, ⟨_, _, _, rfl⟩, rfl⟩
    show rowOf _ = _
    rw [rowOf, dif_pos h]
    obtain ⟨⟨occasion', succeeded', moment', hrow⟩, htext⟩ := h.choose_spec
    rw [hrow] at htext
    obtain ⟨rfl, rfl, rfl⟩ := outcomeRow_inj_of_prefix ⟨[], (List.append_nil _).trans htext⟩
    rw [hrow]
  torn := by
    intro occasion succeeded moment start hstarts hne
    show rowOf _ = _
    rw [rowOf, dif_neg]
    rintro ⟨row, ⟨occasion', succeeded', moment', rfl⟩, rfl⟩
    obtain ⟨rfl, rfl, rfl⟩ := outcomeRow_inj_of_prefix hstarts
    exact hne rfl

/-- A store without registrations. -/
def unregistered : Auditing ℕ := ⟨.ok, id, fun occasion _ ↦ occasion, fun _ ↦ false, fun _ ↦ false⟩

/-- A process records an outcome. -/
def report : List (Action ℕ ℕ ℕ) := [.record 1 "a" true "2" 0 7, .writeOutcome 90, .finishOutcome]

/-- The row of another outcome is torn. -/
def tornReport : List (Action ℕ ℕ ℕ) := [.record 0 "b" false "1" 90 7, .writeOutcome 30, .crash 0]

theorem recorded_outcomes_stay_tornReport :
    (parseOutcomes rowSetting (content (run (World.step rowSetting unregistered) (.init : World ℕ ℕ ℕ ℕ)
      (report ++ tornReport)).outcomes.file)).lookup "a" = some true := by
  have hrecorded : ("a", true) ∈
      (run (World.step rowSetting unregistered) (.init : World ℕ ℕ ℕ ℕ) report).recorded := by
    decide +kernel
  exact ((recorded_outcomes_stay readsRows_rowSetting unregistered report tornReport).2.2 "a" true hrecorded).1

end UniMem.HoldoutIo
