import UniMem.FrontierProtocol.Numbers
import UniMem.Library.Windows

/-!
# The signal monitor

Formulas of bounded signal temporal logic, their meaning on a trace, and `_robust` with its bound on work. Numbers
are the exact values of floats; operations on floats are parameters.
-/

namespace UniMem.Robotics.Shield

open Library FrontierProtocol

/-- The comparisons of a predicate. -/
inductive Comparison where
  | atLeast
  | above
  | atMost
  | below
  deriving DecidableEq

/-- A normalized formula. -/
inductive Formula where
  | predicate (signal : String) (cmp : Comparison) (value : ℚ)
  | always (start stop : ℚ) (arg : Formula)
  | eventually (start stop : ℚ) (arg : Formula)
  | leftUntil (start stop : ℚ) (left right : Formula)

/-- The operations on floats: sums, differences, neighbors and texts. -/
structure Floats where
  add : ℚ → ℚ → ℚ
  sub : ℚ → ℚ → ℚ
  /-- `math.nextafter(value, math.inf)`. -/
  nextUp : ℚ → ℚ
  /-- `math.nextafter(value, -math.inf)`. -/
  nextDown : ℚ → ℚ
  text : ℚ → String

/-- A sample of telemetry: its time and the values of its signals. -/
structure Sample where
  time : ℚ
  values : List (String × ℚ)

def Comparison.Holds : Comparison → ℚ → ℚ → Prop
  | atLeast, value, threshold => threshold ≤ value
  | above, value, threshold => threshold < value
  | atMost, value, threshold => value ≤ threshold
  | below, value, threshold => value < threshold

/-- A trace satisfies a formula at a time, in the discrete semantics over its samples. -/
def Satisfies (floats : Floats) (trace : List Sample) : Formula → ℚ → Prop
  | .predicate signal cmp threshold, time => ∃ sample ∈ trace, sample.time = time ∧
      ∃ value, sample.values.lookup signal = some value ∧ cmp.Holds value threshold
  | .always start stop arg, time => ∀ later ∈ trace.map Sample.time, floats.add time start ≤ later →
      later ≤ floats.add time stop → Satisfies floats trace arg later
  | .eventually start stop arg, time => ∃ later ∈ trace.map Sample.time, floats.add time start ≤ later ∧
      later ≤ floats.add time stop ∧ Satisfies floats trace arg later
  | .leftUntil start stop left right, time => ∃ later ∈ trace.map Sample.time, time ≤ later ∧
      floats.add time start ≤ later ∧ later ≤ floats.add time stop ∧ Satisfies floats trace right later ∧
      ∀ earlier ∈ trace.map Sample.time, time ≤ earlier → earlier < later → Satisfies floats trace left earlier

/-- `MAX_MONITOR_WORK`. -/
def maxMonitorWork : ℕ := 1_000_000

/-- What stops the monitor. -/
inductive Stop where
  | budgetExceeded
  | incompleteTelemetry
  | raised (error : PyError)

/-- A computation that counts its work, also when it stops. -/
abbrev Monitor (α : Type) := ExceptT Stop (StateM ℕ) α

/-- The computation completes with a value and some work. -/
def Gives {α : Type} (monitor : Monitor α) (before : ℕ) (value : α) (after : ℕ) : Prop :=
  monitor.run.run before = (.ok value, after)

/-- Floats with the infinities. -/
abbrev Robustness := WithBot (WithTop ℚ)

/-- One step of work. -/
def tick : Monitor Unit := do
  let work ← get
  set (work + 1)
  if maxMonitorWork < work + 1 then throw .budgetExceeded

/-- A call that may raise. -/
def call {α : Type} (result : Py α) : Monitor α :=
  match result with
  | .ok value => pure value
  | .error error => throw (.raised error)

/-- The margin of a predicate; a strict one compares with the neighbor. -/
def margin (floats : Floats) (cmp : Comparison) (value threshold : ℚ) : ℚ :=
  match cmp with
  | .atLeast => floats.sub value threshold
  | .above => floats.sub value (floats.nextUp threshold)
  | .atMost => floats.sub threshold value
  | .below => floats.sub (floats.nextDown threshold) value

/-- Between -1e12 and 1e12. -/
def signalLimits : Limits := ⟨-1_000_000_000_000, 1_000_000_000_000, "[-1000000000000.0, 1000000000000.0]"⟩

/-- The value of a signal at the time of a sample. -/
def signalAt (floats : Floats) (trace : List Sample) (signal : String) (time : ℚ) : Py ℚ :=
  match trace.find? (·.time = time) with
  | none => .error (.keyError (floats.text time))
  | some sample =>
    match sample.values.lookup signal with
    | none => .error (.valueError s!"telemetry is missing signal '{signal}' at t={floats.text time}")
    | some value => number value signalLimits "number"

/-- A check that stops the monitor. -/
def stopIf (condition : Bool) (stop : Stop) : Monitor Unit := if condition then throw stop else pure ()

/-- The times of the samples in the interval of an operator. -/
def selectedTimes (floats : Floats) (trace : List Sample) (start stop time : ℚ) : Monitor (List ℚ) := do
  let times := trace.map Sample.time
  stopIf (times.getLast?.all (· < floats.add time stop)) .incompleteTelemetry
  let selected := window times (floats.add time start) (floats.add time stop)
  stopIf selected.isEmpty (.raised (.valueError "STL interval contains no telemetry samples"))
  return selected

/-- The best value so far after a sample of the loop of `until`. -/
def nextBest (first : ℚ) (right : ℚ → Monitor Robustness) (time : ℚ) (best lowest : Robustness) :
    Monitor Robustness :=
  if first ≤ time then do
    let value ← right time
    return max best (min lowest value)
  else return best

/-- The lowest value of the left formula so far; it is not needed after the last sample. -/
def nextLowest (left : ℚ → Monitor Robustness) (time : ℚ) (last : Bool) (lowest : Robustness) : Monitor Robustness :=
  if last then return lowest
  else do
    let value ← left time
    return min lowest value

/-- The loop of `until` over the samples of the interval. -/
def untilLoop (first : ℚ) (left right : ℚ → Monitor Robustness) : List ℚ → Robustness → Robustness →
    Monitor Robustness
  | [], best, _ => return best
  | time :: times, best, lowest => do
    let best ← nextBest first right time best lowest
    let lowest ← nextLowest left time times.isEmpty lowest
    untilLoop first left right times best lowest

/-- `_robust`. -/
def robust (floats : Floats) (trace : List Sample) : Formula → ℚ → Monitor Robustness
  | .predicate signal cmp threshold, time => do
    tick
    let value ← call (signalAt floats trace signal time)
    return ((margin floats cmp value threshold : ℚ) : WithTop ℚ)
  | .always start stop arg, time => do
    tick
    let selected ← selectedTimes floats trace start stop time
    let values ← selected.mapM (robust floats trace arg)
    return values.foldr min ⊤
  | .eventually start stop arg, time => do
    tick
    let selected ← selectedTimes floats trace start stop time
    let values ← selected.mapM (robust floats trace arg)
    return values.foldr max ⊥
  | .leftUntil start stop left right, time => do
    tick
    let _ ← selectedTimes floats trace start stop time
    untilLoop (floats.add time start) (robust floats trace left) (robust floats trace right)
      (window (trace.map Sample.time) time (floats.add time stop)) ⊥ ⊤

section Gives

variable {α β : Type} {monitor : Monitor α} {before after : ℕ} {value : α}

theorem run_bind {next : α → Monitor β} :
    (monitor >>= next).run.run before =
      match monitor.run.run before with
      | (.ok value, middle) => (next value).run.run middle
      | (.error stop, middle) => (.error stop, middle) := by
  cases h : monitor.run.run before with
  | mk outcome middle =>
    change (ExceptT.bindCont next (monitor.run.run before).1).run (monitor.run.run before).2 = _
    rw [h]
    cases outcome <;> rfl

theorem gives_bind_iff {next : α → Monitor β} {result : β} :
    Gives (monitor >>= next) before result after ↔
      ∃ value middle, Gives monitor before value middle ∧ Gives (next value) middle result after := by
  unfold Gives
  rw [run_bind]
  cases monitor.run.run before with
  | mk outcome middle =>
    cases outcome with
    | ok found =>
      constructor
      · exact fun h ↦ ⟨found, middle, rfl, h⟩
      · rintro ⟨value, last, heq, h⟩
        obtain ⟨hvalue, rfl⟩ := Prod.mk.inj heq
        obtain rfl := Except.ok.inj hvalue
        exact h
    | error stop =>
      refine iff_of_false (fun h ↦ ?_) fun ⟨value, last, heq, _⟩ ↦ ?_
      · cases (Prod.mk.inj h).1
      · cases (Prod.mk.inj heq).1

theorem gives_pure_iff {result : α} : Gives (pure value) before result after ↔ value = result ∧ before = after := by
  change (Except.ok value, before) = (Except.ok result, after) ↔ _
  simp

theorem not_gives_throw {stop : Stop} : ¬Gives (throw stop : Monitor α) before value after := by
  change ¬(Except.error stop, before) = (Except.ok value, after)
  simp

theorem gives_call_iff {result : Py α} : Gives (call result) before value after ↔ result = .ok value ∧ before =
    after := by
  cases result with
  | ok found => simp [call, gives_pure_iff]
  | error error => simp [call, not_gives_throw]

theorem forall₂_of_gives_mapM {read : β → Monitor α} {items : List β} {values : List α}
    (h : Gives (items.mapM read) before values after) :
    List.Forall₂ (fun item value ↦ ∃ before after, Gives (read item) before value after) items values := by
  induction items generalizing values before after with
  | nil =>
    obtain ⟨rfl, -⟩ := gives_pure_iff.mp h
    exact .nil
  | cons item items ih =>
    rw [List.mapM_cons] at h
    obtain ⟨value, middle, hvalue, h⟩ := gives_bind_iff.mp h
    obtain ⟨rest, last, hrest, h⟩ := gives_bind_iff.mp h
    obtain ⟨rfl, -⟩ := gives_pure_iff.mp h
    exact .cons ⟨_, _, hvalue⟩ (ih hrest)

end Gives

variable {floats : Floats} {trace : List Sample}

/-- The margin is nonnegative exactly when the comparison holds, on a trace. -/
def Exact (floats : Floats) (trace : List Sample) : Formula → Prop
  | .predicate signal cmp threshold => ∀ sample ∈ trace, ∀ value, sample.values.lookup signal = some value →
      (0 ≤ margin floats cmp value threshold ↔ cmp.Holds value threshold)
  | .always _ _ arg => Exact floats trace arg
  | .eventually _ _ arg => Exact floats trace arg
  | .leftUntil _ _ left right => Exact floats trace left ∧ Exact floats trace right

theorem le_foldr_min {values : List Robustness} :
    0 ≤ values.foldr min ⊤ ↔ ∀ value ∈ values, 0 ≤ value := by
  induction values with
  | nil => simp
  | cons value values ih => rw [List.foldr_cons, le_min_iff, ih, List.forall_mem_cons]

theorem le_foldr_max {values : List Robustness} :
    0 ≤ values.foldr max ⊥ ↔ ∃ value ∈ values, 0 ≤ value := by
  induction values with
  | nil => simp
  | cons value values ih => rw [List.foldr_cons, le_max_iff, ih, List.exists_mem_cons_iff]

theorem selectedTimes_spec {start stop time : ℚ} {selected : List ℚ} {before after : ℕ}
    (h : Gives (selectedTimes floats trace start stop time) before selected after) :
    selected = window (trace.map Sample.time) (floats.add time start) (floats.add time stop) := by
  unfold selectedTimes at h
  dsimp only at h
  obtain ⟨_, _, -, h⟩ := gives_bind_iff.mp h
  obtain ⟨_, _, -, h⟩ := gives_bind_iff.mp h
  exact (gives_pure_iff.mp h).1.symm

theorem mem_of_signalAt (hsorted : (trace.map Sample.time).Pairwise (· < ·)) {signal : String} {time value : ℚ}
    (h : signalAt floats trace signal time = .ok value) :
    ∃ sample ∈ trace, sample.time = time ∧ sample.values.lookup signal = some value ∧
      ∀ other ∈ trace, other.time = time → other = sample := by
  unfold signalAt at h
  split at h
  · cases h
  · next sample hsample =>
    have htime : sample.time = time := of_decide_eq_true
      (List.find?_some (p := fun sample : Sample ↦ decide (sample.time = time)) hsample)
    have hmem : sample ∈ trace := List.mem_of_find?_eq_some hsample
    split at h
    · cases h
    · next found hfound =>
      obtain rfl := (number_eq_ok_iff.mp h).2
      refine ⟨sample, hmem, htime, hfound, fun other hother hsame ↦ ?_⟩
      exact List.inj_on_of_nodup_map (hsorted.imp ne_of_lt) hother hmem (hsame.trans htime.symm)

theorem untilLoop_iff {first : ℚ} {left right : ℚ → Monitor Robustness} {holdsLeft holdsRight : ℚ → Prop}
    (hleft : ∀ {time before value after}, Gives (left time) before value after → (0 ≤ value ↔ holdsLeft time))
    (hright : ∀ {time before value after}, Gives (right time) before value after → (0 ≤ value ↔ holdsRight time))
    {times : List ℚ} (hsorted : times.Pairwise (· < ·)) {best lowest value : Robustness} {before after : ℕ}
    (h : Gives (untilLoop first left right times best lowest) before value after) :
    0 ≤ value ↔ 0 ≤ best ∨ ∃ later ∈ times, first ≤ later ∧ holdsRight later ∧ 0 ≤ lowest ∧
      ∀ earlier ∈ times, earlier < later → holdsLeft earlier := by
  induction times generalizing best lowest before with
  | nil =>
    obtain ⟨rfl, -⟩ := gives_pure_iff.mp h
    simp
  | cons time times ih =>
    obtain ⟨hfirst, hrest⟩ := List.pairwise_cons.mp hsorted
    rw [untilLoop] at h
    obtain ⟨best', middle, hbest, h⟩ := gives_bind_iff.mp h
    obtain ⟨lowest', last, hlowest, h⟩ := gives_bind_iff.mp h
    have hbest' : 0 ≤ best' ↔ 0 ≤ best ∨ first ≤ time ∧ holdsRight time ∧ 0 ≤ lowest := by
      unfold nextBest at hbest
      split_ifs at hbest with hreached
      · obtain ⟨found, _, hfound, hpure⟩ := gives_bind_iff.mp hbest
        obtain ⟨rfl, -⟩ := gives_pure_iff.mp hpure
        rw [le_max_iff, le_min_iff, hright hfound]
        tauto
      · obtain ⟨rfl, -⟩ := gives_pure_iff.mp hbest
        tauto
    have hlowest' : times ≠ [] → (0 ≤ lowest' ↔ 0 ≤ lowest ∧ holdsLeft time) := by
      intro hne
      rw [nextLowest, if_neg (by simpa using hne)] at hlowest
      obtain ⟨found, _, hfound, hpure⟩ := gives_bind_iff.mp hlowest
      obtain ⟨rfl, -⟩ := gives_pure_iff.mp hpure
      rw [le_min_iff, hleft hfound]
    rw [ih hrest h, hbest']
    constructor
    · rintro ((hold | ⟨hreached, hholds, hlow⟩) | ⟨later, hlater, hreached, hholds, hlow, hbefore⟩)
      · exact .inl hold
      · refine .inr ⟨time, List.mem_cons_self, hreached, hholds, hlow, fun earlier hearlier hlt ↦ ?_⟩
        rcases List.mem_cons.mp hearlier with rfl | hlate
        · exact absurd hlt (lt_irrefl _)
        · exact absurd (hfirst earlier hlate) (not_lt.mpr hlt.le)
      · obtain ⟨hlow', hhere⟩ := (hlowest' (List.ne_nil_of_mem hlater)).mp hlow
        refine .inr ⟨later, List.mem_cons_of_mem _ hlater, hreached, hholds, hlow', fun earlier hearlier hlt ↦ ?_⟩
        rcases List.mem_cons.mp hearlier with rfl | hlate
        · exact hhere
        · exact hbefore earlier hlate hlt
    · rintro (hold | ⟨later, hlater, hreached, hholds, hlow, hbefore⟩)
      · exact .inl (.inl hold)
      · rcases List.mem_cons.mp hlater with rfl | hlate
        · exact .inl (.inr ⟨hreached, hholds, hlow⟩)
        · refine .inr ⟨later, hlate, hreached, hholds, ?_, fun earlier hearlier ↦
            hbefore earlier (List.mem_cons_of_mem _ hearlier)⟩
          exact (hlowest' (List.ne_nil_of_mem hlate)).mpr ⟨hlow, hbefore time List.mem_cons_self (hfirst later hlate)⟩

theorem robust_iff (hsorted : (trace.map Sample.time).Pairwise (· < ·)) {formula : Formula}
    (hexact : Exact floats trace formula) {time : ℚ} {value : Robustness} {before after : ℕ}
    (h : Gives (robust floats trace formula time) before value after) :
    0 ≤ value ↔ Satisfies floats trace formula time := by
  induction formula generalizing time value before after with
  | predicate signal cmp threshold =>
    obtain ⟨_, _, -, h⟩ := gives_bind_iff.mp h
    obtain ⟨found, _, hfound, h⟩ := gives_bind_iff.mp h
    obtain ⟨rfl, -⟩ := gives_pure_iff.mp h
    obtain ⟨sample, hmem, htime, hlookup, hunique⟩ := mem_of_signalAt hsorted (gives_call_iff.mp hfound).1
    rw [← WithBot.coe_zero, WithBot.coe_le_coe, ← WithTop.coe_zero, WithTop.coe_le_coe,
      hexact sample hmem found hlookup, Satisfies]
    constructor
    · exact fun hholds ↦ ⟨sample, hmem, htime, found, hlookup, hholds⟩
    · rintro ⟨other, hother, hsame, value, hvalue, hholds⟩
      obtain rfl := hunique other hother hsame
      exact Option.some.inj (hvalue.symm.trans hlookup) ▸ hholds
  | always start stop arg ih =>
    obtain ⟨_, _, -, h⟩ := gives_bind_iff.mp h
    obtain ⟨selected, _, hselected, h⟩ := gives_bind_iff.mp h
    obtain ⟨values, _, hvalues, h⟩ := gives_bind_iff.mp h
    obtain ⟨rfl, -⟩ := gives_pure_iff.mp h
    obtain rfl := selectedTimes_spec hselected
    have hall := forall₂_of_gives_mapM hvalues
    rw [le_foldr_min, Satisfies]
    constructor
    · intro hnonneg later hlater hfrom hto
      obtain ⟨value, hvalue, _, _, hgives⟩ := exists_of_mem_forall₂ hall
        ((mem_window_iff hsorted).mpr ⟨hlater, hfrom, hto⟩)
      exact (ih hexact hgives).mp (hnonneg value hvalue)
    · intro hholds value hvalue
      obtain ⟨later, hlater, _, _, hgives⟩ := exists_of_mem_forall₂ hall.flip hvalue
      obtain ⟨hmem, hfrom, hto⟩ := (mem_window_iff hsorted).mp hlater
      exact (ih hexact hgives).mpr (hholds later hmem hfrom hto)
  | eventually start stop arg ih =>
    obtain ⟨_, _, -, h⟩ := gives_bind_iff.mp h
    obtain ⟨selected, _, hselected, h⟩ := gives_bind_iff.mp h
    obtain ⟨values, _, hvalues, h⟩ := gives_bind_iff.mp h
    obtain ⟨rfl, -⟩ := gives_pure_iff.mp h
    obtain rfl := selectedTimes_spec hselected
    have hall := forall₂_of_gives_mapM hvalues
    rw [le_foldr_max, Satisfies]
    constructor
    · rintro ⟨value, hvalue, hnonneg⟩
      obtain ⟨later, hlater, _, _, hgives⟩ := exists_of_mem_forall₂ hall.flip hvalue
      obtain ⟨hmem, hfrom, hto⟩ := (mem_window_iff hsorted).mp hlater
      exact ⟨later, hmem, hfrom, hto, (ih hexact hgives).mp hnonneg⟩
    · rintro ⟨later, hlater, hfrom, hto, hholds⟩
      obtain ⟨value, hvalue, _, _, hgives⟩ := exists_of_mem_forall₂ hall
        ((mem_window_iff hsorted).mpr ⟨hlater, hfrom, hto⟩)
      exact ⟨value, hvalue, (ih hexact hgives).mpr hholds⟩
  | leftUntil start stop left right ihLeft ihRight =>
    obtain ⟨_, _, -, h⟩ := gives_bind_iff.mp h
    obtain ⟨_, _, -, h⟩ := gives_bind_iff.mp h
    rw [untilLoop_iff (ihLeft hexact.1) (ihRight hexact.2) (hsorted.sublist (sublist_window _ _ _)) h, Satisfies]
    simp only [mem_window_iff hsorted]
    constructor
    · rintro (hbottom | ⟨later, ⟨hlater, hfrom, hto⟩, hreached, hholds, -, hbefore⟩)
      · exact absurd hbottom (by simp)
      · exact ⟨later, hlater, hfrom, hreached, hto, hholds, fun earlier hearlier hstart hlt ↦
          hbefore earlier ⟨hearlier, hstart, hlt.le.trans hto⟩ hlt⟩
    · rintro ⟨later, hlater, hfrom, hreached, hto, hholds, hbefore⟩
      exact .inr ⟨later, ⟨hlater, hfrom, hto⟩, hreached, hholds, le_top, fun earlier hearlier hlt ↦
        hbefore earlier hearlier.1 hearlier.2.1 hlt⟩

end UniMem.Robotics.Shield
