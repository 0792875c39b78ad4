import UniMem.Library.Grouping
import UniMem.Library.Json
import UniMem.Library.Metered
import UniMem.Library.Totals
import UniMem.Python

/-!
# Rate limits

A bucket of tokens refills with time and every admitted check takes one. Buckets that were dropped start full again,
and a window admits no more than that gives. Time is in seconds.
-/

set_option linter.unusedSectionVars false

namespace UniMem.Hub.RateLimits

open Library

variable {𝕜 : Type} [Field 𝕜] [LinearOrder 𝕜] [IsStrictOrderedRing 𝕜]

/-- The configuration of a limiter. -/
structure Settings where
  perMinute : ℕ
  burst : ℕ

/-- `_rate_per_sec`. -/
def Settings.rate (settings : Settings) : 𝕜 := settings.perMinute / 60

/-- `_capacity`. -/
def Settings.capacity (settings : Settings) : 𝕜 := if settings.perMinute = 0 then 0 else (max settings.burst 1 : ℕ)

/-- `_Bucket`. -/
structure Bucket (𝕜 : Type) where
  tokens : 𝕜
  lastRefill : 𝕜

/-- `_IDLE_TTL_SECONDS`. -/
def idleTtlSeconds : 𝕜 := 3600

/-- `_SWEEP_INTERVAL_SECONDS`. -/
def sweepIntervalSeconds : 𝕜 := 300

/-- `_MAX_TRACKED_KEYS`. -/
def maxTrackedKeys : ℕ := 100000

/-- `_DENY_ALL_RETRY_AFTER_SECONDS`. -/
def denyAllRetryAfterSeconds : 𝕜 := 3600

/-- The tokens of a bucket after its refill. -/
def Settings.refilled (settings : Settings) (bucket : Bucket 𝕜) (now : 𝕜) : 𝕜 :=
  min settings.capacity (bucket.tokens + (now - bucket.lastRefill) * settings.rate)

/-- What a key may take at a time. A key without a bucket has a full one. -/
def Settings.level (settings : Settings) (bucket : Option (Bucket 𝕜)) (now : 𝕜) : 𝕜 :=
  bucket.elim settings.capacity fun bucket ↦ max 0 (settings.refilled bucket now)

/-- `RateLimiter`: the buckets in the order of their last access. -/
structure Limiter (𝕜 : Type) where
  buckets : List (String × Bucket 𝕜)
  lastSweep : 𝕜

/-- `_sweep_idle_buckets`. -/
def Limiter.sweepIdleBuckets (limiter : Limiter 𝕜) (now : 𝕜) : Limiter 𝕜 where
  buckets := limiter.buckets.dropWhile fun entry ↦ !decide (now - entry.2.lastRefill < idleTtlSeconds)
  lastSweep := now

/-- `_evict_if_over_capacity`. -/
def Limiter.evictIfOverCapacity (limiter : Limiter 𝕜) (now : 𝕜) : Limiter 𝕜 :=
  if limiter.buckets.length < maxTrackedKeys then limiter
  else
    let swept := limiter.sweepIdleBuckets now
    { swept with buckets := swept.buckets.drop (swept.buckets.length + 1 - maxTrackedKeys) }

/-- The bucket of a key set to some tokens. -/
def Limiter.setTokens (limiter : Limiter 𝕜) (key : String) (tokens : 𝕜) : Limiter 𝕜 :=
  { limiter with buckets := adjust key (fun bucket ↦ { bucket with tokens }) limiter.buckets }

/-- The bucket of a key, and the limiter with the other buckets and room for it. -/
def Limiter.takeBucket (settings : Settings) (limiter : Limiter 𝕜) (key : String) (now : 𝕜) :
    Bucket 𝕜 × Limiter 𝕜 :=
  match limiter.buckets.lookup key with
  | none => (⟨settings.capacity, now⟩, limiter.evictIfOverCapacity now)
  | some bucket => (bucket, { limiter with buckets := discard key limiter.buckets })

/-- The limiter with the refilled bucket of a key at the end, swept when it is time. -/
def Limiter.refill (settings : Settings) (limiter : Limiter 𝕜) (key : String) (now : 𝕜) : Limiter 𝕜 :=
  let (bucket, others) := limiter.takeBucket settings key now
  let refilled := { others with buckets := others.buckets ++ [(key, ⟨settings.refilled bucket now, now⟩)] }
  if sweepIntervalSeconds ≤ now - refilled.lastSweep then refilled.sweepIdleBuckets now else refilled

/-- `check`: whether a request is admitted, the wait, and the limiter after it. -/
def Limiter.check (settings : Settings) (limiter : Limiter 𝕜) (key : String) (now : 𝕜) : (Bool × 𝕜) × Limiter 𝕜 :=
  let tokens := settings.refilled (limiter.takeBucket settings key now).1 now
  let refilled := limiter.refill settings key now
  if 1 ≤ tokens then ((true, 0), refilled.setTokens key (tokens - 1))
  else if (settings.rate : 𝕜) ≤ 0 then ((false, denyAllRetryAfterSeconds), refilled)
  else ((false, (1 - tokens) / settings.rate), refilled)

/-- `refund`. -/
def Limiter.refund (settings : Settings) (limiter : Limiter 𝕜) (key : String) : Limiter 𝕜 :=
  match limiter.buckets.lookup key with
  | none => limiter
  | some bucket => limiter.setTokens key (min settings.capacity (bucket.tokens + 1))

inductive Call where
  | check (key : String)
  | refund (key : String)
  deriving DecidableEq

/-- A call at a time. -/
def Limiter.step (settings : Settings) (limiter : Limiter 𝕜) (call : 𝕜 × Call) : Limiter 𝕜 :=
  match call.2 with
  | .check key => (limiter.check settings key call.1).2
  | .refund key => limiter.refund settings key

/-- The rows of `hub_rate_limit_buckets` by the name of the limiter and the key. -/
abbrev Table (𝕜 : Type) := List ((String × String) × Bucket 𝕜)

/-- The row of a key of a limiter. -/
def Table.row (table : Table 𝕜) (name key : String) : Option (Bucket 𝕜) :=
  @List.lookup _ _ instBEqOfDecidableEq (name, key) table

/-- `interval '1 microsecond'`. -/
def microsecond : 𝕜 := 1 / 1000000

/-- What `_RATE_LIMIT_TAKE_SQL` stores for the tokens that are there. -/
def takeRow (tokens now : 𝕜) : Bucket 𝕜 := if 1 ≤ tokens then ⟨tokens - 1, now⟩ else ⟨tokens, now + microsecond⟩

/-- `_RATE_LIMIT_TAKE_SQL`: the stored row, and whether it was refilled now. -/
def take (settings : Settings) (table : Table 𝕜) (name key : String) (now : 𝕜) : Bool × Table 𝕜 :=
  let tokens := ((table.row name key).map fun row ↦ settings.refilled row now).getD settings.capacity
  let row := takeRow tokens now
  (row.lastRefill = now, assign (name, key) row table)

/-- `_RATE_LIMIT_SWEEP_SQL`. -/
def sweepRows (table : Table 𝕜) (name : String) (now : 𝕜) : Table 𝕜 :=
  table.filter fun entry ↦ !(entry.1.1 = name && decide (entry.2.lastRefill < now - idleTtlSeconds))

/-- `_RATE_LIMIT_REFUND_SQL`. -/
def refundRow (settings : Settings) (table : Table 𝕜) (name key : String) : Table 𝕜 :=
  adjust (name, key) (fun row ↦ { row with tokens := min settings.capacity (row.tokens + 1) }) table

/-- The statements of the limiters that share the table. -/
inductive Statement where
  | take (name key : String)
  | refund (name key : String)
  | sweep (name : String)

def Table.step (settings : String → Settings) (table : Table 𝕜) (statement : 𝕜 × Statement) : Table 𝕜 :=
  match statement.2 with
  | .take name key => (take (settings name) table name key statement.1).2
  | .refund name key => refundRow (settings name) table name key
  | .sweep name => sweepRows table name statement.1

/-- One for a statement that holds. -/
def indicator (condition : Prop) [Decidable condition] : 𝕜 := if condition then 1 else 0

/-- An admitted check of a key. -/
def Limiter.admits (settings : Settings) (key : String) (limiter : Limiter 𝕜) (call : 𝕜 × Call) : 𝕜 :=
  indicator (call.2 = .check key ∧ (limiter.check settings key call.1).1.1 = true)

/-- A refund of a key. -/
def Limiter.refunds (key : String) (_ : Limiter 𝕜) (call : 𝕜 × Call) : 𝕜 := indicator (call.2 = .refund key)

/-- A call that drops the bucket of a key before it is full. -/
def Limiter.dropsEarly (settings : Settings) (key : String) (limiter : Limiter 𝕜) (call : 𝕜 × Call) : 𝕜 :=
  indicator ((limiter.step settings call).buckets.lookup key = none ∧
    settings.level (limiter.buckets.lookup key) call.1 < settings.capacity)

def Table.admits (settings : String → Settings) (name key : String) (table : Table 𝕜) (statement : 𝕜 × Statement) :
    𝕜 :=
  match statement.2 with
  | .take other wanted =>
    indicator ((other, wanted) = (name, key) ∧ (take (settings name) table name key statement.1).1 = true)
  | _ => 0

def Table.refunds (name key : String) (_ : Table 𝕜) (statement : 𝕜 × Statement) : 𝕜 :=
  match statement.2 with
  | .refund other wanted => indicator ((other, wanted) = (name, key))
  | _ => 0

def Table.dropsEarly (settings : String → Settings) (name key : String) (table : Table 𝕜)
    (statement : 𝕜 × Statement) : 𝕜 :=
  indicator ((table.step settings statement).row name key = none ∧
    (settings name).level (table.row name key) statement.1 < (settings name).capacity)

variable {settings : Settings} {bucket : Bucket 𝕜} {limiter : Limiter 𝕜} {key other : String} {now later : 𝕜}

theorem rate_nonneg (settings : Settings) : (0 : 𝕜) ≤ settings.rate := div_nonneg (Nat.cast_nonneg _) (by norm_num)

theorem capacity_nonneg (settings : Settings) : (0 : 𝕜) ≤ settings.capacity := by
  unfold Settings.capacity
  split_ifs
  · exact le_rfl
  · exact Nat.cast_nonneg _

theorem refilled_le (settings : Settings) (bucket : Bucket 𝕜) (now : 𝕜) :
    settings.refilled bucket now ≤ settings.capacity := min_le_left _ _

theorem refilled_self {tokens : 𝕜} (h : tokens ≤ settings.capacity) :
    settings.refilled ⟨tokens, now⟩ now = tokens := by
  rw [Settings.refilled, sub_self, zero_mul, add_zero, min_eq_right h]

theorem level_none (settings : Settings) (now : 𝕜) : settings.level none now = settings.capacity := rfl

theorem level_some (settings : Settings) (bucket : Bucket 𝕜) (now : 𝕜) :
    settings.level (some bucket) now = max 0 (settings.refilled bucket now) := rfl

theorem level_nonneg (settings : Settings) (bucket : Option (Bucket 𝕜)) (now : 𝕜) :
    0 ≤ settings.level bucket now := by
  cases bucket with
  | none => exact capacity_nonneg settings
  | some bucket => exact le_max_left _ _

theorem level_le (settings : Settings) (bucket : Option (Bucket 𝕜)) (now : 𝕜) :
    settings.level bucket now ≤ settings.capacity := by
  cases bucket with
  | none => exact le_rfl
  | some bucket => exact max_le (capacity_nonneg settings) (refilled_le settings bucket now)

theorem level_advance (settings : Settings) (bucket : Option (Bucket 𝕜)) (h : now ≤ later) :
    settings.level bucket later ≤ settings.level bucket now + settings.rate * (later - now) := by
  have hrefill : (0 : 𝕜) ≤ settings.rate * (later - now) := mul_nonneg (rate_nonneg settings) (sub_nonneg.mpr h)
  cases bucket with
  | none =>
    rw [level_none, level_none]
    linarith
  | some bucket =>
    rw [level_some, level_some]
    have hsplit : bucket.tokens + (later - bucket.lastRefill) * settings.rate =
        bucket.tokens + (now - bucket.lastRefill) * settings.rate + settings.rate * (later - now) := by ring
    have hmin : settings.refilled bucket later ≤ settings.refilled bucket now + settings.rate * (later - now) := by
      rw [Settings.refilled, Settings.refilled, hsplit, ← min_add_add_right]
      exact min_le_min (le_add_of_nonneg_right hrefill) le_rfl
    refine max_le ?_ (hmin.trans ?_)
    · exact add_nonneg (le_max_left _ _) hrefill
    · exact add_le_add (le_max_right _ _) le_rfl

theorem level_refund (settings : Settings) (bucket : Bucket 𝕜) (now : 𝕜) :
    settings.level (some { bucket with tokens := min settings.capacity (bucket.tokens + 1) }) now ≤
      settings.level (some bucket) now + 1 := by
  rw [level_some, level_some]
  have hmin : settings.refilled { bucket with tokens := min settings.capacity (bucket.tokens + 1) } now ≤
      settings.refilled bucket now + 1 := by
    rw [Settings.refilled, Settings.refilled,
      ← min_add_add_right settings.capacity (bucket.tokens + (now - bucket.lastRefill) * settings.rate) 1]
    have hone : (0 : 𝕜) ≤ 1 := zero_le_one
    refine min_le_min (le_add_of_nonneg_right hone) ?_
    have hle : min settings.capacity (bucket.tokens + 1) ≤ bucket.tokens + 1 := min_le_right _ _
    dsimp only
    linarith
  refine max_le ?_ (hmin.trans ?_)
  · exact add_nonneg (le_max_left _ _) zero_le_one
  · exact add_le_add (le_max_right _ _) le_rfl

theorem level_kept {before after : Option (Bucket 𝕜)} (h : after = none ∨ after = before) :
    settings.level after now ≤ settings.level before now + settings.capacity *
      indicator (after = none ∧ settings.level before now < settings.capacity) := by
  obtain rfl | rfl := h
  · rw [level_none]
    by_cases hfull : settings.level before now < settings.capacity
    · rw [indicator, if_pos ⟨rfl, hfull⟩, mul_one]
      exact le_add_of_nonneg_left (level_nonneg settings before now)
    · rw [indicator, if_neg fun h ↦ hfull h.2, mul_zero, add_zero]
      exact not_lt.mp hfull
  · refine le_add_of_nonneg_right (mul_nonneg (capacity_nonneg settings) ?_)
    rw [indicator]
    split_ifs
    · exact zero_le_one
    · exact le_rfl

theorem indicator_nonneg (condition : Prop) [Decidable condition] : (0 : 𝕜) ≤ indicator condition := by
  rw [indicator]
  split_ifs
  · exact zero_le_one
  · exact le_rfl

theorem sublist_sweepIdleBuckets (limiter : Limiter 𝕜) (now : 𝕜) :
    (limiter.sweepIdleBuckets now).buckets.Sublist limiter.buckets := List.dropWhile_sublist _

theorem sublist_evictIfOverCapacity (limiter : Limiter 𝕜) (now : 𝕜) :
    (limiter.evictIfOverCapacity now).buckets.Sublist limiter.buckets := by
  unfold Limiter.evictIfOverCapacity
  by_cases hroom : limiter.buckets.length < maxTrackedKeys
  · rw [if_pos hroom]
  · rw [if_neg hroom]
    dsimp only
    refine List.Sublist.trans (List.drop_sublist _ _) ?_
    exact sublist_sweepIdleBuckets limiter now

theorem takeBucket_spec (settings : Settings) (limiter : Limiter 𝕜) (key : String) (now : 𝕜) :
    (limiter.takeBucket settings key now).2.buckets.Sublist limiter.buckets ∧
      key ∉ (limiter.takeBucket settings key now).2.buckets.map Prod.fst := by
  unfold Limiter.takeBucket
  cases hlookup : limiter.buckets.lookup key with
  | none =>
    have hsublist := sublist_evictIfOverCapacity limiter now
    exact ⟨hsublist, fun hmem ↦ notMem_of_lookup_eq_none hlookup ((hsublist.map Prod.fst).subset hmem)⟩
  | some bucket =>
    refine ⟨List.filter_sublist, fun hmem ↦ ?_⟩
    obtain ⟨entry, hentry, rfl⟩ := List.mem_map.mp hmem
    exact of_decide_eq_true (List.mem_filter.mp hentry).2 rfl

theorem refill_spec (settings : Settings) (limiter : Limiter 𝕜) (key : String) (now : 𝕜) :
    ∃ rest, rest.Sublist limiter.buckets ∧ key ∉ rest.map Prod.fst ∧ (limiter.refill settings key now).buckets =
        rest ++ [(key, ⟨settings.refilled (limiter.takeBucket settings key now).1 now, now⟩)] := by
  obtain ⟨hsublist, hkey⟩ := takeBucket_spec settings limiter key now
  set others := (limiter.takeBucket settings key now).2 with hothers
  set refilled : Bucket 𝕜 := ⟨settings.refilled (limiter.takeBucket settings key now).1 now, now⟩
  unfold Limiter.refill
  dsimp only
  rw [← hothers]
  split_ifs with hsweep
  · have hlast : ([(key, refilled)] : List (String × Bucket 𝕜)).dropWhile
        (fun entry ↦ !decide (now - entry.2.lastRefill < idleTtlSeconds)) = [(key, refilled)] := by
      have hidle : now - now < (idleTtlSeconds : 𝕜) := by
        rw [sub_self, idleTtlSeconds]
        norm_num
      rw [List.dropWhile_cons_of_neg]
      rw [decide_eq_true hidle]
      exact Bool.false_ne_true
    refine ⟨others.buckets.dropWhile fun entry ↦ !decide (now - entry.2.lastRefill < idleTtlSeconds),
      (List.dropWhile_sublist _).trans hsublist, ?_, ?_⟩
    · exact fun hmem ↦ hkey (((List.dropWhile_sublist _).map Prod.fst).subset hmem)
    · rw [Limiter.sweepIdleBuckets]
      dsimp only
      rw [List.dropWhile_append, hlast]
      split_ifs with hempty
      · rw [List.isEmpty_iff.mp hempty, List.nil_append]
      · rfl
  · exact ⟨others.buckets, hsublist, hkey, rfl⟩

theorem buckets_setTokens (limiter : Limiter 𝕜) (key : String) (tokens : 𝕜) :
    (limiter.setTokens key tokens).buckets = adjust key (fun bucket ↦ { bucket with tokens }) limiter.buckets := rfl

theorem setTokens_append {rest : List (String × Bucket 𝕜)} (hkey : key ∉ rest.map Prod.fst) {tokens : 𝕜}
    (h : limiter.buckets = rest ++ [(key, bucket)]) :
    (limiter.setTokens key tokens).buckets = rest ++ [(key, { bucket with tokens })] := by
  rw [buckets_setTokens, h, adjust_append, adjust_of_notMem hkey]
  simp [adjust]

theorem check_spec (settings : Settings) (limiter : Limiter 𝕜) (key : String) (now : 𝕜) :
    ∃ rest, rest.Sublist limiter.buckets ∧ key ∉ rest.map Prod.fst ∧
      (limiter.check settings key now).2.buckets = rest ++
        [(key, ⟨settings.refilled (limiter.takeBucket settings key now).1 now -
          indicator ((limiter.check settings key now).1.1 = true), now⟩)] ∧
      ((limiter.check settings key now).1.1 = true ↔
        1 ≤ settings.refilled (limiter.takeBucket settings key now).1 now) := by
  obtain ⟨rest, hsublist, hkey, hrefill⟩ := refill_spec settings limiter key now
  refine ⟨rest, hsublist, hkey, ?_⟩
  unfold Limiter.check
  dsimp only
  split_ifs with htokens hrate
  · refine ⟨?_, iff_of_true rfl htokens⟩
    rw [setTokens_append hkey hrefill, indicator, if_pos rfl]
  · refine ⟨?_, iff_of_false not_false htokens⟩
    rw [hrefill, indicator, if_neg not_false, sub_zero]
  · refine ⟨?_, iff_of_false not_false htokens⟩
    rw [hrefill, indicator, if_neg not_false, sub_zero]

theorem takeBucket_level (settings : Settings) (limiter : Limiter 𝕜) (key : String) (now : 𝕜) :
    max 0 (settings.refilled (limiter.takeBucket settings key now).1 now) =
      settings.level (limiter.buckets.lookup key) now := by
  unfold Limiter.takeBucket
  cases limiter.buckets.lookup key with
  | none =>
    rw [level_none]
    dsimp only
    rw [refilled_self le_rfl, max_eq_right (capacity_nonneg settings)]
  | some bucket => rfl

theorem lookup_append_singleton {κ β : Type} [DecidableEq κ] {rest : List (κ × β)} {name : κ}
    (hname : name ∉ rest.map Prod.fst) (value : β) : (rest ++ [(name, value)]).lookup name = some value := by
  have hrest : rest.lookup name = none := by
    rw [List.lookup_eq_none_iff]
    intro entry hentry
    rw [bne_iff_ne]
    rintro rfl
    exact hname (List.mem_map.mpr ⟨entry, hentry, rfl⟩)
  rw [List.lookup_append, hrest, Option.none_or, List.lookup_cons_self]

theorem level_check (settings : Settings) (limiter : Limiter 𝕜) (key : String) (now : 𝕜) :
    settings.level ((limiter.check settings key now).2.buckets.lookup key) now +
        indicator ((limiter.check settings key now).1.1 = true) ≤
      settings.level (limiter.buckets.lookup key) now := by
  obtain ⟨rest, -, hkey, hbuckets, hadmitted⟩ := check_spec settings limiter key now
  rw [hbuckets, lookup_append_singleton hkey, level_some, ← takeBucket_level]
  set tokens := settings.refilled (limiter.takeBucket settings key now).1 now
  have htokens : tokens ≤ settings.capacity := refilled_le settings _ now
  by_cases hcheck : (limiter.check settings key now).1.1 = true
  · have hone : 1 ≤ tokens := hadmitted.mp hcheck
    rw [indicator, if_pos hcheck, refilled_self ((sub_le_self _ zero_le_one).trans htokens),
      max_eq_right (sub_nonneg.mpr hone), sub_add_cancel]
    exact le_max_right _ _
  · rw [indicator, if_neg hcheck, sub_zero, add_zero, refilled_self htokens]

theorem lookup_check {settings : Settings} (hnodup : (limiter.buckets.map Prod.fst).Nodup) (hne : other ≠ key) :
    (limiter.check settings key now).2.buckets.lookup other = none ∨
      (limiter.check settings key now).2.buckets.lookup other = limiter.buckets.lookup other := by
  obtain ⟨rest, hsublist, -, hbuckets, -⟩ := check_spec settings limiter key now
  have hsingle : ∀ bucket : Bucket 𝕜, [(key, bucket)].lookup other = none := by
    intro bucket
    rw [List.lookup_cons, beq_eq_false_iff_ne.mpr hne]
    rfl
  rw [hbuckets, List.lookup_append, hsingle, Option.or_none]
  exact lookup_sublist hsublist hnodup other

theorem keys_setTokens (limiter : Limiter 𝕜) (key : String) (tokens : 𝕜) :
    (limiter.setTokens key tokens).buckets.map Prod.fst = limiter.buckets.map Prod.fst  := by
  rw [buckets_setTokens, map_fst_adjust]

theorem lookup_setTokens (limiter : Limiter 𝕜) (key other : String) (tokens : 𝕜) :
    (limiter.setTokens key tokens).buckets.lookup other =
      if other = key then (limiter.buckets.lookup key).map fun bucket ↦ { bucket with tokens }
      else limiter.buckets.lookup other  := by
  rw [buckets_setTokens, lookup_adjust]

theorem keys_step (settings : Settings) (call : 𝕜 × Call) (hnodup : (limiter.buckets.map Prod.fst).Nodup) :
    ((limiter.step settings call).buckets.map Prod.fst).Nodup := by
  obtain ⟨now, call⟩ := call
  cases call with
  | check key =>
    obtain ⟨rest, hsublist, hkey, hbuckets, -⟩ := check_spec settings limiter key now
    have hrest : (rest.map Prod.fst).Nodup := hnodup.sublist (hsublist.map Prod.fst)
    change ((limiter.check settings key now).2.buckets.map Prod.fst).Nodup
    rw [hbuckets, List.map_append]
    refine hrest.append (List.nodup_singleton _) fun name hname hmem ↦ ?_
    obtain rfl := List.mem_singleton.mp hmem
    exact hkey hname
  | refund key =>
    change ((limiter.refund settings key).buckets.map Prod.fst).Nodup
    unfold Limiter.refund
    split
    · exact hnodup
    · rw [keys_setTokens]
      exact hnodup

theorem metered_limiter (settings : Settings) (key : String) :
    Metered (Limiter.step settings) (fun limiter : Limiter 𝕜 ↦ (limiter.buckets.map Prod.fst).Nodup)
      (fun limiter call ↦ limiter.admits settings key call - limiter.refunds key call)
      (fun limiter call ↦ settings.capacity * limiter.dropsEarly settings key call)
      (fun limiter now ↦ settings.level (limiter.buckets.lookup key) now) settings.capacity settings.rate where
  rate_nonneg := rate_nonneg settings
  valid_step := fun _ call hnodup ↦ keys_step settings call hnodup
  level_nonneg := fun limiter now ↦ level_nonneg settings _ now
  level_le := fun limiter now ↦ level_le settings _ now
  given_nonneg := fun _ _ ↦ mul_nonneg (capacity_nonneg settings) (indicator_nonneg _)
  level_advance := fun _ _ _ h ↦ level_advance settings _ h
  level_step := by
    rintro limiter ⟨now, call⟩ hnodup
    have hgiven : 0 ≤ settings.capacity * limiter.dropsEarly settings key (now, call) :=
      mul_nonneg (capacity_nonneg settings) (indicator_nonneg _)
    cases call with
    | check wanted =>
      have hrefunds : limiter.refunds key (now, .check wanted) = 0 := by
        simp [Limiter.refunds, indicator]
      rw [hrefunds, sub_zero]
      by_cases hkey : wanted = key
      · subst hkey
        have hadmits : limiter.admits settings wanted (now, .check wanted) =
            indicator ((limiter.check settings wanted now).1.1 = true) := by
          rw [Limiter.admits, indicator, indicator]
          simp
        rw [hadmits]
        exact (level_check settings limiter wanted now).trans (le_add_of_nonneg_right hgiven)
      · have hadmits : limiter.admits settings key (now, .check wanted) = 0 := by
          simp [Limiter.admits, indicator, hkey]
        rw [hadmits, add_zero]
        exact level_kept (lookup_check hnodup (Ne.symm hkey))
    | refund wanted =>
      have hadmits : limiter.admits settings key (now, .refund wanted) = 0 := by
        simp [Limiter.admits, indicator]
      rw [hadmits, zero_sub]
      change settings.level ((limiter.refund settings wanted).buckets.lookup key) now + _ ≤ _
      unfold Limiter.refund
      by_cases hkey : wanted = key
      · subst hkey
        have hrefunds : limiter.refunds wanted (now, .refund wanted) = 1 := by
          simp [Limiter.refunds, indicator]
        rw [hrefunds]
        cases hlookup : limiter.buckets.lookup wanted with
        | none =>
          dsimp only
          rw [hlookup]
          linarith
        | some bucket =>
          dsimp only
          rw [lookup_setTokens, if_pos rfl, hlookup, Option.map_some]
          have hrefund := level_refund settings bucket now
          linarith
      · have hrefunds : limiter.refunds key (now, .refund wanted) = 0 := by
          simp [Limiter.refunds, indicator, hkey]
        rw [hrefunds, neg_zero, add_zero]
        cases hlookup : limiter.buckets.lookup wanted with
        | none => exact le_add_of_nonneg_right hgiven
        | some bucket =>
          dsimp only
          rw [lookup_setTokens, if_neg (Ne.symm hkey)]
          exact le_add_of_nonneg_right hgiven

variable {configured : String → Settings} {table : Table 𝕜} {name : String}

theorem microsecond_pos : (0 : 𝕜) < microsecond := by
  unfold microsecond
  norm_num

/-- What `_RATE_LIMIT_TAKE_SQL` works on. -/
def tokensOf (settings : Settings) (table : Table 𝕜) (name key : String) (now : 𝕜) : 𝕜 :=
  ((table.row name key).map fun row ↦ settings.refilled row now).getD settings.capacity

theorem tokensOf_le (settings : Settings) (table : Table 𝕜) (name key : String) (now : 𝕜) :
    tokensOf settings table name key now ≤ settings.capacity := by
  unfold tokensOf
  cases table.row name key with
  | none => exact le_rfl
  | some row => exact refilled_le settings row now

theorem tokensOf_level (settings : Settings) (table : Table 𝕜) (name key : String) (now : 𝕜) :
    max 0 (tokensOf settings table name key now) = settings.level (table.row name key) now := by
  unfold tokensOf
  cases table.row name key with
  | none => exact max_eq_right (capacity_nonneg settings)
  | some row => rfl

theorem lastRefill_takeRow (tokens now : 𝕜) : (takeRow tokens now).lastRefill = now ↔ 1 ≤ tokens := by
  unfold takeRow
  split_ifs with htokens
  · exact iff_of_true rfl htokens
  · exact iff_of_false (fun h ↦ microsecond_pos.ne' (left_eq_add.mp h.symm)) htokens

theorem level_take (settings : Settings) (table : Table 𝕜) (name key : String) (now : 𝕜) :
    settings.level ((take settings table name key now).2.row name key) now +
        indicator ((take settings table name key now).1 = true) ≤ settings.level (table.row name key) now := by
  have hlevel := tokensOf_level settings table name key now
  have hle := tokensOf_le settings table name key now
  have htake : take settings table name key now =
      (decide ((takeRow (tokensOf settings table name key now) now).lastRefill = now),
        assign (name, key) (takeRow (tokensOf settings table name key now) now) table) := rfl
  rw [htake, ← hlevel]
  generalize tokensOf settings table name key now = tokens at hle
  dsimp only
  have hadmitted : decide ((takeRow tokens now).lastRefill = now) = true ↔ 1 ≤ tokens := by
    rw [decide_eq_true_eq, lastRefill_takeRow]
  rw [Table.row, lookup_assign, if_pos rfl, level_some, indicator]
  by_cases htokens : 1 ≤ tokens
  · rw [if_pos (hadmitted.mpr htokens), takeRow, if_pos htokens,
      refilled_self ((sub_le_self _ zero_le_one).trans hle), max_eq_right (sub_nonneg.mpr htokens), sub_add_cancel]
    exact le_max_right _ _
  · rw [if_neg (mt hadmitted.mp htokens), takeRow, if_neg htokens, add_zero]
    refine max_le_max le_rfl ((min_le_right _ _).trans ?_)
    have hloss := mul_nonneg (@microsecond_pos 𝕜 _ _ _).le (rate_nonneg settings)
    dsimp only
    linarith

theorem row_refundRow (settings : Settings) (table : Table 𝕜) (name key other wanted : String) :
    (refundRow settings table other wanted).row name key =
      if (name, key) = (other, wanted) then (table.row other wanted).map fun row ↦
        { row with tokens := min settings.capacity (row.tokens + 1) }
      else table.row name key := lookup_adjust _ _ _ _

theorem keys_tableStep (statement : 𝕜 × Statement) (hnodup : (table.map Prod.fst).Nodup) :
    ((table.step configured statement).map Prod.fst).Nodup := by
  obtain ⟨now, statement⟩ := statement
  cases statement with
  | take name key => exact nodup_map_fst_assign hnodup
  | refund name key =>
    change ((refundRow (configured name) table name key).map Prod.fst).Nodup
    rw [refundRow, map_fst_adjust]
    exact hnodup
  | sweep name => exact hnodup.sublist (List.filter_sublist.map Prod.fst)

theorem metered_table (configured : String → Settings) (name key : String) :
    Metered (Table.step configured) (fun table : Table 𝕜 ↦ (table.map Prod.fst).Nodup)
      (fun table statement ↦ table.admits configured name key statement - table.refunds name key statement)
      (fun table statement ↦ (configured name).capacity * table.dropsEarly configured name key statement)
      (fun table now ↦ (configured name).level (table.row name key) now) (configured name).capacity
      (configured name).rate where
  rate_nonneg := rate_nonneg _
  valid_step := fun _ statement hnodup ↦ keys_tableStep statement hnodup
  level_nonneg := fun table now ↦ level_nonneg _ _ now
  level_le := fun table now ↦ level_le _ _ now
  given_nonneg := fun _ _ ↦ mul_nonneg (capacity_nonneg _) (indicator_nonneg _)
  level_advance := fun _ _ _ h ↦ level_advance _ _ h
  level_step := by
    rintro table ⟨now, statement⟩ hnodup
    have hgiven : 0 ≤ (configured name).capacity * table.dropsEarly configured name key (now, statement) :=
      mul_nonneg (capacity_nonneg _) (indicator_nonneg _)
    cases statement with
    | take other wanted =>
      have hrefunds : table.refunds name key (now, .take other wanted) = 0 := rfl
      rw [hrefunds, sub_zero]
      by_cases hkey : (other, wanted) = (name, key)
      · obtain ⟨rfl, rfl⟩ := Prod.mk.inj hkey
        have hadmits : table.admits configured other wanted (now, .take other wanted) =
            indicator ((take (configured other) table other wanted now).1 = true) := by
          simp [Table.admits, indicator]
        rw [hadmits]
        exact (level_take _ table other wanted now).trans (le_add_of_nonneg_right hgiven)
      · have hadmits : table.admits configured name key (now, .take other wanted) = 0 :=
          if_neg fun h ↦ hkey h.1
        have hlookup : (table.step configured (now, .take other wanted)).row name key = table.row name key :=
          (lookup_assign _ _ _ _).trans (if_neg (Ne.symm hkey))
        rw [hadmits, add_zero, hlookup]
        exact le_add_of_nonneg_right hgiven
    | refund other wanted =>
      have hadmits : table.admits configured name key (now, .refund other wanted) = 0 := rfl
      rw [hadmits, zero_sub]
      have hlookup := row_refundRow (configured other) table name key other wanted
      change (configured name).level ((refundRow (configured other) table other wanted).row name key) now + _ ≤ _
      rw [hlookup]
      by_cases hkey : (name, key) = (other, wanted)
      · obtain ⟨rfl, rfl⟩ := Prod.mk.inj hkey
        have hrefunds : table.refunds name key (now, .refund name key) = 1 := if_pos rfl
        rw [hrefunds, if_pos rfl]
        cases table.row name key with
        | none =>
          rw [Option.map_none]
          linarith
        | some row =>
          rw [Option.map_some]
          have hrefund := level_refund (configured name) row now
          linarith
      · have hrefunds : table.refunds name key (now, .refund other wanted) = 0 :=
          if_neg fun h ↦ hkey h.symm
        rw [hrefunds, if_neg hkey, neg_zero, add_zero]
        exact le_add_of_nonneg_right hgiven
    | sweep other =>
      have hnone : table.admits configured name key (now, .sweep other) -
          table.refunds name key (now, .sweep other) = 0 := sub_self 0
      rw [hnone, add_zero]
      exact level_kept (lookup_sublist List.filter_sublist hnodup _)

/-- The admitted checks of a key less its refunds, in a window. -/
def Limiter.netAdmitted (settings : Settings) (key : String) (first last : 𝕜) (limiter : Limiter 𝕜)
    (calls : List (𝕜 × Call)) : 𝕜 :=
  sumDuring (Limiter.step settings) (Limiter.admits settings key) first last limiter calls -
    sumDuring (Limiter.step settings) (Limiter.refunds key) first last limiter calls

/-- How often the bucket of a key is dropped in a window before it is full. -/
def Limiter.earlyDrops (settings : Settings) (key : String) (first last : 𝕜) (limiter : Limiter 𝕜)
    (calls : List (𝕜 × Call)) : 𝕜 :=
  sumDuring (Limiter.step settings) (Limiter.dropsEarly settings key) first last limiter calls

def Table.netAdmitted (configured : String → Settings) (name key : String) (first last : 𝕜) (table : Table 𝕜)
    (statements : List (𝕜 × Statement)) : 𝕜 :=
  sumDuring (Table.step configured) (Table.admits configured name key) first last table statements -
    sumDuring (Table.step configured) (Table.refunds name key) first last table statements

def Table.earlyDrops (configured : String → Settings) (name key : String) (first last : 𝕜) (table : Table 𝕜)
    (statements : List (𝕜 × Statement)) : 𝕜 :=
  sumDuring (Table.step configured) (Table.dropsEarly configured name key) first last table statements

/-- A window admits at most a full bucket, its refill, and a full bucket for each early drop. -/
theorem net_admitted_le :
    (∀ (settings : Settings) (key : String) (start first last : 𝕜) (calls : List (𝕜 × Call)), Timely calls →
      first ≤ last → Limiter.netAdmitted settings key first last ⟨[], start⟩ calls ≤
        settings.capacity + settings.rate * (last - first) +
          settings.capacity * Limiter.earlyDrops settings key first last ⟨[], start⟩ calls) ∧
    ∀ (configured : String → Settings) (name key : String) (table : Table 𝕜) (first last : 𝕜)
      (statements : List (𝕜 × Statement)), (table.map Prod.fst).Nodup → Timely statements → first ≤ last →
        table.netAdmitted configured name key first last statements ≤
          (configured name).capacity + (configured name).rate * (last - first) +
            (configured name).capacity * table.earlyDrops configured name key first last statements := by
  refine ⟨fun settings key start first last calls htimely hwindow ↦ ?_,
    fun configured name key table first last statements hnodup htimely hwindow ↦ ?_⟩
  · have hempty : (([] : List (String × Bucket 𝕜)).map Prod.fst).Nodup := List.nodup_nil
    have hspent := @Metered.spent_le _ _ _ _ _ _ _ _ _ _ _ _ _ _ _ ⟨[], start⟩ _ (metered_limiter settings key) hempty
      htimely hwindow
    rw [sumDuring_sub, sumDuring_const_mul] at hspent
    exact hspent
  · have hspent := (metered_table configured name key).spent_le hnodup htimely hwindow
    rw [sumDuring_sub, sumDuring_const_mul] at hspent
    exact hspent

namespace Sample

def slow : Settings := ⟨1, 61⟩

def calls : List (ℚ × Call) :=
  List.replicate 61 (0, .check "a") ++ (3600, .check "b") :: List.replicate 61 (3600, .check "a")

def statements : List (ℚ × Statement) :=
  List.replicate 61 (0, .take "write" "a") ++ (3601, .sweep "write") :: List.replicate 61 (3601, .take "write" "a")

instance decidableTimely (calls : List (ℚ × Call)) : Decidable (Timely calls) :=
  inferInstanceAs (Decidable (calls.Pairwise fun call later ↦ call.1 ≤ later.1))

end Sample

/-- A bucket swept after an hour starts full, although an hour refills less. -/
theorem swept_over_admits :
    Timely Sample.calls ∧ Limiter.netAdmitted Sample.slow "a" 0 3600 ⟨[], 0⟩ Sample.calls = 122 ∧
      (Sample.slow.capacity + Sample.slow.rate * (3600 - 0) : ℚ) = 121 ∧
      Table.netAdmitted (fun _ ↦ Sample.slow) "write" "a" 0 3601 [] Sample.statements = 122 ∧
      (Sample.slow.capacity + Sample.slow.rate * (3601 - 0) : ℚ) < 122 := by
  refine ⟨?_, ?_, ?_, ?_, ?_⟩
  all_goals decide +kernel

theorem net_admitted_le_burst :
    Limiter.netAdmitted Sample.slow "a" 0 3600 ⟨[], 0⟩ Sample.calls ≤
        Sample.slow.capacity + Sample.slow.rate * (3600 - 0) +
          Sample.slow.capacity * Limiter.earlyDrops Sample.slow "a" (0 : ℚ) 3600 ⟨[], 0⟩ Sample.calls := by
  refine net_admitted_le.1 Sample.slow "a" 0 0 3600 Sample.calls ?_ (by norm_num)
  decide +kernel

end UniMem.Hub.RateLimits
