import UniMem.FrontierProtocol.Arguments

/-!
# The order of normalised timestamps

`datetime.isoformat` writes an instant in UTC from the year down, every field with a fixed number of digits, and
leaves out a fraction of zero. `+` comes before `.`, so texts are in the order of their instants all the same.
-/

namespace UniMem.FrontierProtocol

/-- The days from the first day of year 1 to the first day of a year. -/
def daysBeforeYear (year : ℕ) : ℕ := (year - 1) * 365 + (year - 1) / 4 - (year - 1) / 100 + (year - 1) / 400

def isLeap (year : ℕ) : Bool := year % 4 = 0 && (year % 100 ≠ 0 || year % 400 = 0)

/-- The days of a year before a month. -/
def daysBeforeMonth (year month : ℕ) : ℕ :=
  [0, 0, 31, 59, 90, 120, 151, 181, 212, 243, 273, 304, 334].getD month 0 +
    if 2 < month && isLeap year then 1 else 0

/-- The last part that begins after so many days or before. -/
def partOf (before : ℕ → ℕ) (last days : ℕ) : ℕ := Nat.findGreatest (fun part ↦ before part ≤ days) last

def yearOf (days : ℕ) : ℕ := partOf daysBeforeYear 9999 days

def dayOfYear (days : ℕ) : ℕ := days - daysBeforeYear (yearOf days)

def monthOf (days : ℕ) : ℕ := partOf (daysBeforeMonth (yearOf days)) 12 (dayOfYear days)

def dayOf (days : ℕ) : ℕ := dayOfYear days - daysBeforeMonth (yearOf days) (monthOf days) + 1

/-- A number with a fixed number of digits. -/
def padded : ℕ → ℕ → List Char
  | 0, _ => []
  | width + 1, number => padded width (number / 10) ++ [Char.ofNat (48 + number % 10)]

/-- The fraction of a second and the zone. -/
def fraction (microsecond : ℕ) : List Char :=
  if microsecond = 0 then "+00:00".toList else '.' :: (padded 6 microsecond ++ "+00:00".toList)

/-- `datetime.isoformat` of an instant in UTC. -/
def isoformat (instant : ℤ) : String :=
  let seconds := instant.toNat / 1_000_000
  let minutes := seconds / 60
  let hours := minutes / 60
  let days := hours / 24
  String.ofList <| padded 4 (yearOf days) ++ '-' :: (padded 2 (monthOf days) ++ '-' :: (padded 2 (dayOf days) ++
    'T' :: (padded 2 (hours % 24) ++ ':' :: (padded 2 (minutes % 60) ++ ':' :: (padded 2 (seconds % 60) ++
      fraction (instant.toNat % 1_000_000))))))

variable {before : ℕ → ℕ} {last first second : ℕ}

theorem partOf_le (before : ℕ → ℕ) (last days : ℕ) : partOf before last days ≤ last := Nat.findGreatest_le last

theorem before_partOf (hzero : before 0 = 0) (days : ℕ) : before (partOf before last days) ≤ days :=
  Nat.findGreatest_spec (P := fun part ↦ before part ≤ days) (Nat.zero_le last) (hzero.trans_le (Nat.zero_le days))

theorem partOf_mono (h : first ≤ second) : partOf before last first ≤ partOf before last second :=
  Nat.findGreatest_mono_left (fun _ hpart ↦ hpart.trans h) last

/-- Where the next part would begin. -/
theorem lt_before_succ {days : ℕ} (h : partOf before last days < last) :
    days < before (partOf before last days + 1) :=
  not_le.mp (Nat.findGreatest_is_greatest (P := fun part ↦ before part ≤ days) (Nat.lt_succ_self _) h)

/-- Later days are in a later part, or later in the same part. -/
theorem partOf_lt (hzero : before 0 = 0) (h : first < second) : partOf before last first < partOf before last second ∨
    partOf before last first = partOf before last second ∧
      first - before (partOf before last first) < second - before (partOf before last second) := by
  obtain hlt | heq := (partOf_mono h.le : partOf before last first ≤ partOf before last second).lt_or_eq
  · exact .inl hlt
  · have hbefore := @before_partOf before last hzero first
    rw [heq] at hbefore
    exact .inr ⟨heq, by rw [heq]; omega⟩

theorem date_lt (h : first < second) : yearOf first < yearOf second ∨ yearOf first = yearOf second ∧
    (monthOf first < monthOf second ∨ monthOf first = monthOf second ∧ dayOf first < dayOf second) := by
  obtain hyear | ⟨hyear, hday⟩ := @partOf_lt daysBeforeYear 9999 _ _ rfl h
  · exact .inl hyear
  · refine .inr ⟨hyear, ?_⟩
    have hmonth := @partOf_lt (daysBeforeMonth (yearOf first)) 12 _ _ rfl hday
    change yearOf first = yearOf second at hyear
    rw [monthOf, monthOf, dayOf, dayOf, monthOf, monthOf, ← hyear]
    exact hmonth.imp_right (And.imp_right Nat.succ_lt_succ)

theorem daysBeforeMonth_succ_le (year : ℕ) {month : ℕ} (h : month < 12) :
    daysBeforeMonth year (month + 1) ≤ daysBeforeMonth year month + 32 := by
  have htable : ∀ month < 12, [0, 0, 31, 59, 90, 120, 151, 181, 212, 243, 273, 304, 334].getD (month + 1) 0 ≤
      [0, 0, 31, 59, 90, 120, 151, 181, 212, 243, 273, 304, 334].getD month 0 + 31 := by decide
  have hmonth := htable month h
  rw [daysBeforeMonth, daysBeforeMonth]
  split_ifs <;> omega

theorem dayOfYear_le {days : ℕ} (h : days < 3_652_059) : dayOfYear days ≤ 365 := by
  have hle : yearOf days ≤ 9999 := partOf_le _ _ _
  rw [dayOfYear]
  obtain hlt | heq := hle.lt_or_eq
  · have hnext := lt_before_succ hlt
    have hstep : daysBeforeYear (yearOf days + 1) ≤ daysBeforeYear (yearOf days) + 366 := by
      unfold daysBeforeYear
      omega
    change days < daysBeforeYear (yearOf days + 1) at hnext
    omega
  · have hlast : daysBeforeYear 9999 = 3_651_694 := rfl
    rw [heq, hlast]
    omega

theorem dayOf_lt {days : ℕ} (h : days < 3_652_059) : dayOf days < 10 ^ 2 := by
  have hle : monthOf days ≤ 12 := partOf_le _ _ _
  have hday := dayOfYear_le h
  rw [dayOf]
  obtain hlt | heq := hle.lt_or_eq
  · have hnext := (lt_before_succ hlt).trans_le (daysBeforeMonth_succ_le (yearOf days) hlt)
    change dayOfYear days < daysBeforeMonth (yearOf days) (monthOf days) + 32 at hnext
    omega
  · have hlast : 334 ≤ daysBeforeMonth (yearOf days) 12 := Nat.le_add_right _ _
    rw [heq]
    omega

variable {width a b : ℕ} {s t : List Char}

theorem digit_lt : ∀ a < 10, ∀ b < 10, a < b → Char.ofNat (48 + a) < Char.ofNat (48 + b) := by decide

/-- Digits of one width are compared as their numbers, and then what follows them. -/
theorem padded_append_lt (hb : b < 10 ^ width) (h : a < b ∨ a = b ∧ s < t) :
    padded width a ++ s < padded width b ++ t := by
  induction width generalizing a b s t with
  | zero => exact (h.resolve_left (by omega)).2
  | succ width ih =>
    rw [padded, padded, List.append_assoc, List.append_assoc]
    have hrest : b / 10 < 10 ^ width := Nat.div_lt_of_lt_mul (by rwa [Nat.pow_succ'] at hb)
    obtain hlt | ⟨rfl, hlt⟩ := h
    · have hcases : a / 10 < b / 10 ∨ a / 10 = b / 10 ∧ a % 10 < b % 10 := by omega
      refine ih hrest (hcases.imp_right (And.imp_right fun hdigit ↦ List.cons_lt_cons_iff.mpr (.inl ?_)))
      exact digit_lt _ (Nat.mod_lt _ (by decide)) _ (Nat.mod_lt _ (by decide)) hdigit
    · exact ih hrest (.inr ⟨rfl, List.cons_lt_cons_iff.mpr (.inr ⟨rfl, hlt⟩)⟩)

theorem field_lt {separator : Char} (hb : b < 10 ^ width) (h : a < b ∨ a = b ∧ s < t) :
    padded width a ++ separator :: s < padded width b ++ separator :: t :=
  padded_append_lt hb (h.imp_right (And.imp_right fun hlt ↦ List.cons_lt_cons_iff.mpr (.inr ⟨rfl, hlt⟩)))

theorem fraction_lt (hb : b < 10 ^ 6) (h : a < b) : fraction a < fraction b := by
  rw [fraction, fraction, if_neg (Nat.ne_zero_of_lt h)]
  split_ifs
  · exact List.cons_lt_cons_iff.mpr (.inl (by decide))
  · exact List.cons_lt_cons_iff.mpr (.inr ⟨rfl, padded_append_lt hb (.inl h)⟩)

/-- A number of units as larger units and a rest. -/
theorem carry {x y : ℕ} (n : ℕ) {p : Prop} (h : x < y ∨ x = y ∧ p) :
    x / n < y / n ∨ x / n = y / n ∧ (x % n < y % n ∨ x % n = y % n ∧ p) := by
  obtain hlt | ⟨rfl, hp⟩ := h
  · refine (Nat.div_le_div_right hlt.le).lt_or_eq.imp_right fun heq ↦ ⟨heq, .inl ?_⟩
    have hx := Nat.div_add_mod x n
    have hy := Nat.div_add_mod y n
    rw [heq] at hx
    omega
  · exact .inr ⟨rfl, .inr ⟨rfl, hp⟩⟩

/-- Later instants have later texts. -/
theorem isoformat_lt {first second : ℤ} (hfirst : 0 ≤ first) (hsecond : second < endOfTime) (h : first < second) :
    isoformat first < isoformat second := by
  have hnat : first.toNat < second.toNat := by omega
  have hparts := carry 1_000_000 (p := False) (.inl hnat)
  rw [and_false, or_false] at hparts
  have hdays : second.toNat / 1_000_000 / 60 / 60 / 24 < 3_652_059 := by
    rw [endOfTime] at hsecond
    omega
  have hyear : yearOf (second.toNat / 1_000_000 / 60 / 60 / 24) < 10 ^ 4 :=
    (partOf_le _ _ _).trans_lt (by decide : 9999 < 10 ^ 4)
  have hmonth : monthOf (second.toNat / 1_000_000 / 60 / 60 / 24) < 10 ^ 2 :=
    (partOf_le _ _ _).trans_lt (by decide : 12 < 10 ^ 2)
  have hsmall : ∀ number n : ℕ, 0 < n → n ≤ 10 ^ 2 → number % n < 10 ^ 2 :=
    fun number n hn hle ↦ (Nat.mod_lt number hn).trans_le hle
  rw [String.lt_iff, isoformat, isoformat, String.toList_ofList, String.toList_ofList]
  obtain hlt | ⟨heq, htime⟩ := carry 24 (carry 60 (carry 60 hparts))
  · exact field_lt hyear ((date_lt hlt).imp_right (And.imp_right fun h ↦
      field_lt hmonth (h.imp_right (And.imp_right fun h ↦ field_lt (dayOf_lt hdays) (.inl h)))))
  · simp only [heq]
    refine field_lt hyear (.inr ⟨rfl, field_lt hmonth (.inr ⟨rfl, field_lt (dayOf_lt hdays) (.inr ⟨rfl, ?_⟩)⟩)⟩)
    refine field_lt (hsmall _ 24 (by decide) (by decide)) (htime.imp_right (And.imp_right fun h ↦ ?_))
    refine field_lt (hsmall _ 60 (by decide) (by decide)) (h.imp_right (And.imp_right fun h ↦ ?_))
    refine padded_append_lt (hsmall _ 60 (by decide) (by decide)) (h.imp_right (And.imp_right fun h ↦ ?_))
    exact fraction_lt (Nat.mod_lt _ (by decide)) h

/-- What `moment` returns is the text of an instant of the calendar. -/
theorem moment_eq {read : String → Option Datetime} {value written : String} {instant : ℤ}
    (h : moment ⟨read, isoformat⟩ (.str value) = .ok written) (hread : read (zoned value) = some (.aware instant)) :
    instant ∈ Set.Ico 0 endOfTime ∧ written = isoformat instant := by
  obtain ⟨content, hcontent, h⟩ := Py.of_bind h
  obtain rfl := Library.Json.str.inj (textArgument_eq_ok_iff.mp hcontent).1
  simp only [hread] at h
  obtain ⟨_, hrange, rfl⟩ := Py.map_eq_ok_iff.mp h
  obtain ⟨hbounds, rfl⟩ := representable_eq_ok_iff.mp hrange
  exact ⟨hbounds, rfl⟩

/-- Normalised timestamps are in the order of their instants. -/
theorem moment_le_iff (read : String → Option Datetime) (a b first second : String) (s t : ℤ)
    (ha : moment ⟨read, isoformat⟩ (.str a) = .ok first) (hb : moment ⟨read, isoformat⟩ (.str b) = .ok second)
    (hs : read (zoned a) = some (.aware s)) (ht : read (zoned b) = some (.aware t)) :
    (first ≤ second ↔ s ≤ t) ∧ (first = second ↔ s = t) := by
  obtain ⟨hs, rfl⟩ := moment_eq ha hs
  obtain ⟨ht, rfl⟩ := moment_eq hb ht
  have hmono : StrictMonoOn isoformat (Set.Ico 0 endOfTime) := fun _ hx _ hy h ↦ isoformat_lt hx.1 hy.2 h
  exact ⟨hmono.le_iff_le hs ht, hmono.injOn.eq_iff hs ht⟩

/-- A text with a fraction and one without, an hour west of each other. -/
theorem moment_le_iff_fraction :
    (isoformat 63_902_919_845_000_000 ≤ isoformat 63_902_919_845_500_000 ↔
      (63_902_919_845_000_000 : ℤ) ≤ 63_902_919_845_500_000) ∧
    (isoformat 63_902_919_845_000_000 = isoformat 63_902_919_845_500_000 ↔
      (63_902_919_845_000_000 : ℤ) = 63_902_919_845_500_000) := by
  let read : String → Option Datetime := fun text ↦
    if text = "2026-01-02T03:04:05+00:00" then some (.aware 63_902_919_845_000_000)
    else if text = "2026-01-02T02:04:05.5-01:00" then some (.aware 63_902_919_845_500_000)
    else none
  have hzoned : zoned "2026-01-02T03:04:05Z" = "2026-01-02T03:04:05+00:00" ∧
      zoned "2026-01-02T02:04:05.5-01:00" = "2026-01-02T02:04:05.5-01:00" ∧
      text "2026-01-02T03:04:05Z" "timestamp" 64 = .ok "2026-01-02T03:04:05Z" ∧
      text "2026-01-02T02:04:05.5-01:00" "timestamp" 64 = .ok "2026-01-02T02:04:05.5-01:00" := by decide +kernel
  have hrange : ∀ instant : ℤ, 0 ≤ instant ∧ instant < endOfTime →
      isoformat <$> representable instant = .ok (isoformat instant) := fun instant h ↦ by
    rw [representable, if_pos h, Py.map_ok]
  have hs : read (zoned "2026-01-02T03:04:05Z") = some (.aware 63_902_919_845_000_000) := by
    rw [hzoned.1]
    exact if_pos rfl
  have ht : read (zoned "2026-01-02T02:04:05.5-01:00") = some (.aware 63_902_919_845_500_000) := by
    rw [hzoned.2.1]
    exact (if_neg (by decide)).trans (if_pos rfl)
  refine moment_le_iff read "2026-01-02T03:04:05Z" "2026-01-02T02:04:05.5-01:00" _ _ _ _ ?_ ?_ hs ht
  · rw [moment, textArgument, hzoned.2.2.1, Py.bind_ok]
    simp only [hs]
    exact hrange _ (by decide)
  · rw [moment, textArgument, hzoned.2.2.2, Py.bind_ok]
    simp only [ht]
    exact hrange _ (by decide)

end UniMem.FrontierProtocol
