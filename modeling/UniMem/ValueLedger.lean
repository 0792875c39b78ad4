import UniMem.Library.Json
import UniMem.Library.Separated
import UniMem.Python.Hex

/-!
# The value ledger

Each entry of a ledger holds the hash of the one before it and the hash of that with its own row. The last hash
determines the rows, but no row holds the money of its entry.
-/

namespace UniMem.ValueLedger

open Library

/-- Floats: `f"{value:.6f}"`, the product and `round(value, 2)`. -/
structure Floats (𝔽 : Type) where
  fixed : 𝔽 → String
  mul : 𝔽 → 𝔽 → 𝔽
  cents : 𝔽 → 𝔽

/-- `_FIELD_SEP`. -/
def fieldSep : Char := '\x1f'

/-- `hashlib.sha256(text.encode("utf-8")).hexdigest()`. -/
abbrev Hash := String → String

/-- `_LEDGER_GENESIS`. -/
def genesis (hash : Hash) : String := hash "unimem-value-ledger-v1"

structure LedgerEntry (𝔽 : Type) where
  index : ℤ
  slug : String
  verdict : String
  occasionsImproved : 𝔽
  rate : 𝔽
  money : 𝔽
  previousHash : String
  entryHash : String

/-- The fields of a row. -/
def fields (floats : Floats 𝔽) (index : ℤ) (slug verdict : String) (occasions rate : 𝔽) : List String :=
  [toString index, slug, verdict, floats.fixed occasions, floats.fixed rate, floats.fixed (floats.mul occasions rate)]

/-- `previous + _FIELD_SEP + _FIELD_SEP.join(fields)`. -/
def hashed (previous : String) (fields : List String) : String :=
  String.ofList ([fieldSep].intercalate ((previous :: fields).map String.toList))

/-- What `ledger` reads of a memory. -/
structure MemoryValue (𝔽 : Type) where
  slug : String
  verdict : String
  occasionsImproved : 𝔽
  counted : Bool

/-- The loop of `ledger`. -/
def ledgerFrom (hash : Hash) (floats : Floats 𝔽) (rate : 𝔽) : ℕ → String → List (MemoryValue 𝔽) → List (LedgerEntry 𝔽)
  | _, _, [] => []
  | index, previous, memory :: memories =>
    let digest := hash (hashed previous (fields floats index memory.slug memory.verdict memory.occasionsImproved
      rate))
    { index := index
      slug := memory.slug
      verdict := memory.verdict
      occasionsImproved := memory.occasionsImproved
      rate := rate
      money := floats.cents (floats.mul memory.occasionsImproved rate)
      previousHash := previous
      entryHash := digest } :: ledgerFrom hash floats rate (index + 1) digest memories

/-- `ValueReport.ledger`. -/
def ledger (hash : Hash) (floats : Floats 𝔽) (rate : Option 𝔽) (billable : Bool) (memories : List (MemoryValue 𝔽)) :
    List (LedgerEntry 𝔽) :=
  match rate, billable with
  | some rate, true => ledgerFrom hash floats rate 0 (genesis hash) (memories.filter MemoryValue.counted)
  | _, _ => []

/-- What the hash of an entry covers. -/
def LedgerEntry.row (floats : Floats 𝔽) (entry : LedgerEntry 𝔽) : List String :=
  fields floats entry.index entry.slug entry.verdict entry.occasionsImproved entry.rate

/-- The loop of `verify_ledger`. -/
def verifyFrom (hash : Hash) (floats : Floats 𝔽) : ℕ → String → List (LedgerEntry 𝔽) → Option ℕ
  | _, _, [] => none
  | position, previous, entry :: entries =>
    if entry.previousHash ≠ previous ∨ entry.index ≠ position then some position
    else if hash (hashed previous (entry.row floats)) ≠ entry.entryHash then some position
    else verifyFrom hash floats (position + 1) entry.entryHash entries

/-- `verify_ledger`. -/
def verifyLedger (hash : Hash) (floats : Floats 𝔽) (entries : List (LedgerEntry 𝔽)) : Option ℕ :=
  verifyFrom hash floats 0 (genesis hash) entries

/-- The hash of the last entry, or the one before any. -/
def rootFrom (previous : String) (entries : List (LedgerEntry 𝔽)) : String :=
  (entries.getLast?.map LedgerEntry.entryHash).getD previous

/-- `ledger_root`. -/
def ledgerRoot (hash : Hash) (entries : List (LedgerEntry 𝔽)) : String := rootFrom (genesis hash) entries

variable {𝔽 : Type} {hash : Hash} {floats : Floats 𝔽} {position : ℕ} {previous : String} {entry : LedgerEntry 𝔽}
  {entries first second : List (LedgerEntry 𝔽)}

theorem verifyFrom_cons_eq_none_iff : verifyFrom hash floats position previous (entry :: entries) = none ↔
    entry.previousHash = previous ∧ entry.index = position ∧
      hash (hashed previous (entry.row floats)) = entry.entryHash ∧
      verifyFrom hash floats (position + 1) entry.entryHash entries = none := by
  rw [verifyFrom]
  split_ifs with hplace hhash
  · refine iff_of_false (by simp) ?_
    exact fun h ↦ hplace.elim (· h.1) (· h.2.1)
  · refine iff_of_false (by simp) ?_
    exact fun h ↦ hhash h.2.2.1
  · rw [not_or, not_not, not_not] at hplace
    rw [not_not] at hhash
    simp [hplace, hhash]

theorem verifyLedger_ledger (hash : Hash) (floats : Floats 𝔽) (rate : Option 𝔽) (billable : Bool)
    (memories : List (MemoryValue 𝔽)) : verifyLedger hash floats (ledger hash floats rate billable memories) =
      none := by
  have hfrom : ∀ (rate : 𝔽) (memories : List (MemoryValue 𝔽)) (position : ℕ) (previous : String),
      verifyFrom hash floats position previous (ledgerFrom hash floats rate position previous memories) = none := by
    intro rate memories
    induction memories with
    | nil => exact fun _ _ ↦ rfl
    | cons memory memories ih => exact fun _ _ ↦ verifyFrom_cons_eq_none_iff.mpr ⟨rfl, rfl, rfl, ih _ _⟩
  unfold ledger
  split
  · exact hfrom _ _ _ _
  · rfl

/-- Texts without a separator. -/
def Plain (text : String) : Prop := fieldSep ∉ text.toList

/-- The slug and the verdict as they are joined. -/
def LedgerEntry.names (entry : LedgerEntry 𝔽) : List Char := entry.slug.toList ++ fieldSep :: entry.verdict.toList

/-- The other fields that are hashed. -/
def LedgerEntry.figures (floats : Floats 𝔽) (entry : LedgerEntry 𝔽) : List String :=
  [floats.fixed entry.occasionsImproved, floats.fixed entry.rate,
    floats.fixed (floats.mul entry.occasionsImproved entry.rate)]

/-- A hexadecimal digest. -/
def Hash.Digits (hash : Hash) : Prop := ∀ text, Plain (hash text)

/-- A decimal number. -/
def Floats.Digits (floats : Floats 𝔽) : Prop := ∀ value, Plain (floats.fixed value)

theorem plain_toString (index : ℤ) : Plain (toString index) :=
  fun hmem ↦ absurd (Json.le_of_mem_toString_int index _ hmem) (by decide)

theorem toList_hashed (previous : String) (entry : LedgerEntry 𝔽) :
    (hashed previous (entry.row floats)).toList = previous.toList ++ fieldSep :: ((toString entry.index).toList ++
      fieldSep :: (entry.names ++ fieldSep :: [fieldSep].intercalate
        ((entry.figures floats).map String.toList))) := by
  rw [hashed, String.toList_ofList, LedgerEntry.row, fields, LedgerEntry.names, LedgerEntry.figures]
  simp only [List.map_cons, List.map_nil, List.intercalate_cons_cons, List.append_assoc, List.cons_append,
    List.nil_append]

theorem hashed_inj (hfloats : floats.Digits) {previous' : String} {entry' : LedgerEntry 𝔽}
    (hprevious : Plain previous) (hprevious' : Plain previous')
    (h : hashed previous (entry.row floats) = hashed previous' (entry'.row floats)) :
    previous = previous' ∧ entry.names = entry'.names ∧ entry.figures floats = entry'.figures floats := by
  have hlists := congrArg String.toList h
  rw [toList_hashed, toList_hashed] at hlists
  obtain ⟨hlink, hlists⟩ := append_cons_inj hprevious hprevious' hlists
  obtain ⟨-, hlists⟩ := append_cons_inj (plain_toString _) (plain_toString _) hlists
  have hplain : ∀ entry : LedgerEntry 𝔽, ∀ part ∈ (entry.figures floats).map String.toList, fieldSep ∉ part := by
    intro entry
    exact List.forall_mem_map.mpr (List.forall_mem_cons.mpr ⟨hfloats _, List.forall_mem_cons.mpr ⟨hfloats _,
      List.forall_mem_singleton.mpr (hfloats _)⟩⟩)
  have hcount : ∀ entry : LedgerEntry 𝔽,
      ([fieldSep].intercalate ((entry.figures floats).map String.toList)).count fieldSep = 2 := by
    intro entry
    have hzero : ∀ value, (floats.fixed value).toList.count fieldSep = 0 :=
      fun value ↦ List.count_eq_zero_of_not_mem (hfloats value)
    simp [LedgerEntry.figures, List.intercalate_cons_cons, List.count_append, hzero]
  obtain ⟨hnames, hfigures⟩ := append_cons_inj_of_count_after ((hcount entry).trans (hcount entry').symm) hlists
  refine ⟨String.toList_inj.mp hlink, hnames, ?_⟩
  have hparts := parts_eq_of_intercalate (hplain entry) (hplain entry') (by simp [LedgerEntry.figures])
    (by simp [LedgerEntry.figures]) hfigures
  exact List.map_injective_iff.mpr (fun _ _ ↦ String.toList_inj.mp) hparts

/-- The texts that are hashed for a ledger. -/
def hashedTexts (floats : Floats 𝔽) (entries : List (LedgerEntry 𝔽)) : List String :=
  entries.map fun entry ↦ hashed entry.previousHash (entry.row floats)

/-- The texts of two ledgers do not collide. -/
def CollisionFree (hash : Hash) (floats : Floats 𝔽) (first second : List (LedgerEntry 𝔽)) : Prop :=
  ∀ text ∈ hashedTexts floats first, ∀ other ∈ hashedTexts floats second, hash text = hash other → text = other

/-- The hash determines the place, the figures and the joined names. -/
def SameRow (floats : Floats 𝔽) (entry other : LedgerEntry 𝔽) : Prop :=
  entry.index = other.index ∧ entry.names = other.names ∧ entry.figures floats = other.figures floats

theorem rootFrom_cons : rootFrom previous (entry :: entries) = rootFrom entry.entryHash entries := by
  cases entries with
  | nil => rfl
  | cons next entries =>
    rw [rootFrom, rootFrom, List.getLast?_cons_cons, List.getLast?_eq_some_getLast (List.cons_ne_nil next entries)]
    rfl

theorem same_of_root (hhash : hash.Digits) (hfloats : floats.Digits) {previous' : String}
    (hprevious : Plain previous) (hprevious' : Plain previous') (hlength : first.length = second.length)
    (hfirst : verifyFrom hash floats position previous first = none)
    (hsecond : verifyFrom hash floats position previous' second = none)
    (hfree : CollisionFree hash floats first second) (hroot : rootFrom previous first = rootFrom previous' second) :
    previous = previous' ∧ List.Forall₂ (SameRow floats) first second := by
  induction first generalizing second position previous previous' with
  | nil =>
    obtain rfl := List.length_eq_zero_iff.mp hlength.symm
    exact ⟨hroot, .nil⟩
  | cons entry entries ih =>
    cases second with
    | nil => cases hlength
    | cons other others =>
      obtain ⟨hlink, hindex, hentry, hrest⟩ := verifyFrom_cons_eq_none_iff.mp hfirst
      obtain ⟨hlink', hindex', hother, hrest'⟩ := verifyFrom_cons_eq_none_iff.mp hsecond
      rw [rootFrom_cons, rootFrom_cons] at hroot
      have hfree' : CollisionFree hash floats entries others := fun text htext text' htext' ↦
        hfree text (List.mem_cons_of_mem _ htext) text' (List.mem_cons_of_mem _ htext')
      obtain ⟨hsame, hrows⟩ := ih (hentry ▸ hhash _) (hother ▸ hhash _) (Nat.succ.inj hlength) hrest hrest' hfree'
        hroot
      have htexts : hashed entry.previousHash (entry.row floats) = hashed other.previousHash (other.row floats) := by
        refine hfree _ List.mem_cons_self _ List.mem_cons_self ?_
        dsimp only
        rw [hlink, hlink', hentry, hother, hsame]
      rw [hlink, hlink'] at htexts
      obtain ⟨hbefore, hnames, hfigures⟩ := hashed_inj hfloats hprevious hprevious' htexts
      exact ⟨hbefore, .cons ⟨hindex.trans hindex'.symm, hnames, hfigures⟩ hrows⟩

/-- Two entries agree in every field, and in the floats to the decimals that are hashed. -/
def Agree (floats : Floats 𝔽) (entry other : LedgerEntry 𝔽) : Prop :=
  entry.index = other.index ∧ entry.slug = other.slug ∧ entry.verdict = other.verdict ∧ entry.money = other.money ∧
    floats.fixed entry.occasionsImproved = floats.fixed other.occasionsImproved ∧
    floats.fixed entry.rate = floats.fixed other.rate

/-- Two entries have the same money, and as many separators in their slugs. -/
def Undisputed (entry other : LedgerEntry 𝔽) : Prop :=
  entry.money = other.money ∧ entry.slug.toList.count fieldSep = other.slug.toList.count fieldSep

theorem SameRow.agree_iff {other : LedgerEntry 𝔽} (h : SameRow floats entry other) :
    Agree floats entry other ↔ Undisputed entry other := by
  obtain ⟨hindex, hnames, hfigures⟩ := h
  constructor
  · rintro ⟨-, hslug, -, hmoney, -, -⟩
    exact ⟨hmoney, by rw [hslug]⟩
  · rintro ⟨hmoney, hcount⟩
    obtain ⟨hslug, hverdict⟩ := append_cons_inj_of_count hcount hnames
    simp only [LedgerEntry.figures, List.cons.injEq] at hfigures
    exact ⟨hindex, String.toList_inj.mp hslug, String.toList_inj.mp hverdict, hmoney, hfigures.1, hfigures.2.1⟩

/-- Verified ledgers with one root agree exactly in the money and the separators. -/
theorem agree_iff_undisputed (hhash : hash.Digits) (hfloats : floats.Digits) (hlength : first.length = second.length)
    (hfirst : verifyLedger hash floats first = none) (hsecond : verifyLedger hash floats second = none)
    (hfree : CollisionFree hash floats first second) (hroot : ledgerRoot hash first = ledgerRoot hash second) :
    List.Forall₂ (SameRow floats) first second ∧
      (List.Forall₂ (Agree floats) first second ↔ List.Forall₂ Undisputed first second) := by
  obtain ⟨-, hrows⟩ := same_of_root hhash hfloats (hhash _) (hhash _) hlength hfirst hsecond hfree hroot
  refine ⟨hrows, ?_⟩
  clear hlength hfirst hsecond hfree hroot
  induction hrows with
  | nil => exact iff_of_true .nil .nil
  | cons hrow _ ih => rw [List.forall₂_cons, List.forall₂_cons, hrow.agree_iff, ih]

/-- An entry with other money. -/
def LedgerEntry.withMoney (money : LedgerEntry 𝔽 → 𝔽) (entry : LedgerEntry 𝔽) : LedgerEntry 𝔽 :=
  { entry with money := money entry }

theorem verifyLedger_withMoney (hash : Hash) (floats : Floats 𝔽) (money : LedgerEntry 𝔽 → 𝔽)
    (entries : List (LedgerEntry 𝔽)) :
    verifyLedger hash floats (entries.map (·.withMoney money)) = verifyLedger hash floats entries ∧
      ledgerRoot hash (entries.map (·.withMoney money)) = ledgerRoot hash entries := by
  constructor
  · have hfrom : ∀ position previous, verifyFrom hash floats position previous (entries.map (·.withMoney money)) =
        verifyFrom hash floats position previous entries := by
      induction entries with
      | nil => exact fun _ _ ↦ rfl
      | cons entry entries ih =>
        intro position previous
        rw [List.map_cons, verifyFrom, ih, verifyFrom]
        rfl
    exact hfrom _ _
  · rw [ledgerRoot, rootFrom, List.getLast?_map, Option.map_map]
    rfl

namespace Sample

/-! A helpful memory with a separator in its verdict, and a forgery in which the verdict has lost its first
part to the slug and the money has grown. -/

def digestOf : Hash := fun text ↦ hexText (Json.utf8 text)

def whole : Floats ℚ where
  fixed value := toString value.floor ++ ".000000"
  mul := (· * ·)
  cents := id

def honest : LedgerEntry ℚ where
  index := 0
  slug := "retry"
  verdict := "helps\x1fsure"
  occasionsImproved := 1
  rate := 2
  money := 2
  previousHash := genesis digestOf
  entryHash := digestOf (hashed (genesis digestOf) (fields whole 0 "retry" "helps\x1fsure" 1 2))

def forged : LedgerEntry ℚ := { honest with slug := "retry\x1fhelps", verdict := "sure", money := 2000 }

theorem digits_hash : digestOf.Digits := by
  intro text hmem
  rw [digestOf, hexText, String.toList_ofList] at hmem
  obtain ⟨byte, -, hdigit⟩ := List.mem_flatMap.mp hmem
  have hplain : ∀ value < 16, fieldSep ≠ Nat.digitChar value := by decide
  have hbyte := byte.toNat_lt
  obtain heq | heq := List.mem_pair.mp hdigit
  · exact hplain _ (by omega) heq
  · exact hplain _ (by omega) heq

theorem digits_floats : whole.Digits := by
  intro value hmem
  rw [whole] at hmem
  dsimp only at hmem
  rw [String.toList_append, List.mem_append] at hmem
  obtain hfloor | hzeros := hmem
  · exact plain_toString _ hfloor
  · exact absurd hzeros (by decide)

theorem verify_honest : verifyLedger digestOf whole [honest] = none :=
  verifyFrom_cons_eq_none_iff.mpr ⟨rfl, rfl, rfl, rfl⟩

theorem hashed_forged : hashed (genesis digestOf) (forged.row whole) = hashed (genesis digestOf)
    (honest.row whole) := by
  have hnames : forged.names = honest.names := by decide
  apply String.toList_inj.mp
  rw [toList_hashed, toList_hashed, hnames]
  rfl

theorem verify_forged : verifyLedger digestOf whole [forged] = none := by
  refine verifyFrom_cons_eq_none_iff.mpr ⟨rfl, rfl, ?_, rfl⟩
  rw [hashed_forged]
  rfl

theorem collisionFree : CollisionFree digestOf whole [honest] [forged] := by
  intro text htext other hother _
  rw [List.mem_singleton.mp htext, List.mem_singleton.mp hother]
  exact hashed_forged.symm

theorem agree_iff_undisputed_forged : List.Forall₂ (SameRow whole) [honest] [forged] ∧
    (List.Forall₂ (Agree whole) [honest] [forged] ↔ List.Forall₂ Undisputed [honest] [forged]) :=
  agree_iff_undisputed digits_hash digits_floats rfl verify_honest verify_forged collisionFree rfl

/-- Not every two ledgers that are verified and have one root agree in every field. -/
theorem not_tamper_evident : ¬∀ first second : List (LedgerEntry ℚ), first.length = second.length →
    verifyLedger digestOf whole first = none → verifyLedger digestOf whole second = none →
    CollisionFree digestOf whole first second → ledgerRoot digestOf first = ledgerRoot digestOf second →
    List.Forall₂ (Agree whole) first second := by
  intro h
  have hagree := h [honest] [forged] rfl verify_honest verify_forged collisionFree rfl
  obtain ⟨-, -, -, hmoney, -⟩ := (List.forall₂_cons.mp hagree).1
  exact absurd hmoney (by decide +kernel)

end Sample

end UniMem.ValueLedger
