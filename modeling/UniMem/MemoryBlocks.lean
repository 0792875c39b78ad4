import UniMem.Library.Procedure
import UniMem.Library.Grouping
import UniMem.Library.Json
import UniMem.Library.Substrings

/-!
# Memory blocks

A call edits the content of a block under a lock, within its quota, and logs a row of history. A text is the list of
its characters, read with universal newlines.
-/

namespace UniMem.MemoryBlocks

open Library Procedure

/-- The errors of the module. -/
inductive Error where
  | memoryBlock (message : String)
  | quotaExceeded (message : String)
  | blockNotFound (name scope : String)
  | substringNotFound (message : String)
  | readOnlyBlock (message : String)
  | revisionConflict (name expected actual : String)

/-- The regular expression classes, the names and the digests that come from elsewhere. -/
structure Setting where
  /-- `\s`, which is also what `strip` removes. -/
  isSpace : Char → Bool
  /-- `\d`. -/
  isDigit : Char → Bool
  /-- `_sanitize_name`. -/
  sanitizeName : String → Except Error String
  normalizeScope : String → Except Error String
  /-- `_compute_revision`. -/
  computeRevision : String → List Char → String → String
  now : String

/-- `str.expandtabs` after some columns. -/
def expandTabsFrom (column : ℕ) : List Char → List Char
  | [] => []
  | '\t' :: text => List.replicate (8 - column % 8) ' ' ++ expandTabsFrom 0 text
  | char :: text => char :: expandTabsFrom (if char = '\n' ∨ char = '\r' then 0 else column + 1) text

def expandTabs (text : List Char) : List Char := expandTabsFrom 0 text

def strip (setting : Setting) (text : List Char) : List Char :=
  (text.dropWhile setting.isSpace).rdropWhile setting.isSpace

/-- `str.count`. -/
def count (target text : List Char) : ℕ := if target = [] then text.length + 1 else countFrom target 0 text

/-- `str.replace`. -/
def replace (target new text : List Char) : List Char :=
  if target = [] then new ++ text.flatMap (· :: new) else replaceFrom target new 0 text

/-- What text mode reads of a file. -/
def universalNewlines : List Char → List Char
  | '\r' :: '\n' :: text => '\n' :: universalNewlines text
  | '\r' :: text => '\n' :: universalNewlines text
  | char :: text => char :: universalNewlines text
  | [] => []

/-- How many characters a line prefix takes at the start of a text. -/
def linePrefix (setting : Setting) (text : List Char) : Option ℕ :=
  let spaces := fun text : List Char ↦ (text.takeWhile setting.isSpace).length
  let digits := fun text : List Char ↦ (text.takeWhile setting.isDigit).length
  if ['L', 'i', 'n', 'e'] <+: text then
    let first := spaces (text.drop 4)
    let second := digits (text.drop (4 + first))
    let colon := 4 + first + second
    if 0 < first ∧ 0 < second ∧ text[colon]? = some ':' then some (colon + 1 + spaces (text.drop (colon + 1)))
    else none
  else
    let arrow := digits text
    if 0 < arrow ∧ (text[arrow]? = some '→' ∨ text[arrow]? = some '>') then
      some (arrow + 1 + spaces (text.drop (arrow + 1)))
    else none

/-- The rest of a text, given whether a line starts and what is left of a prefix. -/
def stripPrefixes (setting : Setting) : Bool → ℕ → List Char → List Char
  | _, _, [] => []
  | _, skip + 1, char :: text => stripPrefixes setting (char = '\n') skip text
  | starts, 0, char :: text =>
    match if starts then linePrefix setting (char :: text) else none with
    | some taken => stripPrefixes setting (char = '\n') (taken - 1) text
    | none => char :: stripPrefixes setting (char = '\n') 0 text

def stripLinePrefix (setting : Setting) (text : List Char) : List Char := stripPrefixes setting true 0 text

/-- A target, or what replaces it, as it is compared. -/
def normalise (setting : Setting) (text : List Char) : List Char := stripLinePrefix setting (expandTabs text)

/-- The metadata file. -/
structure Meta where
  maxChars : ℤ
  revision : String
  createdAt : String
  updatedAt : String
  metadata : List (String × Json)
  readOnly : Bool

structure MemoryBlock extends Meta where
  name : String
  content : List Char
  charCount : ℕ
  scope : String

/-- A row of the history. -/
structure Entry where
  timestamp : String
  block : String
  action : String
  actor : String
  reason : String
  revision : String
  prevRevision : String
  charCount : ℕ
  scope : String

/-- The files of a scope and a name, and the history. -/
structure Store where
  metas : String × String → Option Meta
  contents : String × String → Option (List Char)
  history : List Entry

abbrev Call := Procedure Store Error

def require (condition : Bool) (error : Error) : Call Unit :=
  lift (if condition then .ok () else .error error)

/-- The scope and the name of a block. -/
def keyOf (setting : Setting) (name scope : String) : Call (String × String) :=
  lift do
    let clean ← setting.sanitizeName name
    return (← setting.normalizeScope scope, clean)

/-- The block under a key, with the content as it is read. -/
def Store.block (store : Store) (key : String × String) : Option MemoryBlock := do
  let found ← store.metas key
  let content := universalNewlines (← store.contents key)
  return { found with name := key.2, content, charCount := content.length, scope := key.1 }

/-- `_get_block_locked`. -/
def getBlockLocked (store : Store) (key : String × String) : Except Error MemoryBlock :=
  (store.block key).elim (.error (.blockNotFound key.2 key.1)) .ok

/-- `get_block`. -/
def getBlock (setting : Setting) (name scope : String) : Call MemoryBlock := do
  let key ← keyOf setting name scope
  lift (← read (getBlockLocked · key))

/-- What a call has to write. -/
structure Draft where
  content : List Char
  maxChars : ℤ
  reason : String
  metadata : List (String × Json)
  readOnly : Bool

/-- `_write_locked`. -/
def writeLocked (setting : Setting) (key : String × String) (actor : String) (draft : Draft) : Call MemoryBlock := do
  require (draft.maxChars ≤ 100_000) (.memoryBlock "block quota cannot exceed 100000 characters")
  require (draft.content.length ≤ draft.maxChars) (.quotaExceeded ("Content length " ++
    toString draft.content.length ++ " exceeds quota of " ++ toString draft.maxChars ++ " chars for block '" ++
    key.2 ++ "'"))
  let existing ← read (Store.metas · key)
  let previous := existing.elim "" Meta.revision
  let found : Meta :=
    { maxChars := draft.maxChars
      revision := setting.computeRevision key.2 draft.content previous
      createdAt := existing.elim setting.now Meta.createdAt
      updatedAt := setting.now
      metadata := draft.metadata.foldl (fun merged entry ↦ assign entry.1 entry.2 merged)
        (existing.elim [] Meta.metadata)
      readOnly := existing.elim false Meta.readOnly || draft.readOnly }
  update fun store ↦
    { metas := Function.update store.metas key (some found)
      contents := Function.update store.contents key (some draft.content)
      history := store.history ++ [⟨setting.now, key.2, "set", actor, draft.reason, found.revision, previous,
        draft.content.length, key.1⟩] }
  return { found with name := key.2, content := draft.content, charCount := draft.content.length, scope := key.1 }

/-- `_check_revision`. -/
def checkRevision (name actual : String) (expected : Option String) : Call Unit :=
  match expected with
  | none => return ()
  | some expected => require (actual = expected) (.revisionConflict name expected actual)

/-- `_check_mutable`. -/
def checkMutable (block : MemoryBlock) : Call Unit :=
  require (!block.readOnly)
    (.readOnlyBlock ("Memory block '" ++ block.name ++ "' is read-only and cannot be modified."))

/-- The arguments that the calls share. -/
structure Request where
  name : String
  scope : String
  actor : String
  reason : String
  expectedRevision : Option String

/-- `reason or default`. -/
def Request.reasonOr (request : Request) (default : String) : String :=
  if request.reason = "" then default else request.reason

/-- A call under the lock: the block is checked and changed. `create` allows a new one. -/
def edit (setting : Setting) (request : Request) (create : Bool)
    (change : String → Option MemoryBlock → Except Error Draft) : Call MemoryBlock := do
  let key ← keyOf setting request.name request.scope
  let found ← read (Store.block · key)
  match found with
  | some block =>
    checkRevision key.2 block.revision request.expectedRevision
    checkMutable block
  | none =>
    require create (.blockNotFound key.2 key.1)
    checkRevision key.2 "" request.expectedRevision
  let draft ← lift (change key.2 found)
  writeLocked setting key request.actor draft

section

variable (setting : Setting) (request : Request)

/-- A call that writes, with the arguments of its own. -/
inductive Write where
  | set (content : List Char) (maxChars : ℤ) (metadata : List (String × Json)) (readOnly : Bool)
  | append (text : List Char)
  | insert (text : List Char) (line : ℤ)
  | replace (old new : List Char)

/-- What `append_block` makes of a content. -/
def appended (base text : List Char) : List Char :=
  let text := strip setting (expandTabs text)
  if base = [] then text else strip setting (base ++ '\n' :: text)

/-- The lines of `insert_block` with one more. -/
def inserted (lines : List (List Char)) (text : List Char) (line : ℤ) : Option (List (List Char)) :=
  let text := (expandTabs text).rdropWhile (· = '\n')
  if line = -1 ∨ lines.length ≤ line then some (lines ++ [text])
  else if 0 ≤ line then some (lines.insertIdx line.toNat text)
  else none

/-- The numbers of the lines with a target. -/
def linesWith (target text : List Char) : List ℕ :=
  (text.splitOn '\n').zipIdx.filterMap fun entry ↦ if target <:+: entry.1 then some (entry.2 + 1) else none

/-- What a call makes of the block with a name, if there is one. -/
def Write.draft (name : String) (found : Option MemoryBlock) : Write → Except Error Draft
  | .set content maxChars metadata readOnly =>
    .ok ⟨strip setting (expandTabs content), maxChars, request.reason, metadata, readOnly⟩
  | .append text =>
    .ok ⟨appended setting (found.elim [] MemoryBlock.content) text, found.elim 2000 fun block ↦ block.maxChars,
      request.reasonOr "append", [], false⟩
  | .insert text line =>
    let lines := found.elim [] fun block ↦ (expandTabs block.content).splitOn '\n'
    match inserted lines text line with
    | some lines => .ok ⟨strip setting (['\n'].intercalate lines), found.elim 2000 fun block ↦ block.maxChars,
        request.reasonOr ("inserted at line " ++ toString line), [], false⟩
    | none => .error (.memoryBlock ("line_number " ++ toString line ++ " out of range [0, " ++
        toString lines.length ++ "] for block '" ++ name ++ "'"))
  | .replace old new =>
    let target := normalise setting old
    let new := normalise setting new
    let text := found.elim [] fun block ↦ expandTabs block.content
    if count target text = 0 then
      .error (.substringNotFound ("Target text not found in memory block '" ++ name ++ "'"))
    else if 1 < count target text then
      .error (.memoryBlock ("Ambiguous replacement: target text occurs " ++ toString (count target text) ++
        " times in block '" ++ name ++ "' on lines " ++ toString (linesWith target text) ++
        ". Provide more surrounding context to make the target unique."))
    else
      .ok ⟨strip setting (MemoryBlocks.replace target new text), found.elim 2000 fun block ↦ block.maxChars,
        request.reasonOr ("replaced '" ++ String.ofList (target.take 20) ++ "' with '" ++
          String.ofList (new.take 20) ++ "'"), [], false⟩

/-- The four calls that write; `replace_block` creates no block. -/
def Write.perform (write : Write) : Call MemoryBlock :=
  match write with
  | .replace old _ => do
    require (old ≠ []) (.memoryBlock "Ambiguous replacement: the target text is empty")
    edit setting request false (write.draft setting request)
  | _ => edit setting request true (write.draft setting request)

end

section Calls

variable {α : Type} {key : String × String} {store final : Store} {value : α} {next : Unit → Call α}
  {setting : Setting} {request : Request} {block : MemoryBlock}

theorem require_bind_apply {condition : Bool} {error : Error} :
    (require condition error >>= next) store = if condition then next () store else (.error error, store) := by
  cases condition <;> rfl

theorem require_bind_eq_ok_iff {condition : Bool} {error : Error} :
    (require condition error >>= next) store = (.ok value, final) ↔
      condition = true ∧ next () store = (.ok value, final) := by
  rw [require_bind_apply]
  split_ifs with h
  · exact (and_iff_right h).symm
  · exact iff_of_false (fun heq ↦ by cases (Prod.mk.inj heq).1) fun hand ↦ h hand.1

theorem checkRevision_bind_eq_ok {name actual : String} {expected : Option String}
    (h : (checkRevision name actual expected >>= next) store = (.ok value, final)) :
    next () store = (.ok value, final) := by
  cases expected with
  | none => exact h
  | some expected => exact (require_bind_eq_ok_iff.mp h).2

theorem edit_eq_ok {create : Bool} {change : String → Option MemoryBlock → Except Error Draft}
    (hkey : keyOf setting request.name request.scope store = (.ok key, store))
    (h : edit setting request create change store = (.ok block, final)) :
    ∃ draft, change key.2 (store.block key) = .ok draft ∧
      writeLocked setting key request.actor draft store = (.ok block, final) := by
  rw [edit, bind_apply, hkey] at h
  dsimp only at h
  rw [read_bind] at h
  cases hblock : store.block key with
  | none =>
    simp only [hblock] at h
    exact lift_bind_eq_ok_iff.mp (checkRevision_bind_eq_ok (require_bind_eq_ok_iff.mp h).2)
  | some found =>
    simp only [hblock] at h
    exact lift_bind_eq_ok_iff.mp (require_bind_eq_ok_iff.mp (checkRevision_bind_eq_ok h)).2

theorem writeLocked_eq_ok {actor : String} {draft : Draft}
    (h : writeLocked setting key actor draft store = (.ok block, final)) :
    (block.content = draft.content ∧ block.charCount = draft.content.length ∧
      (draft.content.length : ℤ) ≤ block.maxChars) ∧ final.contents key = some draft.content ∧
      final.block key = some { block with
        content := universalNewlines draft.content
        charCount := (universalNewlines draft.content).length } := by
  rw [writeLocked, require_bind_eq_ok_iff, require_bind_eq_ok_iff, read_bind] at h
  obtain ⟨-, hfits, hwrite⟩ := h
  dsimp only at hwrite
  rw [update_bind] at hwrite
  obtain ⟨hblock, rfl⟩ := Prod.mk.inj hwrite
  obtain rfl := Except.ok.inj hblock
  refine ⟨⟨rfl, rfl, of_decide_eq_true hfits⟩, Function.update_self .., ?_⟩
  simp only [Store.block, Function.update_self]
  rfl

end Calls

theorem notMem_universalNewlines (text : List Char) : '\r' ∉ universalNewlines text := by
  fun_induction universalNewlines text with
  | case1 text ih => simpa using ih
  | case2 text _ ih => simpa using ih
  | case3 char text _ hchar ih => exact fun h ↦ (List.mem_cons.mp h).elim (fun heq ↦ hchar heq.symm) ih
  | case4 => exact List.not_mem_nil

theorem universalNewlines_eq_self_iff {text : List Char} : universalNewlines text = text ↔ '\r' ∉ text := by
  constructor
  · intro h
    rw [← h]
    exact notMem_universalNewlines text
  · intro h
    fun_induction universalNewlines text with
    | case1 text ih => exact absurd List.mem_cons_self h
    | case2 text _ ih => exact absurd List.mem_cons_self h
    | case3 char text _ hchar ih => rw [ih fun hmem ↦ h (List.mem_cons_of_mem _ hmem)]
    | case4 => rfl

/-- What `get_block` returns after a write, by its content, its sizes and its revision. -/
def ReadsBack (setting : Setting) (request : Request) (block : MemoryBlock) (store : Store) : Prop :=
  ∃ found, getBlock setting request.name request.scope store = (.ok found, store) ∧
    (found.content = block.content ∧ found.charCount = block.charCount ∧ found.maxChars = block.maxChars ∧
      found.revision = block.revision) ∧ (found.charCount : ℤ) ≤ found.maxChars

/-- A block is read back as it was written exactly when its text has no carriage return. -/
theorem readsBack_iff (setting : Setting) (request : Request) (write : Write) (store final : Store)
    (key : String × String) (draft : Draft) (block : MemoryBlock)
    (hkey : keyOf setting request.name request.scope store = (.ok key, store))
    (hdraft : write.draft setting request key.2 (store.block key) = .ok draft)
    (h : write.perform setting request store = (.ok block, final)) :
    ReadsBack setting request block final ↔ '\r' ∉ draft.content := by
  have hwrite : writeLocked setting key request.actor draft store = (.ok block, final) := by
    have hedit : ∃ create, edit setting request create (write.draft setting request) store = (.ok block, final) := by
      cases write with
      | replace old new => exact ⟨false, (require_bind_eq_ok_iff.mp h).2⟩
      | set | append | insert => exact ⟨true, h⟩
    obtain ⟨create, hedit⟩ := hedit
    obtain ⟨other, hother, hwrite⟩ := edit_eq_ok hkey hedit
    rwa [Except.ok.inj (hdraft.symm.trans hother)]
  obtain ⟨⟨hcontent, hcount, hfits⟩, -, hblock⟩ := writeLocked_eq_ok hwrite
  have hread : getBlock setting request.name request.scope final = (.ok { block with
      content := universalNewlines draft.content
      charCount := (universalNewlines draft.content).length }, final) := by
    have hkey' : keyOf setting request.name request.scope final = (.ok key, final) :=
      Prod.ext (Prod.mk.inj hkey).1 rfl
    rw [getBlock, bind_apply, hkey']
    dsimp only
    rw [read_bind, getBlockLocked, hblock]
    rfl
  rw [← universalNewlines_eq_self_iff]
  constructor
  · rintro ⟨found, hfound, ⟨hsame, -⟩, -⟩
    have heq := Except.ok.inj (Prod.mk.inj (hread.symm.trans hfound)).1
    rw [← heq, hcontent] at hsame
    exact hsame
  · intro hsame
    refine ⟨_, hread, ⟨hsame.trans hcontent.symm, ?_, rfl, rfl⟩, ?_⟩
    · rw [hsame, hcount]
    · rw [hsame]
      exact hfits

/-- A target at several positions is somewhere without an overlap. -/
def Clear (target text : List Char) : Prop :=
  (target = [] → text ≠ []) ∧ ∀ first second, OccursAt target text first → OccursAt target text second →
    first < second →
    ∃ before after, OccursAt target text before ∧ OccursAt target text after ∧ before + target.length ≤ after

theorem count_eq_one_iff_of_clear {target text : List Char} (h : Clear target text) :
    count target text = 1 ↔ target ≠ [] ∧ ∃! index, OccursAt target text index := by
  rw [count]
  by_cases hempty : target = []
  · have hlength := List.length_pos_iff.mpr (h.1 hempty)
    rw [if_pos hempty]
    exact iff_of_false (by omega) fun hand ↦ hand.1 hempty
  · rw [if_neg hempty, countFrom_eq_one_iff hempty, and_iff_right hempty]
    constructor
    · rintro ⟨index, hindex, hfirst⟩
      refine ⟨index, hindex, fun other hother ↦ ?_⟩
      by_contra hne
      have hlt : index < other := lt_of_le_of_ne (hfirst other hother).1 (Ne.symm hne)
      obtain ⟨before, after, hbefore, hafter, hapart⟩ := h.2 index other hindex hother hlt
      have hleast := (hfirst before hbefore).1
      have hnear := (hfirst after hafter).2
      omega
    · rintro ⟨index, hindex, hunique⟩
      have hlength := List.length_pos_iff.mpr hempty
      refine ⟨index, hindex, fun other hother ↦ ?_⟩
      obtain rfl := hunique other hother
      omega

theorem count_eq_one_of_not_clear {target text : List Char} (h : ¬Clear target text) :
    count target text = 1 ∧ ¬(target ≠ [] ∧ ∃! index, OccursAt target text index) := by
  rw [count]
  by_cases hempty : target = []
  · have hnil : text = [] := by
      by_contra hne
      refine h ⟨fun _ ↦ hne, fun first second hfirst hsecond hlt ↦ ⟨first, second, hfirst, hsecond, ?_⟩⟩
      rw [hempty]
      exact hlt.le
    rw [if_pos hempty, hnil]
    exact ⟨rfl, fun hand ↦ hand.1 hempty⟩
  · simp only [Clear, hempty, false_implies, true_and, not_forall, not_exists, not_and, not_le] at h
    obtain ⟨first, second, hfirst, hsecond, hlt, hnear⟩ := h
    rw [if_neg hempty, countFrom_eq_one_iff hempty]
    classical
    have hexists : ∃ index, OccursAt target text index := ⟨first, hfirst⟩
    refine ⟨⟨Nat.find hexists, Nat.find_spec hexists, fun other hother ↦
      ⟨Nat.find_min' hexists hother, hnear _ _ (Nat.find_spec hexists) hother⟩⟩, ?_⟩
    rintro ⟨-, hunique⟩
    exact hlt.ne (hunique.unique hfirst hsecond)

/-- The content after a replacement that is accepted. -/
def replaced (setting : Setting) (old new : List Char) (block : MemoryBlock) : List Char :=
  strip setting (replace (normalise setting old) (normalise setting new) (expandTabs block.content))

/-- A block that may be written, when the new content is within its quota. -/
structure Writable (setting : Setting) (request : Request) (old new : List Char) (store : Store)
    (key : String × String) (block : MemoryBlock) : Prop where
  keyed : keyOf setting request.name request.scope store = (.ok key, store)
  found : store.block key = some block
  isMutable : block.readOnly = false
  revision : ∀ expected ∈ request.expectedRevision, block.revision = expected
  maxChars : block.maxChars ≤ 100_000
  fits : (replaced setting old new block).length ≤ block.maxChars

/-- What a replacement has to do with the block of a key. -/
def EditsOneOccurrence (setting : Setting) (request : Request) (old new : List Char) (store : Store)
    (key : String × String) (block : MemoryBlock) : Prop :=
  let target := normalise setting old
  let text := expandTabs block.content
  let result := (Write.replace old new).perform setting request store
  ((∃ found, result.1 = .ok found) ↔ target ≠ [] ∧ ∃! index, OccursAt target text index) ∧
    (∀ found index, result.1 = .ok found → OccursAt target text index → result.2.contents key =
      some (strip setting (text.take index ++ normalise setting new ++ text.drop (index + target.length)))) ∧
    ∀ error, result.1 = .error error → result.2 = store

section Replacements

variable {setting : Setting} {request : Request} {old new : List Char} {store : Store} {key : String × String}
  {block : MemoryBlock}

theorem draft_replace (setting : Setting) (request : Request) (old new : List Char) (block : MemoryBlock)
    (name : String) :
    (count (normalise setting old) (expandTabs block.content) = 1 → ∃ reason,
      (Write.replace old new).draft setting request name (some block) =
        .ok ⟨replaced setting old new block, block.maxChars, reason, [], false⟩) ∧
    (count (normalise setting old) (expandTabs block.content) ≠ 1 → ∃ error,
      (Write.replace old new).draft setting request name (some block) = .error error) := by
  constructor
  · intro h
    exact ⟨_, (if_neg (by simp [h])).trans (if_neg (by simp [h]))⟩
  · intro h
    by_cases hnone : count (normalise setting old) (expandTabs block.content) = 0
    · exact ⟨_, if_pos hnone⟩
    · have hmany : 1 < count (normalise setting old) (expandTabs block.content) := by omega
      exact ⟨_, (if_neg hnone).trans (if_pos hmany)⟩

theorem Writable.perform_cases (h : Writable setting request old new store key block) :
    (old ≠ [] → count (normalise setting old) (expandTabs block.content) = 1 →
      ∃ found final, (Write.replace old new).perform setting request store = (.ok found, final) ∧
        final.contents key = some (replaced setting old new block)) ∧
    (old = [] ∨ count (normalise setting old) (expandTabs block.content) ≠ 1 →
      ∃ error, (Write.replace old new).perform setting request store = (.error error, store)) := by
  have hchecked : ∀ {next : Unit → Call MemoryBlock},
      (checkRevision key.2 block.revision request.expectedRevision >>= next) store = next () store := by
    intro next
    cases hexpected : request.expectedRevision with
    | none => rfl
    | some expected => rw [checkRevision, require_bind_apply, if_pos (decide_eq_true (h.revision expected hexpected))]
  have hedit : edit setting request false ((Write.replace old new).draft setting request) store =
      (lift ((Write.replace old new).draft setting request key.2 (some block)) >>=
        writeLocked setting key request.actor) store := by
    rw [edit, bind_apply, h.keyed]
    dsimp only
    rw [read_bind, h.found]
    dsimp only
    rw [hchecked, checkMutable, require_bind_apply, h.isMutable]
    rfl
  obtain ⟨hone, hother⟩ := draft_replace setting request old new block key.2
  rw [Write.perform, require_bind_apply, hedit]
  by_cases hold : old = []
  · rw [if_neg (by simpa using hold)]
    exact ⟨fun hne ↦ absurd hold hne, fun _ ↦ ⟨_, rfl⟩⟩
  rw [if_pos (decide_eq_true hold)]
  by_cases hcount : count (normalise setting old) (expandTabs block.content) = 1
  · obtain ⟨reason, hdraft⟩ := hone hcount
    refine ⟨fun _ _ ↦ ?_, fun hor ↦ (hor.elim hold fun hne ↦ hne hcount).elim⟩
    rw [hdraft, bind_apply, lift]
    dsimp only
    rw [writeLocked, require_bind_apply, if_pos (decide_eq_true h.maxChars), require_bind_apply,
      if_pos (decide_eq_true h.fits)]
    exact ⟨_, _, rfl, Function.update_self ..⟩
  · obtain ⟨error, hdraft⟩ := hother hcount
    rw [hdraft]
    exact ⟨fun _ heq ↦ absurd heq hcount, fun _ ↦ ⟨error, rfl⟩⟩

theorem editsOneOccurrence_of_error {error : Error}
    (h : (Write.replace old new).perform setting request store = (.error error, store))
    (hnot : ¬(normalise setting old ≠ [] ∧
      ∃! index, OccursAt (normalise setting old) (expandTabs block.content) index)) :
    EditsOneOccurrence setting request old new store key block := by
  simp [EditsOneOccurrence, h, hnot]

end Replacements

/-- A replacement does what it has to exactly when it is empty or the normalised target is clear. -/
theorem editsOneOccurrence_iff (setting : Setting) (request : Request) (old new : List Char) (store : Store)
    (key : String × String) (block : MemoryBlock) (h : Writable setting request old new store key block) :
    EditsOneOccurrence setting request old new store key block ↔
      old = [] ∨ Clear (normalise setting old) (expandTabs block.content) := by
  obtain ⟨hwrites, hraises⟩ := h.perform_cases
  by_cases hold : old = []
  · obtain ⟨error, herror⟩ := hraises (.inl hold)
    exact iff_of_true (editsOneOccurrence_of_error herror fun hand ↦ hand.1 (by rw [hold]; rfl)) (.inl hold)
  by_cases hclear : Clear (normalise setting old) (expandTabs block.content)
  · refine iff_of_true ?_ (.inr hclear)
    have hcount := count_eq_one_iff_of_clear hclear
    by_cases hone : count (normalise setting old) (expandTabs block.content) = 1
    · obtain ⟨found, final, hresult, hcontent⟩ := hwrites hold hone
      obtain ⟨hne, hunique⟩ := hcount.mp hone
      unfold EditsOneOccurrence
      rw [hresult]
      refine ⟨iff_of_true ⟨found, rfl⟩ ⟨hne, hunique⟩, fun _ index _ hindex ↦ ?_, fun error herror ↦ by cases herror⟩
      rw [count, if_neg hne] at hone
      rw [hcontent, replaced, replace, if_neg hne,
        replaceFrom_of_count hne hone hindex fun other hother ↦ (hunique.unique hindex hother).le]
    · obtain ⟨error, herror⟩ := hraises (.inr hone)
      exact editsOneOccurrence_of_error herror (mt hcount.mpr hone)
  · obtain ⟨hone, hnot⟩ := count_eq_one_of_not_clear hclear
    obtain ⟨found, final, hresult, -⟩ := hwrites hold hone
    refine iff_of_false (fun hedits ↦ hnot (hedits.1.mp ⟨found, ?_⟩)) fun hor ↦ hor.elim hold hclear
    rw [hresult]

namespace Sample

def setting : Setting where
  isSpace char := char = ' ' || char = '\n' || char = '\r'
  isDigit := Char.isDigit
  sanitizeName := .ok
  normalizeScope := .ok
  computeRevision _ _ _ := "0123456789abcdef"
  now := "2026-01-01T00:00:00+00:00"

def request : Request := ⟨"persona", "", "agent", "", none⟩

def empty : Store := ⟨fun _ ↦ none, fun _ ↦ none, []⟩

def written (text : List Char) : MemoryBlock :=
  { maxChars := 2000, revision := "0123456789abcdef", createdAt := setting.now, updatedAt := setting.now,
    metadata := [], readOnly := false, name := "persona", content := text, charCount := text.length, scope := "" }

def holding (text : List Char) : Store :=
  ⟨fun _ ↦ some (written text).toMeta, fun _ ↦ some text, []⟩

theorem writable (old new : List Char) (h : (replaced setting old new (written ['a', 'a', 'a'])).length ≤ 2000) :
    Writable setting request old new (holding ['a', 'a', 'a']) ("", "persona") (written ['a', 'a', 'a']) :=
  ⟨rfl, rfl, rfl, nofun, by decide, Int.ofNat_le.mpr h⟩

end Sample

/-- A carriage return is read as a newline. -/
theorem not_readsBack : ¬∀ (setting : Setting) (request : Request) (write : Write) (store final : Store)
    (block : MemoryBlock), write.perform setting request store = (.ok block, final) →
      ReadsBack setting request block final := by
  intro h
  obtain ⟨found, hfound, ⟨hcontent, -⟩, -⟩ := h Sample.setting Sample.request (.set ['a', '\r', 'b'] 2000 [] false)
    Sample.empty _ (Sample.written ['a', '\r', 'b']) rfl
  obtain rfl := Except.ok.inj (Prod.mk.inj hfound).1
  exact absurd hcontent (by decide)

theorem readsBack_iff_set : ∃ final,
    (Write.set ['a', 'b'] 2000 [] false).perform Sample.setting Sample.request Sample.empty =
      (.ok (Sample.written ['a', 'b']), final) ∧
    (ReadsBack Sample.setting Sample.request (Sample.written ['a', 'b']) final ↔ '\r' ∉ ['a', 'b']) :=
  ⟨_, rfl, readsBack_iff Sample.setting Sample.request (.set ['a', 'b'] 2000 [] false) Sample.empty _ ("", "persona")
    ⟨['a', 'b'], 2000, "", [], false⟩ _ rfl rfl rfl⟩

/-- The target stands at two positions that overlap. -/
theorem not_editsOneOccurrence :
    Writable Sample.setting Sample.request ['a', 'a'] ['b'] (Sample.holding ['a', 'a', 'a']) ("", "persona")
      (Sample.written ['a', 'a', 'a']) ∧
    ¬EditsOneOccurrence Sample.setting Sample.request ['a', 'a'] ['b'] (Sample.holding ['a', 'a', 'a'])
      ("", "persona") (Sample.written ['a', 'a', 'a']) := by
  refine ⟨Sample.writable _ _ (by decide), fun h ↦ ?_⟩
  obtain ⟨-, hunique⟩ := h.1.mp ⟨_, rfl⟩
  have htwo : OccursAt ['a', 'a'] ['a', 'a', 'a'] 0 ∧ OccursAt ['a', 'a'] ['a', 'a', 'a'] 1 := by decide
  exact absurd (hunique.unique htwo.1 htwo.2) (by decide)

/-- A target that is not there is clear. -/
theorem editsOneOccurrence_iff_absent : EditsOneOccurrence Sample.setting Sample.request ['c'] ['b']
      (Sample.holding ['a', 'a', 'a']) ("", "persona") (Sample.written ['a', 'a', 'a']) ↔
    ['c'] = [] ∨ Clear (normalise Sample.setting ['c']) (expandTabs ['a', 'a', 'a']) :=
  editsOneOccurrence_iff Sample.setting Sample.request ['c'] ['b'] _ _ _ (Sample.writable ['c'] ['b'] (by decide))

end UniMem.MemoryBlocks
