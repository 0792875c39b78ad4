import UniMem.Library.Json

/-!
# Files of lines that grow by appending

A reader keeps an offset behind a line break and what it has read so far. While a file only grows, reading from the
offset on gives the same as reading from its start.
-/

namespace UniMem.Library.AppendedLines

/-- The byte of a line break. -/
def newline : UInt8 := 0x0a

/-- The bytes up to the last line break and with it. -/
def whole (bytes : Bytes) : Bytes := bytes.rdropWhile (· ≠ newline)

/-- The bytes behind the last line break. -/
def pending (bytes : Bytes) : Bytes := bytes.rtakeWhile (· ≠ newline)

theorem whole_append_pending (bytes : Bytes) : whole bytes ++ pending bytes = bytes :=
  List.rdropWhile_append_rtakeWhile

theorem drop_length_whole (bytes : Bytes) : bytes.drop (whole bytes).length = pending bytes := by
  have h : (whole bytes ++ pending bytes).drop (whole bytes).length = pending bytes := List.drop_left
  rwa [whole_append_pending] at h

/-- No line is left open at the end. -/
def Closed (bytes : Bytes) : Prop := whole bytes = bytes

theorem closed_nil : Closed [] := List.rdropWhile_nil _

theorem closed_concat (bytes : Bytes) : Closed (bytes ++ [newline]) :=
  List.rdropWhile_concat_neg _ _ _ (by simp)

theorem closed_whole (bytes : Bytes) : Closed (whole bytes) := List.rdropWhile_idempotent _ _

theorem Closed.eq_nil_or_concat {bytes : Bytes} (h : Closed bytes) :
    bytes = [] ∨ ∃ before, bytes = before ++ [newline] := by
  rcases List.eq_nil_or_concat bytes with rfl | ⟨before, last, rfl⟩
  · exact Or.inl rfl
  · rw [List.concat_eq_append] at h ⊢
    have hlast := List.rdropWhile_eq_self_iff.mp h (by simp)
    rw [List.getLast_append_singleton] at hlast
    have hnewline : last = newline := by simpa using hlast
    exact Or.inr ⟨before, by rw [hnewline]⟩

theorem whole_append {base : Bytes} (h : Closed base) (chunk : Bytes) : whole (base ++ chunk) =
    base ++ whole chunk := by
  induction chunk using List.reverseRecOn with
  | nil =>
    rw [List.append_nil]
    exact h.trans (by simp [whole])
  | append_singleton chunk last ih =>
    rw [← List.append_assoc]
    by_cases hlast : last = newline
    · subst hlast
      rw [closed_concat (base ++ chunk), closed_concat chunk, List.append_assoc]
    · unfold whole at ih ⊢
      rw [List.rdropWhile_concat_pos _ _ _ (by simpa using hlast),
        List.rdropWhile_concat_pos _ _ _ (by simpa using hlast)]
      exact ih

theorem pending_append {base : Bytes} (h : Closed base) (chunk : Bytes) : pending (base ++ chunk) =
    pending chunk := by
  have heq := whole_append_pending (base ++ chunk)
  rw [whole_append h, List.append_assoc, List.append_cancel_left_eq] at heq
  exact List.append_cancel_left (heq.trans (whole_append_pending chunk).symm)

theorem whole_eq_nil_of_notMem {bytes : Bytes} (h : newline ∉ bytes) : whole bytes = [] := by
  apply List.rdropWhile_eq_nil_iff.mpr
  intro byte hbyte
  simpa using fun heq : byte = newline ↦ h (heq ▸ hbyte)

theorem pending_of_notMem {bytes : Bytes} (h : newline ∉ bytes) : pending bytes = bytes := by
  have heq := whole_append_pending bytes
  rwa [whole_eq_nil_of_notMem h, List.nil_append] at heq

/-- A file and what tells it from others. -/
structure File (ι : Type) where
  identity : ι
  bytes : Bytes

/-- What a reader remembers: its offset, the last bytes and what it read. -/
structure Cache (ι σ : Type) where
  identity : ι
  offset : ℕ
  tail : Bytes
  parsed : σ

variable {ι σ : Type}

def Cache.fresh (identity : ι) (initial : σ) : Cache ι σ := ⟨identity, 0, [], initial⟩

section Reader

variable [DecidableEq ι]

/-- The file of a size is still the one that was read. -/
def Cache.valid (cache : Cache ι σ) (file : File ι) (size : ℕ) : Bool :=
  cache.identity = file.identity && cache.offset ≤ size &&
    (cache.tail = [] || ((file.bytes.drop (cache.offset - cache.tail.length)).take cache.tail.length = cache.tail))

/-- The cache that a reader goes on from. -/
def current (initial : σ) (cache : Option (Cache ι σ)) (file : File ι) (size : ℕ) : Cache ι σ :=
  match cache with
  | some cache => if cache.valid file size then cache else .fresh file.identity initial
  | none => .fresh file.identity initial

/-- What a reader remembers after the whole lines of a chunk. -/
def Cache.advance (absorb : σ → Bytes → σ) (limit : ℕ) (cache : Cache ι σ) (lines : Bytes) : Cache ι σ where
  identity := cache.identity
  offset := cache.offset + lines.length
  tail := if lines = [] then cache.tail else (cache.tail ++ lines).rtake limit
  parsed := absorb cache.parsed lines

/-- Reads what was added to a file: the new cache and the line that is still open. -/
def refresh (absorb : σ → Bytes → σ) (initial : σ) (limit : ℕ) (cache : Option (Cache ι σ)) (file : File ι)
    (size : ℕ) :
    Cache ι σ × Bytes :=
  let cache := current initial cache file size
  let chunk := file.bytes.drop cache.offset
  (cache.advance absorb limit (whole chunk), chunk.drop (whole chunk).length)

end Reader

/-- Reading in two portions is reading at once, when the first portion ends with a line. -/
structure Incremental (absorb : σ → Bytes → σ) : Prop where
  nil : ∀ state, absorb state [] = state
  append : ∀ state first second, Closed first → absorb (absorb state first) second = absorb state (first ++ second)

/-- A cache of this file holds what its first bytes give. -/
def Cache.Tracks (absorb : σ → Bytes → σ) (initial : σ) (file : File ι) (cache : Cache ι σ) : Prop :=
  cache.identity = file.identity →
    ∃ base, base <+: file.bytes ∧ Closed base ∧ base.length = cache.offset ∧ cache.parsed = absorb initial base

variable {absorb : σ → Bytes → σ} {initial : σ} {limit : ℕ} {file : File ι} {cache : Cache ι σ}

theorem Cache.Tracks.append (h : cache.Tracks absorb initial file) (more : Bytes) :
    cache.Tracks absorb initial { file with bytes := file.bytes ++ more } := by
  intro hidentity
  obtain ⟨base, hbase, hrest⟩ := h hidentity
  exact ⟨base, hbase.trans (List.prefix_append _ _), hrest⟩

theorem tracks_fresh (habsorb : Incremental absorb) (file : File ι) :
    (Cache.fresh file.identity initial).Tracks absorb initial file :=
  fun _ ↦ ⟨[], List.nil_prefix, closed_nil, rfl, (habsorb.nil initial).symm⟩

variable [DecidableEq ι]

theorem tracks_current (habsorb : Incremental absorb) {cache : Option (Cache ι σ)}
    (h : ∀ known ∈ cache, known.Tracks absorb initial file) (size : ℕ) :
    (current initial cache file size).Tracks absorb initial file ∧
      (current initial cache file size).identity = file.identity := by
  cases cache with
  | none => exact ⟨tracks_fresh habsorb file, rfl⟩
  | some cache =>
    by_cases hvalid : cache.valid file size = true
    · have heq : current initial (some cache) file size = cache := if_pos hvalid
      rw [heq]
      refine ⟨h cache rfl, ?_⟩
      rw [Cache.valid, Bool.and_eq_true, Bool.and_eq_true, decide_eq_true_eq] at hvalid
      exact hvalid.1.1
    · have heq : current initial (some cache) file size = .fresh file.identity initial := if_neg hvalid
      rw [heq]
      exact ⟨tracks_fresh habsorb file, rfl⟩

theorem refresh_eq (habsorb : Incremental absorb) {cache : Option (Cache ι σ)}
    (h : ∀ known ∈ cache, known.Tracks absorb initial file) (size : ℕ) :
    (refresh absorb initial limit cache file size).1.Tracks absorb initial file ∧
      (refresh absorb initial limit cache file size).1.parsed = absorb initial (whole file.bytes) ∧
      (refresh absorb initial limit cache file size).2 = pending file.bytes := by
  obtain ⟨htracks, hidentity⟩ := tracks_current habsorb h size
  obtain ⟨base, ⟨chunk, hbytes⟩, hclosed, hlength, hparsed⟩ := htracks hidentity
  have hchunk : file.bytes.drop (current initial cache file size).offset = chunk := by
    rw [← hbytes, ← hlength, List.drop_left]
  have hwhole : whole file.bytes = base ++ whole chunk := by rw [← hbytes, whole_append hclosed]
  have hread : absorb (current initial cache file size).parsed (whole chunk) = absorb initial (whole file.bytes) := by
    rw [hparsed, habsorb.append _ _ _ hclosed, hwhole]
  refine ⟨fun _ ↦ ⟨whole file.bytes, ?_, closed_whole _, ?_, ?_⟩, ?_, ?_⟩
  · exact ⟨pending file.bytes, whole_append_pending _⟩
  · rw [refresh, Cache.advance, hchunk, hwhole, List.length_append, hlength]
  · rw [refresh, Cache.advance, hchunk, hread]
  · rw [refresh, Cache.advance, hchunk, hread]
  · rw [refresh, hchunk, drop_length_whole, ← hbytes, pending_append hclosed]

end UniMem.Library.AppendedLines
