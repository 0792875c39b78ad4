import UniMem.ErasureVerify.Patterns

/-!
# What a residue scan finds

The end of each window that is kept is one byte shorter than the longest pattern, so no pattern and no n-gram
is missed. The marker of encrypted envelopes is not one of the patterns, and can be longer than all of them.
-/

namespace UniMem.ErasureVerify

open Library FrontierProtocol

variable {runtime : Runtime} {patterns next : Patterns} {ngram : ℕ} {content : Bytes}

/-- What `_patterns` produces. -/
structure WellFormed (patterns : Patterns) (ngram : ℕ) : Prop where
  exact : ∀ pattern ∈ patterns.exact, pattern ≠ []
  hashed : ∀ entry ∈ patterns.hashed, entry.2.length = ngram

theorem length_of_mem_grams {raw gram : Bytes} (h : gram ∈ grams ngram raw) : gram.length = ngram := by
  obtain ⟨place, hplace, rfl⟩ := List.mem_map.mp h
  rw [List.mem_range] at hplace
  rw [List.length_take, List.length_drop]
  omega

theorem escape_ne_nil (char : Char) : Json.escape char ≠ [] := by
  have hencode : String.utf8EncodeChar char ≠ [] := by
    intro hnil
    have hlength := congrArg List.length hnil
    rw [String.length_utf8EncodeChar] at hlength
    exact absurd hlength char.utf8Size_pos.ne'
  unfold Json.escape
  split_ifs
  all_goals first | exact hencode | exact List.cons_ne_nil _ _

theorem units_ne_nil (char : Char) : units char ≠ [] := by
  unfold units
  split_ifs
  · exact List.cons_ne_nil _ _
  · exact List.cons_ne_nil _ _

theorem flatMap_ne_nil {α β : Type} {values : List α} {change : α → List β} (h : values ≠ [])
    (hchange : ∀ value, change value ≠ []) : values.flatMap change ≠ [] := by
  obtain ⟨value, rest, rfl⟩ := List.exists_cons_of_ne_nil h
  rw [List.flatMap_cons]
  exact List.append_ne_nil_of_left_ne_nil (hchange value) _

theorem encodings_ne_nil {value : String} (h : Json.utf8 value ≠ []) {raw : Bytes}
    (hraw : raw ∈ encodings value) : raw ≠ [] := by
  have hvalue : value.toList ≠ [] := by
    intro hnil
    rw [Json.utf8, hnil] at h
    exact h rfl
  have hunits := flatMap_ne_nil hvalue units_ne_nil
  simp only [encodings, List.mem_dedup, List.mem_cons, List.not_mem_nil, or_false] at hraw
  obtain rfl | rfl | rfl | rfl | rfl := hraw
  · exact h
  · exact flatMap_ne_nil hunits fun _ ↦ List.cons_ne_nil _ _
  · exact flatMap_ne_nil hunits fun _ ↦ List.cons_ne_nil _ _
  · exact flatMap_ne_nil hvalue escape_ne_nil
  · refine flatMap_ne_nil hvalue fun char ↦ ?_
    unfold escapeAscii
    split_ifs
    · exact escape_ne_nil char
    · exact flatMap_ne_nil (units_ne_nil char) fun _ ↦ List.cons_ne_nil _ _

theorem mem_assign {key : String} {value : Bytes} {entries : List (String × Bytes)} {entry : String × Bytes}
    (h : entry ∈ assign key value entries) : entry.2 = value ∨ entry ∈ entries := by
  induction entries with
  | nil =>
    obtain rfl := List.mem_singleton.mp h
    exact Or.inl rfl
  | cons first entries ih =>
    rw [assign] at h
    split_ifs at h
    · obtain rfl | hrest := List.mem_cons.mp h
      · exact Or.inl rfl
      · exact Or.inr (List.mem_cons_of_mem _ hrest)
    · obtain rfl | hrest := List.mem_cons.mp h
      · exact Or.inr List.mem_cons_self
      · exact (ih hrest).imp_right (List.mem_cons_of_mem _)

theorem wellFormed_of_addEncoding {raw : Bytes} (hraw : raw ≠ []) (h : WellFormed patterns ngram)
    (hnext : addEncoding runtime ngram patterns raw = .ok next) : WellFormed next ngram := by
  obtain ⟨hashed, hhashed, hnext⟩ := Py.of_bind hnext
  obtain rfl := Except.ok.inj hnext
  have hgrams : ∀ state, ∀ gram ∈ grams ngram raw, ∀ next, (∀ entry ∈ state, entry.2.length = ngram) →
      addGram runtime state gram = .ok next → ∀ entry ∈ next, entry.2.length = ngram := by
    intro state gram hgram next hstate hadd entry hentry
    obtain ⟨_, hadd⟩ := Py.of_rest hadd
    obtain rfl := Except.ok.inj hadd
    obtain heq | hold := mem_assign hentry
    · rw [heq]
      exact length_of_mem_grams hgram
    · exact hstate entry hold
  refine ⟨?_, Py.foldlM_invariant (fun state : List (String × Bytes) ↦ ∀ entry ∈ state, entry.2.length = ngram)
    h.hashed hgrams hhashed⟩
  rw [List.forall_mem_append, List.forall_mem_singleton]
  exact ⟨h.exact, hraw⟩

theorem wellFormed_of_addString {value : String} (h : WellFormed patterns ngram)
    (hnext : addString runtime ngram patterns value = .ok next) : WellFormed next ngram := by
  obtain ⟨_, hnext⟩ := Py.of_rest hnext
  obtain ⟨_, hlength, hnext⟩ := Py.of_bind hnext
  rw [Py.require_eq_ok_iff, decide_eq_true_eq] at hlength
  have hvalue : Json.utf8 value ≠ [] := List.ne_nil_of_length_pos (by omega)
  have hstep : ∀ state, ∀ raw ∈ encodings value, ∀ next, WellFormed state ngram →
      addEncoding runtime ngram state raw = .ok next → WellFormed next ngram :=
    fun _ _ hraw _ hstate hadd ↦ wellFormed_of_addEncoding (encodings_ne_nil hvalue hraw) hstate hadd
  exact Py.foldlM_invariant (WellFormed · ngram) h hstep hnext

theorem wellFormed_of_addEmbedding {pattern : String} (h : WellFormed patterns ngram)
    (hnext : addEmbedding patterns pattern = .ok next) : WellFormed next ngram := by
  obtain ⟨_, hnext⟩ := Py.of_rest hnext
  cases hraw : fromHex pattern with
  | none =>
    rw [hraw] at hnext
    cases hnext
  | some raw =>
    rw [hraw] at hnext
    obtain ⟨_, hlength, hnext⟩ := Py.of_bind hnext
    rw [Py.require_eq_ok_iff, decide_eq_true_eq] at hlength
    obtain rfl := Except.ok.inj hnext
    refine ⟨?_, h.hashed⟩
    rw [List.forall_mem_append, List.forall_mem_singleton]
    exact ⟨h.exact, List.ne_nil_of_length_pos (by omega)⟩

theorem wellFormed_of_findPatterns {strings embeddings : List String}
    (h : findPatterns runtime strings embeddings ngram = .ok patterns) :
    8 ≤ ngram ∧ WellFormed patterns ngram := by
  obtain ⟨_, h⟩ := Py.of_rest h
  obtain ⟨_, hngram, h⟩ := Py.of_bind h
  obtain ⟨middle, hstrings, h⟩ := Py.of_bind h
  have hlow := (count_eq_ok_iff.mp hngram).1.1
  have hstring : ∀ state, ∀ value ∈ strings, ∀ next, WellFormed state ngram →
      addString runtime ngram state value = .ok next → WellFormed next ngram :=
    fun _ _ _ _ hstate hadd ↦ wellFormed_of_addString hstate hadd
  have hembedding : ∀ state, ∀ pattern ∈ embeddings, ∀ next, WellFormed state ngram →
      addEmbedding state pattern = .ok next → WellFormed next ngram :=
    fun _ _ _ _ hstate hadd ↦ wellFormed_of_addEmbedding hstate hadd
  have hempty : WellFormed ⟨[], []⟩ ngram :=
    ⟨fun _ h ↦ absurd h List.not_mem_nil, fun _ h ↦ absurd h List.not_mem_nil⟩
  have hmiddle := Py.foldlM_invariant (WellFormed · ngram) hempty hstring hstrings
  exact ⟨by omega, Py.foldlM_invariant (WellFormed · ngram) hmiddle hembedding h⟩

theorem length_le_longest {pattern : Bytes} (h : pattern ∈ patterns.exact) :
    pattern.length ≤ longest patterns ngram := by
  have hmax : ∀ lengths : List ℕ, ∀ length ∈ lengths, length ≤ lengths.foldr max 0 := by
    intro lengths
    induction lengths with
    | nil => simp
    | cons first lengths ih =>
      rw [List.forall_mem_cons, List.foldr_cons]
      exact ⟨le_max_left _ _, fun length hlength ↦ (ih length hlength).trans (le_max_right _ _)⟩
  exact (hmax _ _ (List.mem_map_of_mem h)).trans (le_max_left _ _)

theorem scanBlocks_spec {blocks : List Bytes} {progress : Progress}
    (hsize : (progress.read ++ blocks.flatten).length ≤ maxFile) :
    ∃ final, blocks.foldlM (scanBlock runtime patterns ngram) progress = .ok final ∧
      final.read = progress.read ++ blocks.flatten ∧ (final.opaqueEncoding = true ↔ progress.opaqueEncoding = true ∨
        ∃ window ∈ windows (longest patterns ngram - 1) progress.overlap blocks, marker <:+: window) ∧
      ∀ hash, hash ∈ final.hits ↔ hash ∈ progress.hits ∨
        ∃ window ∈ windows (longest patterns ngram - 1) progress.overlap blocks,
          hash ∈ hitsOf runtime patterns window := by
  induction blocks generalizing progress with
  | nil => exact ⟨progress, rfl, by simp, by simp [windows], by simp [windows]⟩
  | cons block blocks ih =>
    rw [List.flatten_cons, ← List.append_assoc] at hsize
    let middle : Progress := {
      read := progress.read ++ block
      overlap := lastValues (longest patterns ngram - 1) (progress.overlap ++ block)
      opaqueEncoding := progress.opaqueEncoding || decide (marker <:+: progress.overlap ++ block)
      hits := progress.hits ++ hitsOf runtime patterns (progress.overlap ++ block) }
    have hread : (progress.read ++ block).length ≤ maxFile := by
      rw [List.length_append] at hsize
      omega
    have hblock : scanBlock runtime patterns ngram progress block = .ok middle := by
      rw [scanBlock]
      dsimp only
      rw [decide_eq_true hread]
      rfl
    rw [List.foldlM_cons, hblock, Py.bind_ok]
    obtain ⟨final, hfinal, hall, hmissed, hhits⟩ := @ih middle hsize
    refine ⟨final, hfinal, ?_, ?_, ?_⟩
    · rw [hall, List.flatten_cons, List.append_assoc]
    · rw [hmissed, windows, List.exists_mem_cons_iff]
      dsimp only [middle]
      rw [Bool.or_eq_true, decide_eq_true_eq, or_assoc]
    · intro hash
      rw [hhits, windows, List.exists_mem_cons_iff]
      dsimp only [middle]
      rw [List.mem_append, or_assoc]

/-- Some window contains a pattern. -/
def Seen (patterns : Patterns) (ngram : ℕ) (content pattern : Bytes) : Prop :=
  ∃ window ∈ windows (longest patterns ngram - 1) [] (blocks 65536 content), pattern <:+: window

theorem seen_iff {pattern : Bytes} (hpattern : pattern ≠ []) (hlength : pattern.length ≤ longest patterns ngram) :
    Seen patterns ngram content pattern ↔ pattern <:+: content :=
  exists_window_iff_isInfix (by decide) hpattern (by omega)

theorem exists_hit_iff {hash : String} :
    (∃ window ∈ windows (longest patterns ngram - 1) [] (blocks 65536 content),
        hash ∈ hitsOf runtime patterns window) ↔
      (∃ pattern ∈ patterns.exact, Seen patterns ngram content pattern ∧ runtime.sha256 pattern = hash) ∨
      ∃ entry ∈ patterns.hashed, Seen patterns ngram content entry.2 ∧ entry.1 = hash := by
  constructor
  · rintro ⟨window, hwindow, hhash⟩
    obtain hexact | hhashed := List.mem_append.mp hhash
    · obtain ⟨pattern, hpattern, rfl⟩ := List.mem_map.mp hexact
      obtain ⟨hmem, hfound⟩ := List.mem_filter.mp hpattern
      exact Or.inl ⟨pattern, hmem, ⟨window, hwindow, of_decide_eq_true hfound⟩, rfl⟩
    · obtain ⟨entry, hentry, rfl⟩ := List.mem_map.mp hhashed
      obtain ⟨hmem, hfound⟩ := List.mem_filter.mp hentry
      exact Or.inr ⟨entry, hmem, ⟨window, hwindow, of_decide_eq_true hfound⟩, rfl⟩
  · rintro (⟨pattern, hmem, ⟨window, hwindow, hfound⟩, rfl⟩ | ⟨entry, hmem, ⟨window, hwindow, hfound⟩, rfl⟩)
    · refine ⟨window, hwindow, List.mem_append_left _ (List.mem_map_of_mem ?_)⟩
      exact List.mem_filter.mpr ⟨hmem, decide_eq_true hfound⟩
    · refine ⟨window, hwindow, List.mem_append_right _ (List.mem_map_of_mem ?_)⟩
      exact List.mem_filter.mpr ⟨hmem, decide_eq_true hfound⟩

/-- The hits of a report are the hashes of the patterns that occur. -/
def Finds (runtime : Runtime) (patterns : Patterns) (content : Bytes) (report : Report) : Prop :=
  ∀ hash, hash ∈ report.fingerprintHits ↔
    (∃ pattern ∈ patterns.exact, pattern <:+: content ∧ runtime.sha256 pattern = hash) ∨
    ∃ entry ∈ patterns.hashed, entry.2 <:+: content ∧ entry.1 = hash

/-- When the marker occurs, some occurrence begins close enough before the block in which it ends. -/
def MarkerCaught (patterns : Patterns) (ngram : ℕ) (content : Bytes) : Prop :=
  marker <:+: content → ∃ place, Caught 65536 (longest patterns ngram - 1) marker content place

theorem marker_ne_nil : marker ≠ [] := by decide

theorem length_marker : marker.length = 19 := by decide

theorem scanFile_spec (hngram : 8 ≤ ngram) (hpatterns : WellFormed patterns ngram)
    (hsize : content.length ≤ maxFile) :
    ∃ report, scanFile runtime patterns ngram content = .ok report ∧ Finds runtime patterns content report ∧
      (report.opaqueEncoding = true ↔ ∃ place, Caught 65536 (longest patterns ngram - 1) marker content place) := by
  have hflatten : (blocks 65536 content).flatten = content := flatten_blocks (by decide) content
  have hread : (([] : Bytes) ++ (blocks 65536 content).flatten).length ≤ maxFile := by
    rw [List.nil_append, hflatten]
    exact hsize
  obtain ⟨final, hfinal, -, hmissed, hhits⟩ :=
    @scanBlocks_spec runtime patterns ngram (blocks 65536 content) ⟨[], [], false, []⟩ hread
  refine ⟨_, by rw [scanFile, hfinal]; rfl, ?_, ?_⟩
  · intro hash
    dsimp only
    rw [mem_sortBy, List.mem_dedup, hhits, or_iff_right List.not_mem_nil, exists_hit_iff]
    refine or_congr ?_ ?_
    · refine exists_congr fun pattern ↦ and_congr_right fun hmem ↦ and_congr_left fun _ ↦ ?_
      exact seen_iff (hpatterns.exact pattern hmem) (length_le_longest hmem)
    · refine exists_congr fun entry ↦ and_congr_right fun hmem ↦ and_congr_left fun _ ↦ ?_
      have hlength := hpatterns.hashed entry hmem
      exact seen_iff (List.ne_nil_of_length_pos (by omega)) (hlength ▸ le_max_right _ _)
  · dsimp only
    rw [hmissed, exists_window_iff (by decide) marker_ne_nil]
    simp

namespace Sample

def interpreter : Runtime where
  sha256 _ := ""
  hmacSha256 _ _ := ""
  ed25519PublicBytes := id
  ed25519Sign _ _ := ""
  ed25519Verify _ _ _ := true
  jsonLoads _ := none
  retainedSize _ := 0

def short : Patterns := ⟨[[0, 1, 2, 3, 4, 5, 6, 7]], []⟩

theorem findPatterns_eq : findPatterns interpreter [] ["0001020304050607"] 8 = .ok short := by decide +kernel

def padded (padding : ℕ) : Bytes := List.replicate padding 0 ++ marker

theorem length_padded (padding : ℕ) : (padded padding).length = padding + 19 := by
  rw [padded, List.length_append, List.length_replicate, length_marker]

theorem place_of_occursAt {padding place : ℕ} (h : OccursAt marker (padded padding) place) :
    place = padding := by
  have hend := h.end_le marker_ne_nil
  rw [length_padded, length_marker] at hend
  by_contra hne
  have hplace : (padded padding).drop place =
      0 :: (List.replicate (padding - place - 1) 0 ++ marker) := by
    rw [padded, List.drop_append_of_le_length (by rw [List.length_replicate]; omega), List.drop_replicate]
    rw [show padding - place = (padding - place - 1) + 1 by omega, List.replicate_succ]
    rfl
  rw [OccursAt, hplace] at h
  have hhead : (0 : UInt8) = 0x73 := (List.cons_prefix_cons.mp h).1.symm
  exact absurd hhead (by decide)

theorem occursAt_padded (padding : ℕ) : OccursAt marker (padded padding) padding := by
  have hdrop : (padded padding).drop padding = marker := by
    rw [padded]
    exact List.drop_left' (List.length_replicate ..)
  rw [OccursAt, hdrop]

end Sample

/-- A scan reports the patterns and n-grams that occur, and the marker when it begins close enough. -/
theorem residue_scan_exact_iff (runtime : Runtime) (strings embeddings : List String) (ngram : ℕ)
    (patterns : Patterns) (hpatterns : findPatterns runtime strings embeddings ngram = .ok patterns)
    (content : Bytes) (hsize : content.length ≤ maxFile) :
    ∃ report, scanFile runtime patterns ngram content = .ok report ∧ Finds runtime patterns content report ∧
      ((report.opaqueEncoding = true ↔ marker <:+: content) ↔ MarkerCaught patterns ngram content) := by
  obtain ⟨hngram, hwellFormed⟩ := wellFormed_of_findPatterns hpatterns
  obtain ⟨report, hreport, hfinds, hmissed⟩ := scanFile_spec hngram hwellFormed hsize
  refine ⟨report, hreport, hfinds, ?_⟩
  rw [hmissed, MarkerCaught]
  constructor
  · exact fun hiff ↦ hiff.mpr
  · refine fun himp ↦ ⟨?_, himp⟩
    rintro ⟨place, hplace, -⟩
    exact infix_iff_occursAt.mpr ⟨place, hplace⟩

/-- A marker across two blocks is not reported by a scan for a short embedding. -/
theorem split_marker_is_missed :
    findPatterns Sample.interpreter [] ["0001020304050607"] 8 = .ok Sample.short ∧
      (Sample.padded 65526).length ≤ maxFile ∧ marker <:+: Sample.padded 65526 ∧
      ∃ report, scanFile Sample.interpreter Sample.short 8 (Sample.padded 65526) = .ok report ∧
        report.opaqueEncoding = false := by
  have hsize : (Sample.padded 65526).length ≤ maxFile := by
    rw [Sample.length_padded]
    decide
  obtain ⟨hngram, hwellFormed⟩ := wellFormed_of_findPatterns Sample.findPatterns_eq
  obtain ⟨report, hreport, -, hmissed⟩ :=
    @scanFile_spec Sample.interpreter _ _ _ hngram hwellFormed hsize
  refine ⟨Sample.findPatterns_eq, hsize, infix_iff_occursAt.mpr ⟨_, Sample.occursAt_padded _⟩, report, hreport, ?_⟩
  rw [Bool.eq_false_iff, ne_eq, hmissed]
  rintro ⟨place, hplace, hstart⟩
  rw [Sample.place_of_occursAt hplace] at hstart
  exact absurd hstart (by decide)

/-- A marker at the beginning of a file. -/
theorem residue_scan_exact_iff_marker :
    ∃ report, scanFile Sample.interpreter Sample.short 8 marker = .ok report ∧
      Finds Sample.interpreter Sample.short marker report ∧
      ((report.opaqueEncoding = true ↔ marker <:+: marker) ↔ MarkerCaught Sample.short 8 marker) :=
  residue_scan_exact_iff Sample.interpreter [] ["0001020304050607"] 8 Sample.short Sample.findPatterns_eq marker
    (by rw [length_marker]; decide)

end UniMem.ErasureVerify
