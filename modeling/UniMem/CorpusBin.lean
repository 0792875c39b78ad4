import UniMem.Library.BinaryFormat
import UniMem.Python.Collections
import UniMem.Retrieval

/-!
# The corpus index in a file

`save` writes a header, the fingerprint of the lessons and the index, with lengths before texts and arrays. `load`
gives an index only when its last read ends where the file ends.
-/

namespace UniMem.CorpusBin

open Library Retrieval

abbrev Bytes := List UInt8

/-- `_MAGIC`. -/
def magic : Bytes := [0x43, 0x54, 0x43, 0x49]

/-- `_VERSION`. -/
def version : ℤ := 3

/-- `_HEADER`, `<4sBB`. -/
def header : Codec (Bytes × ℤ × ℤ) := .pair (.raw 4) (.pair (.unsigned 1) (.unsigned 1))

/-- `_META`, `<Idd`. -/
def metadata : Codec (ℤ × Double × Double) := .pair (.unsigned 4) (.pair .double .double)

/-- `_COUNT`, `<I`. -/
def count : Codec ℤ := .unsigned 4

/-- `_PATH_STAMP`, `<HQQqqQ`. -/
def pathStamp : Codec (ℤ × ℤ × ℤ × ℤ × ℤ × ℤ) :=
  .pair (.unsigned 2) (.pair (.unsigned 8) (.pair (.unsigned 8)
    (.pair (.signed 8) (.pair (.signed 8) (.unsigned 8)))))

/-- `_TERM_HEAD`, `<HII`. -/
def termHead : Codec (ℤ × ℤ × ℤ) := .pair (.unsigned 2) (.pair (.unsigned 4) (.unsigned 4))

/-- The path of a lesson and the identity of its file. -/
structure Stamp where
  path : String
  device : ℤ
  inode : ℤ
  mtimeNs : ℤ
  ctimeNs : ℤ
  size : ℤ

/-- The identity of a file. -/
def Stamp.identity (stamp : Stamp) : ℤ × ℤ × ℤ × ℤ × ℤ :=
  (stamp.device, stamp.inode, stamp.mtimeNs, stamp.ctimeNs, stamp.size)

structure Environment where
  /-- `str.isalnum` of one character. -/
  isAlnum : Char → Bool
  /-- `unimem.__version__`. -/
  version : String

/-- `bin_path`, in the directory of the cache. -/
def binPath (environment : Environment) (scorer : String) : String :=
  let safe := scorer.toList.map fun char ↦
    if environment.isAlnum char || char = '-' || char = '.' then char else '_'
  "corpus_" ++ String.ofList safe ++ ".bin"

/-- `_tag`. -/
def tag (environment : Environment) (scorer : String) : Bytes := Json.utf8 (scorer ++ "|" ++ environment.version)

/-- The error of a value that does not fit its format, or of bytes that are too few. -/
def structError : PyError := .structError "argument out of range"

/-- `pack`. -/
def packed {α : Type} (codec : Codec α) (value : α) : Py Bytes :=
  match codec.pack value with
  | some bytes => .ok bytes
  | none => .error structError

/-- `struct.pack` with a count. -/
def packArray {α : Type} (codec : Codec α) (count : ℕ) (values : List α) : Py Bytes :=
  if h : values.length = count then packed (codec.array count) ⟨values, h⟩ else .error structError

/-- An entry of the fingerprint. -/
def packStamp (stamp : Stamp) : Py Bytes := do
  let path := Json.utf8 stamp.path
  let head ← packed pathStamp (path.length, stamp.identity)
  return head ++ path

/-- A term with its posting. -/
def packTerm (index : CorpusIndex) (entry : String × Posting) : Py Bytes := do
  let text := Json.utf8 entry.1
  let frequency ← (index.docFreq.lookup entry.1).elim (.error (.keyError entry.1)) .ok
  let head ← packed termHead (text.length, frequency, entry.2.docs.length)
  let docs ← packArray (.unsigned 4) entry.2.docs.length entry.2.docs
  let wsums ← packArray .double entry.2.docs.length entry.2.wsums
  let bests ← packArray .double entry.2.docs.length entry.2.bests
  return head ++ (text ++ (docs ++ (wsums ++ bests)))

/-- The content of the file. -/
def packIndex (environment : Environment) (scorer : String) (fingerprint : List Stamp) (index : CorpusIndex) :
    Py Bytes := do
  let entries := fingerprint.length
  let vocabulary := sortBy Prod.fst index.postings
  let head ← packed header (magic, version, (tag environment scorer).length)
  let values ← packed metadata (entries, index.avgFieldLen, index.maxIdf)
  let paths ← packed count entries
  let stamps ← Py.collect (Py.always packStamp) fingerprint
  let size ← packed count vocabulary.length
  let terms ← Py.collect (Py.always (packTerm index)) vocabulary
  let nTerms ← packArray (.unsigned 4) entries index.nTerms.toList
  let lengthFactors ← packArray .double entries index.lengthFactors
  let importances ← packArray (.signed 4) entries (index.tieBreaks.map Prod.fst)
  let uses ← packArray (.signed 4) entries (index.tieBreaks.map Prod.snd)
  return head ++ (tag environment scorer ++ (values ++ (paths ++ (stamps.flatten ++ (size ++ (terms.flatten ++
    (nTerms ++ (lengthFactors ++ (importances ++ uses)))))))))

/-- The files of the directory of the cache. -/
abbrev Files := List (String × Bytes)

/-- The exceptions that `save` catches. -/
def suppressed : PyError → Bool
  | .osError _ | .valueError _ | .typeError _ | .structError _ | .attributeError _ => true
  | _ => false

/-- `save`, where the calls to the file system succeed or one of them fails. -/
def save (environment : Environment) (writable : Bool) (files : Files) (scorer : String) (fingerprint : List Stamp)
    (index : CorpusIndex) : Py (Bool × Files) :=
  if 255 < (tag environment scorer).length then .ok (false, files)
  else
    match packIndex environment scorer fingerprint index with
    | .ok blob =>
      if writable then .ok (true, assign (binPath environment scorer) blob files) else .ok (false, files)
    | .error error => if suppressed error then .ok (false, files) else .error error

/-- The end of a load without an index: `return None`, or an exception. -/
inductive Stop where
  | absent
  | raised (error : PyError)

/-- The exceptions that `load` catches. -/
def handled : PyError → Bool
  | .structError _ | .valueError _ | .indexError _ => true
  | _ => false

/-- A load that ends so gives nothing and raises nothing. -/
def Stop.Quiet : Stop → Prop
  | .absent => True
  | .raised error => handled error = true

abbrev Read := Reader Stop.Quiet

/-- `unpack_from`. -/
def unpacked {α : Type} (codec : Codec α) : Read α := .unpack codec (.raised structError) rfl

/-- `if not condition: return None`. -/
def expect (condition : Bool) : Read Unit :=
  .compute (if condition then .ok () else .error .absent) fun _ h ↦ by
    split_ifs at h
    rw [← Except.error.inj h]
    trivial

/-- The text of bytes in UTF-8. -/
def decodeUtf8 (bytes : Bytes) : Except Stop String :=
  match bytes.toByteArray.utf8Decode? with
  | some chars => .ok (String.ofList chars.toList)
  | none => .error (.raised (.valueError "'utf-8' codec can't decode bytes"))

/-- `decode("utf-8")`. -/
def decoded (bytes : Bytes) : Read String :=
  .compute (decodeUtf8 bytes) fun _ h ↦ by
    unfold decodeUtf8 at h
    split at h
    · cases h
    · rw [← Except.error.inj h]
      rfl

/-- One turn of the loop over the fingerprint. -/
def readStamp (lesson : String) (stamp : Stamp) : Read Unit := do
  let head ← unpacked pathStamp
  let bytes ← .slice head.1.toNat
  let path ← decoded bytes
  expect (path = stamp.path ∧ head.2 = stamp.identity)
  expect (path = lesson)

/-- A term as it stands in the file. -/
structure Entry where
  term : String
  frequency : ℤ
  posting : Posting

/-- One turn of the loop over the vocabulary. -/
def readTerm : Read Entry := do
  let head ← unpacked termHead
  let bytes ← .slice head.1.toNat
  let term ← decoded bytes
  let docs ← unpacked (.array (.unsigned 4) head.2.2.toNat)
  let wsums ← unpacked (.array .double head.2.2.toNat)
  let bests ← unpacked (.array .double head.2.2.toNat)
  return ⟨term, head.2.1, ⟨docs.toList, wsums.toList, bests.toList⟩⟩

/-- The index of what was read, where dictionaries keep the last value of a key. -/
def assemble (nDocs : ℕ) (avg maxIdf : Double) (entries : List Entry) (nTerms : List.Vector ℤ nDocs)
    (lengthFactors : List.Vector Double nDocs) (importances uses : List.Vector ℤ nDocs) : CorpusIndex where
  nDocs := nDocs
  nTerms := nTerms
  postings := (Library.index Entry.term entries).map fun entry ↦ (entry.1, entry.2.posting)
  docFreq := (Library.index Entry.term entries).map fun entry ↦ (entry.1, entry.2.frequency)
  avgFieldLen := avg
  maxIdf := maxIdf
  lengthFactors := lengthFactors.toList
  tieBreaks := importances.toList.zip uses.toList
  distinct := by
    rw [List.map_map]
    exact nodup_map_fst_index _ _
  counted := by simp [List.map_map, Function.comp_def]

/-- The reads of `load`. -/
def readIndex (environment : Environment) (scorer : String) (lessons : List String) (fingerprint : List Stamp) :
    Read CorpusIndex := do
  let head ← unpacked header
  expect (head.1 = magic ∧ head.2.1 = version)
  let stored ← .slice head.2.2.toNat
  expect (stored = tag environment scorer)
  let values ← unpacked metadata
  let nDocs := values.1.toNat
  expect (nDocs = lessons.length ∧ nDocs = fingerprint.length)
  let nPaths ← unpacked count
  expect (nPaths = values.1)
  let _ ← .all ((lessons.zip fingerprint).map fun entry ↦ readStamp entry.1 entry.2)
  let vocabSize ← unpacked count
  let entries ← .all (List.replicate vocabSize.toNat readTerm)
  let nTerms ← unpacked (.array (.unsigned 4) nDocs)
  let lengthFactors ← unpacked (.array .double nDocs)
  let importances ← unpacked (.array (.signed 4) nDocs)
  let uses ← unpacked (.array (.signed 4) nDocs)
  return assemble nDocs values.2.1 values.2.2 entries nTerms lengthFactors importances uses

/-- `load`, of the paths of the lessons. -/
def load (environment : Environment) (files : Files) (scorer : String) (lessons : List String)
    (fingerprint : List Stamp) : Py (Option CorpusIndex) :=
  match files.lookup (binPath environment scorer) with
  | none => .ok none
  | some blob =>
    match Reader.whole (readIndex environment scorer lessons fingerprint) .absent blob with
    | .ok index => .ok (some index)
    | .error .absent => .ok none
    | .error (.raised error) => if handled error then .ok none else .error error

open Reader

section Pieces

variable {α β : Type} {format : Bytes} {next : α → Read β} {result : β}

variable {codec : Codec α} {value : α} {condition : Bool}

theorem packed_eq_ok_iff :
    packed codec value = .ok format ↔ codec.pack value = some format := by
  unfold packed
  split <;> simp_all

theorem decodes_unpacked (h : packed codec value = .ok format) :
    Decodes (unpacked codec) format value := by
  unfold unpacked
  exact .unpack _ (packed_eq_ok_iff.mp h)

theorem decodes_array {count : ℕ} {values : List α} (h : packArray codec count values = .ok format) :
    ∃ hlength, Decodes (unpacked (codec.array count)) format ⟨values, hlength⟩ := by
  unfold packArray at h
  split_ifs at h with hlength
  exact ⟨hlength, decodes_unpacked h⟩

theorem decodes_slice {length : ℤ} (h : length = format.length) :
    Decodes (slice length.toNat : Read Bytes) format format := by
  rw [h, Int.toNat_natCast]
  exact .slice format

theorem decodeUtf8_utf8 (text : String) : decodeUtf8 (Json.utf8 text) = .ok text := by
  have hdecode : (Json.utf8 text).toByteArray.utf8Decode? = some text.toList.toArray :=
    List.utf8Decode?_utf8Encode
  rw [decodeUtf8, hdecode]
  simp

theorem decodes_bind_decoded {text : String} {next : String → Read β} (h : Decodes (next text) format result) :
    Decodes (decoded (Json.utf8 text) >>= next) format result := by
  unfold decoded
  exact .bind_compute (decodeUtf8_utf8 text) h

theorem decodes_expect (h : condition = true) : Decodes (expect condition) [] () := by
  unfold expect
  exact .compute (if_pos h)

theorem decodes_bind_expect {next : Unit → Read β} (hcondition : condition = true)
    (h : Decodes (next ()) format result) : Decodes (expect condition >>= next) format result :=
  (decodes_expect hcondition).bind h

end Pieces

variable {environment : Environment} {scorer : String} {fingerprint : List Stamp} {index : CorpusIndex}
  {format : Bytes}

theorem decodes_readStamp {stamp : Stamp} (h : packStamp stamp = .ok format) :
    Decodes (readStamp stamp.path stamp) format () := by
  obtain ⟨head, hhead, heq⟩ := Py.of_bind h
  obtain rfl := Except.ok.inj heq
  refine (decodes_unpacked hhead).bind ((decodes_slice rfl).bind_last (decodes_bind_decoded ?_))
  refine decodes_bind_expect (by simp) ?_
  exact decodes_expect (by simp)

/-- A term as `save` writes it. -/
def entryOf (index : CorpusIndex) (entry : String × Posting) : Entry :=
  ⟨entry.1, (index.docFreq.lookup entry.1).getD 0, entry.2⟩

theorem decodes_readTerm {entry : String × Posting} (h : packTerm index entry = .ok format) :
    Decodes readTerm format (entryOf index entry) := by
  obtain ⟨frequency, hfrequency, h⟩ := Py.of_bind h
  obtain ⟨head, hhead, h⟩ := Py.of_bind h
  obtain ⟨docs, hdocs, h⟩ := Py.of_bind h
  obtain ⟨wsums, hwsums, h⟩ := Py.of_bind h
  obtain ⟨bests, hbests, h⟩ := Py.of_bind h
  obtain rfl := Except.ok.inj h
  obtain ⟨hdocs, hreadDocs⟩ := decodes_array hdocs
  obtain ⟨hwsums, hreadWsums⟩ := decodes_array hwsums
  obtain ⟨hbests, hreadBests⟩ := decodes_array hbests
  have hentry : entryOf index entry = ⟨entry.1, frequency, entry.2⟩ := by
    cases hlookup : index.docFreq.lookup entry.1 with
    | none => rw [hlookup] at hfrequency; cases hfrequency
    | some found =>
      rw [hlookup] at hfrequency
      rw [entryOf, hlookup, ← Except.ok.inj hfrequency]
      rfl
  rw [hentry]
  refine (decodes_unpacked hhead).bind ((decodes_slice rfl).bind (decodes_bind_decoded ?_))
  exact hreadDocs.bind (hreadWsums.bind (hreadBests.bind_last (.pure _)))

theorem map_docFreq (index : CorpusIndex) :
    (index.postings.map fun entry ↦ (entry.1, (index.docFreq.lookup entry.1).getD 0)) = index.docFreq := by
  have hnodup : (index.docFreq.map Prod.fst).Nodup := index.counted ▸ index.distinct
  calc (index.postings.map fun entry ↦ (entry.1, (index.docFreq.lookup entry.1).getD 0))
      = (index.docFreq.map Prod.fst).map fun term ↦ (term, (index.docFreq.lookup term).getD 0) := by
        rw [index.counted, List.map_map]
        rfl
    _ = index.docFreq.map id := by
        rw [List.map_map]
        apply List.map_congr_left
        intro entry hentry
        rw [Function.comp_apply, (lookup_eq_some_iff_mem hnodup).mpr hentry]
        rfl
    _ = index.docFreq := List.map_id _

theorem same_assemble {nDocs : ℕ} {nTerms importances uses : List.Vector ℤ nDocs} {factors : List.Vector Double nDocs}
    (hcount : index.nDocs = nDocs) (hterms : index.nTerms.toList = nTerms.toList)
    (hfactors : index.lengthFactors = factors.toList)
    (hbreaks : index.tieBreaks = importances.toList.zip uses.toList) :
    index.Same (assemble nDocs index.avgFieldLen index.maxIdf
      ((sortBy Prod.fst index.postings).map (entryOf index)) nTerms factors importances uses) := by
  have hperm := (sortBy_perm Prod.fst index.postings).symm
  have hnodup : (((sortBy Prod.fst index.postings).map (entryOf index)).map Entry.term).Nodup := by
    rw [List.map_map]
    exact (hperm.map Prod.fst).nodup_iff.mp index.distinct
  refine ⟨hcount, hterms, ?_, ?_, rfl, rfl, hfactors, hbreaks⟩
  · change index.postings.Perm ((Library.index Entry.term _).map fun entry ↦ (entry.1, entry.2.posting))
    rw [index_eq_map hnodup, List.map_map, List.map_map]
    exact (List.map_id _).symm ▸ hperm
  · change index.docFreq.Perm ((Library.index Entry.term _).map fun entry ↦ (entry.1, entry.2.frequency))
    rw [index_eq_map hnodup, List.map_map, List.map_map]
    nth_rewrite 1 [← map_docFreq index]
    exact hperm.map _

theorem zip_paths (fingerprint : List Stamp) :
    (fingerprint.map Stamp.path).zip fingerprint = fingerprint.map fun stamp ↦ (stamp.path, stamp) := by
  symm
  apply List.zip_of_prod
  · rw [List.map_map]
    rfl
  · rw [List.map_map]
    exact List.map_id _

theorem decodes_readIndex (h : packIndex environment scorer fingerprint index = .ok format) :
    ∃ restored, index.Same restored ∧
      Decodes (readIndex environment scorer (fingerprint.map Stamp.path) fingerprint) format restored := by
  obtain ⟨head, hhead, h⟩ := Py.of_bind h
  obtain ⟨values, hvalues, h⟩ := Py.of_bind h
  obtain ⟨paths, hpaths, h⟩ := Py.of_bind h
  obtain ⟨stamps, hstamps, h⟩ := Py.of_bind h
  obtain ⟨size, hsize, h⟩ := Py.of_bind h
  obtain ⟨terms, hterms, h⟩ := Py.of_bind h
  obtain ⟨nTerms, hnTerms, h⟩ := Py.of_bind h
  obtain ⟨factors, hfactors, h⟩ := Py.of_bind h
  obtain ⟨importances, himportances, h⟩ := Py.of_bind h
  obtain ⟨uses, huses, h⟩ := Py.of_bind h
  obtain rfl := Except.ok.inj h
  obtain ⟨hnTerms, hreadTerms⟩ := decodes_array hnTerms
  obtain ⟨hfactors, hreadFactors⟩ := decodes_array hfactors
  obtain ⟨himportances, hreadImportances⟩ := decodes_array himportances
  obtain ⟨huses, hreadUses⟩ := decodes_array huses
  let vocabulary := sortBy Prod.fst index.postings
  have hloop : Decodes (Reader.all (((fingerprint.map Stamp.path).zip fingerprint).map fun entry ↦
      readStamp entry.1 entry.2)) stamps.flatten (fingerprint.map fun _ ↦ ()) := by
    rw [zip_paths, List.map_map]
    exact .all ((Py.collect_always_eq_ok_iff.mp hstamps).imp fun _ _ hstamp ↦ decodes_readStamp hstamp)
  have hvocabulary : Decodes (Reader.all (List.replicate vocabulary.length readTerm)) terms.flatten
      (vocabulary.map (entryOf index)) := by
    rw [← List.map_const]
    exact .all ((Py.collect_always_eq_ok_iff.mp hterms).imp fun _ _ hterm ↦ decodes_readTerm hterm)
  refine ⟨assemble fingerprint.length index.avgFieldLen index.maxIdf (vocabulary.map (entryOf index))
    ⟨_, hnTerms⟩ ⟨_, hfactors⟩ ⟨_, himportances⟩ ⟨_, huses⟩, ?_, ?_⟩
  · refine same_assemble ?_ rfl rfl ?_
    · rw [← hnTerms, List.Vector.toList_length]
    · exact (List.zip_unzip index.tieBreaks).symm.trans (by rw [List.unzip_eq_map]; rfl)
  · refine (decodes_unpacked hhead).bind (decodes_bind_expect (by simp) ((decodes_slice rfl).bind
      (decodes_bind_expect (by simp) ((decodes_unpacked hvalues).bind (decodes_bind_expect (by simp)
        ((decodes_unpacked hpaths).bind (decodes_bind_expect (by simp) (hloop.bind
          ((decodes_unpacked hsize).bind (hvocabulary.bind ?_))))))))))
    exact hreadTerms.bind (hreadFactors.bind (hreadImportances.bind (hreadUses.bind_last (.pure _))))

theorem save_eq_true {writable : Bool} {files result : Files}
    (h : save environment writable files scorer fingerprint index = .ok (true, result)) :
    ∃ blob, packIndex environment scorer fingerprint index = .ok blob ∧
      result = assign (binPath environment scorer) blob files := by
  unfold save at h
  split at h
  · cases h
  · cases hblob : packIndex environment scorer fingerprint index with
    | error error =>
      rw [hblob] at h
      dsimp only at h
      split at h <;> cases h
    | ok blob =>
      rw [hblob] at h
      dsimp only at h
      split at h
      · exact ⟨blob, rfl, (congrArg Prod.snd (Except.ok.inj h)).symm⟩
      · cases h

/-- A saved index is read back, and no part of its file from the start is. -/
theorem saved_index_restored (environment : Environment) (writable : Bool) (files result : Files) (scorer : String)
    (fingerprint : List Stamp) (index : CorpusIndex)
    (h : save environment writable files scorer fingerprint index = .ok (true, result)) :
    (∃ restored, load environment result scorer (fingerprint.map Stamp.path) fingerprint = .ok (some restored) ∧
      index.Same restored) ∧
    ∃ blob, result.lookup (binPath environment scorer) = some blob ∧ ∀ part, part <+: blob → part ≠ blob →
      load environment (assign (binPath environment scorer) part result) scorer (fingerprint.map Stamp.path)
        fingerprint = .ok none := by
  obtain ⟨blob, hblob, rfl⟩ := save_eq_true h
  obtain ⟨restored, hsame, hdecodes⟩ := decodes_readIndex hblob
  have hlookup : ∀ (content : Bytes) (files : Files), (assign (binPath environment scorer) content files).lookup
      (binPath environment scorer) = some content := by
    intro content files
    rw [lookup_assign, if_pos rfl]
  refine ⟨⟨restored, ?_, hsame⟩, blob, hlookup blob files, ?_⟩
  · rw [load, hlookup]
    simp only [hdecodes.whole_eq Stop.absent]
  · intro part hpart hne
    have hquiet : Stop.Quiet .absent := trivial
    obtain ⟨stop, hstop, hquiet⟩ := hdecodes.whole_cut hquiet hpart hne
    rw [load, hlookup]
    simp only [hstop]
    cases stop with
    | absent => rfl
    | raised error => exact if_pos hquiet

namespace Sample

def released : Environment := ⟨Char.isAlphanum, "1"⟩

def small : CorpusIndex where
  nDocs := 1
  nTerms := ⟨[1], rfl⟩
  postings := [("pay", ⟨[0], [0x3ff0000000000000], [0x3ff0000000000000]⟩)]
  docFreq := [("pay", 1)]
  avgFieldLen := 0x3ff0000000000000
  maxIdf := 0
  lengthFactors := [0x3ff0000000000000]
  tieBreaks := [(-1, 7)]
  distinct := by decide
  counted := rfl

def stamps : List Stamp := [⟨"p", 1, 2, -3, 4, 5⟩]

def saved : Files :=
  [(binPath released "bm25", ((packIndex released "bm25" stamps small).toOption).getD [])]

end Sample

theorem one_lesson_restored :
    save Sample.released true [] "bm25" Sample.stamps Sample.small = .ok (true, Sample.saved) ∧
      ∃ restored, load Sample.released Sample.saved "bm25" ["p"] Sample.stamps = .ok (some restored) ∧
        Sample.small.Same restored :=
  ⟨rfl, (saved_index_restored Sample.released true [] Sample.saved "bm25" Sample.stamps Sample.small rfl).1⟩

end UniMem.CorpusBin
