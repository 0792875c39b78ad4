import UniMem.FrontierProtocol.Values
import UniMem.Library.Grouping
import UniMem.Library.SlidingWindow
import UniMem.Python.Collections
import UniMem.Python.Hex
import UniMem.Runtime

/-!
# Residue scans

A scan searches the bytes of a file for encodings of erased texts, n-grams and embeddings. It keeps the end of what
it has read, so a pattern across two blocks is found.
-/

namespace UniMem.ErasureVerify

open Library FrontierProtocol

/-- `MAX_FILE`. -/
def maxFile : ℕ := 64 * maxBytes

/-- A code unit of UTF-16 in two bytes, the low byte first. -/
def unitLe (unit : ℕ) : Bytes := [UInt8.ofNat (unit % 256), UInt8.ofNat (unit / 256)]

/-- The code units of a character in UTF-16. -/
def units (char : Char) : List ℕ :=
  if char.toNat < 0x10000 then [char.toNat]
  else [0xd800 + (char.toNat - 0x10000) / 0x400, 0xdc00 + (char.toNat - 0x10000) % 0x400]

/-- `text.encode("utf-16-le")`. -/
def utf16Le (text : String) : Bytes := (text.toList.flatMap units).flatMap unitLe

/-- `text.encode("utf-16-be")`. -/
def utf16Be (text : String) : Bytes := (text.toList.flatMap units).flatMap fun unit ↦ (unitLe unit).reverse

/-- `\uXXXX`. -/
def escapeUnit (unit : ℕ) : Bytes :=
  [0x5c, 0x75, Json.hexDigit (unit / 4096), Json.hexDigit (unit / 256 % 16), Json.hexDigit (unit / 16 % 16),
    Json.hexDigit (unit % 16)]

/-- One character of a quoted text in ASCII. -/
def escapeAscii (char : Char) : Bytes :=
  if char.toNat < 127 then Json.escape char else (units char).flatMap escapeUnit

/-- `json.dumps(text, ensure_ascii=False)[1:-1].encode()`. -/
def dumpsText (text : String) : Bytes := text.toList.flatMap Json.escape

/-- `json.dumps(text, ensure_ascii=True)[1:-1].encode()`. -/
def dumpsAscii (text : String) : Bytes := text.toList.flatMap escapeAscii

/-- The encodings of a text. -/
def encodings (text : String) : List Bytes :=
  [Json.utf8 text, utf16Le text, utf16Be text, dumpsText text, dumpsAscii text].dedup

/-- The exact patterns, and the n-grams by their hashes. -/
structure Patterns where
  exact : List Bytes
  hashed : List (String × Bytes)
  deriving DecidableEq

/-- The n-grams of some bytes. -/
def grams (ngram : ℕ) (raw : Bytes) : List Bytes :=
  (List.range (raw.length + 1 - ngram)).map fun place ↦ (raw.drop place).take ngram

/-- The turn of the inner loop of `_patterns`. -/
def addGram (runtime : Runtime) (hashed : List (String × Bytes)) (gram : Bytes) :
    Py (List (String × Bytes)) := do
  let hashed := assign (runtime.sha256 gram) gram hashed
  let _ ← count hashed.length 0 4096 "UniMem n-gram fingerprint count"
  return hashed

/-- One encoding of a text. -/
def addEncoding (runtime : Runtime) (ngram : ℕ) (patterns : Patterns) (raw : Bytes) : Py Patterns := do
  let hashed ← (grams ngram raw).foldlM (addGram runtime) patterns.hashed
  return ⟨patterns.exact ++ [raw], hashed⟩

/-- One text. -/
def addString (runtime : Runtime) (ngram : ℕ) (patterns : Patterns) (value : String) : Py Patterns := do
  let _ ← text value "erasure fingerprint" 8192
  Py.require (8 ≤ (Json.utf8 value).length)
    (.valueError "UniMem erasure strings must contain at least eight UTF-8 bytes")
  (encodings value).foldlM (addEncoding runtime ngram) patterns

/-- One embedding. -/
def addEmbedding (patterns : Patterns) (pattern : String) : Py Patterns := do
  Py.require (pattern.length ≤ 65536)
    (.valueError "UniMem embedding fingerprint must be bounded hexadecimal bytes")
  match fromHex pattern with
  | none => .error (.valueError "non-hexadecimal number found in fromhex() arg")
  | some raw => do
    Py.require (8 ≤ raw.length) (.valueError "UniMem embedding fingerprint is too short")
    return { patterns with exact := patterns.exact ++ [raw] }

/-- `_patterns`. -/
def findPatterns (runtime : Runtime) (strings embeddings : List String) (ngram : ℕ) : Py Patterns := do
  let _ ← count (strings.length + embeddings.length) 1 256 "count"
  let _ ← count ngram 8 128 "count"
  let patterns ← strings.foldlM (addString runtime ngram) ⟨[], []⟩
  embeddings.foldlM addEmbedding patterns

/-- What `_scan_file` returns. -/
structure Report where
  residue : Bool
  bytes : ℕ
  storeDigest : String
  fingerprintHits : List String
  opaqueEncoding : Bool

/-- The variables of the loop of `_scan_file`. The digest is taken of what was read. -/
structure Progress where
  read : Bytes
  overlap : Bytes
  opaqueEncoding : Bool
  hits : List String

/-- `b"subject-envelope-v1"`. -/
def marker : Bytes := Json.utf8 "subject-envelope-v1"

/-- The length of the longest pattern, or of an n-gram. -/
def longest (patterns : Patterns) (ngram : ℕ) : ℕ := max ((patterns.exact.map List.length).foldr max 0) ngram

/-- The hashes of the patterns in a window. -/
def hitsOf (runtime : Runtime) (patterns : Patterns) (window : Bytes) : List String :=
  (patterns.exact.filter fun pattern ↦ decide (pattern <:+: window)).map runtime.sha256 ++
    (patterns.hashed.filter fun entry ↦ decide (entry.2 <:+: window)).map Prod.fst

/-- One turn of the loop. -/
def scanBlock (runtime : Runtime) (patterns : Patterns) (ngram : ℕ) (progress : Progress) (block : Bytes) :
    Py Progress := do
  let read := progress.read ++ block
  Py.require (read.length ≤ maxFile) (.valueError "store grew beyond the per-file scan bound")
  let window := progress.overlap ++ block
  return {
    read
    overlap := lastValues (longest patterns ngram - 1) window
    opaqueEncoding := progress.opaqueEncoding || decide (marker <:+: window)
    hits := progress.hits ++ hitsOf runtime patterns window }

/-- `_scan_file` on the content of a file. -/
def scanFile (runtime : Runtime) (patterns : Patterns) (ngram : ℕ) (content : Bytes) : Py Report := do
  let progress ← (blocks 65536 content).foldlM (scanBlock runtime patterns ngram) ⟨[], [], false, []⟩
  return {
    residue := !progress.hits.isEmpty
    bytes := progress.read.length
    storeDigest := runtime.sha256 progress.read
    fingerprintHits := sortBy id progress.hits.dedup
    opaqueEncoding := progress.opaqueEncoding }

end UniMem.ErasureVerify
