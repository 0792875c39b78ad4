import UniMem.Python.Collections
import UniMem.FrontierProtocol.Values
import UniMem.Library.Json
import Mathlib.Data.Set.Card

/-!
# Two-server retrieval

A query for one block is split into two bitmaps that differ in one bit. Each server returns the XOR of
the blocks that its bitmap selects, so the XOR of the two answers is the block that was asked for.
-/

namespace UniMem.Oblivious

open Library FrontierProtocol

/-- `MAX_CLUSTERS`. -/
def maxClusters : ℕ := 256

/-- `MAX_BLOCKS_PER_CLUSTER`. -/
def maxBlocksPerCluster : ℕ := 1024

/-- `MAX_BLOCK_BYTES`. -/
def maxBlockBytes : ℕ := 16_384

/-- `MAX_BATCH_WORK`. -/
def maxBatchWork : ℕ := 16_777_216

/-- `_batch_budget`. -/
def batchBudget (size blockBytes : ℤ) : Py Unit := do
  let _ ← count size 1 maxBlocksPerCluster "cluster blocks"
  let _ ← count blockBytes 1 maxBlockBytes "block bytes"
  Py.require (size * size * blockBytes ≤ maxBatchWork)
    (.valueError "PIR batch exceeds the bounded XOR work budget")

theorem batchBudget_eq_ok_iff {size blockBytes : ℤ} {result : Unit} :
    batchBudget size blockBytes = .ok result ↔ (1 ≤ size ∧ size ≤ maxBlocksPerCluster) ∧
      (1 ≤ blockBytes ∧ blockBytes ≤ maxBlockBytes) ∧ size * size * blockBytes ≤ maxBatchWork := by
  simp only [batchBudget, Py.bind_eq_ok_iff, count_eq_ok_iff, Py.require_eq_ok_iff, decide_eq_true_eq]
  constructor
  · rintro ⟨_, ⟨hsize, -⟩, _, ⟨hbytes, -⟩, hwork⟩
    exact ⟨hsize, hbytes, hwork⟩
  · rintro ⟨hsize, hbytes, hwork⟩
    exact ⟨_, ⟨hsize, rfl⟩, _, ⟨hbytes, rfl⟩, hwork⟩

/-- `(size + 7) // 8`. -/
def bitmapBytes (size : ℕ) : ℕ := (size + 7) / 8

/-- `share[index // 8] & (1 << (index % 8))`. -/
def selects (share : Bytes) (index : ℕ) : Bool :=
  (share.getD (index / 8) 0).toNat &&& 1 <<< (index % 8) ≠ 0

/-- `share[index // 8] ^= 1 << (index % 8)`. -/
def flip (share : Bytes) (index : ℕ) : Bytes :=
  share.modify (index / 8) fun byte ↦ UInt8.ofNat (byte.toNat ^^^ 1 <<< (index % 8))

/-- `split_query` with the bytes of `randomness`. -/
def splitQuery (index size : ℤ) (randomness : Bytes) : Py (Bytes × Bytes) := do
  let _ ← count size 1 maxBlocksPerCluster "count"
  let _ ← count index 0 (size - 1) "count"
  Py.require (randomness.length = bitmapBytes size.toNat)
    (.valueError "query-share randomness must have the exact bitmap size")
  return (randomness, flip randomness index.toNat)

theorem selects_eq_testBit (share : Bytes) (index : ℕ) :
    selects share index = (share.getD (index / 8) 0).toNat.testBit (index % 8) := by
  rw [selects, Nat.one_shiftLeft, Nat.and_two_pow]
  cases (share.getD (index / 8) 0).toNat.testBit (index % 8) <;> simp

theorem toNat_flipped (byte : UInt8) {bit : ℕ} (h : bit < 8) :
    (UInt8.ofNat (byte.toNat ^^^ 1 <<< bit)).toNat = byte.toNat ^^^ 2 ^ bit := by
  have hbyte : byte.toNat < 2 ^ 8 := byte.toNat_lt
  have hbit : 2 ^ bit < 2 ^ 8 := Nat.pow_lt_pow_right (by decide) h
  rw [Nat.one_shiftLeft, UInt8.toNat_ofNat']
  exact Nat.mod_eq_of_lt (Nat.xor_lt_two_pow hbyte hbit)

theorem selects_flip {share : Bytes} {index : ℕ} (h : index / 8 < share.length) (other : ℕ) :
    selects (flip share index) other = (selects share other != decide (other = index)) := by
  rw [selects_eq_testBit, selects_eq_testBit, flip]
  rcases eq_or_ne (other / 8) (index / 8) with heq | hne
  · have hbyte : (share.modify (index / 8) fun byte ↦
        UInt8.ofNat (byte.toNat ^^^ 1 <<< (index % 8))).getD (other / 8) 0 =
        UInt8.ofNat ((share.getD (other / 8) 0).toNat ^^^ 1 <<< (index % 8)) := by
      rw [heq]
      simp [List.getD_eq_getElem?_getD, h]
    rw [hbyte, toNat_flipped _ (Nat.mod_lt _ (by decide)), Nat.testBit_xor, Nat.testBit_two_pow]
    have hbits : decide (index % 8 = other % 8) = decide (other = index) := by
      rw [decide_eq_decide]
      omega
    rw [hbits]
  · have hother : other ≠ index := fun heq ↦ hne (by rw [heq])
    rw [List.getD_eq_getElem?_getD, List.getElem?_modify_ne _ _ hne.symm, ← List.getD_eq_getElem?_getD,
      decide_eq_false hother, Bool.bne_false]

theorem length_flip (share : Bytes) (index : ℕ) : (flip share index).length = share.length := by
  rw [flip, List.length_modify]

/-- `output[position] ^= byte` for every byte of a block of the same length. -/
def xor (output block : Bytes) : Bytes := List.zipWith (· ^^^ ·) output block

/-- The loop of `server_answer` from a block on. -/
def answerFrom (blockBytes : ℕ) (share : Bytes) : ℕ → Bytes → List Bytes → Py Bytes
  | _, output, [] => .ok output
  | index, output, block :: blocks => do
    Py.require (block.length = blockBytes) (.valueError "database blocks are not fixed-size")
    answerFrom blockBytes share (index + 1)
      (if selects share index then xor output block else output) blocks

/-- `server_answer`. -/
def serverAnswer (blocks : List Bytes) (share : Bytes) (blockBytes : ℤ) : Py Bytes := do
  let _ ← count blockBytes 1 maxBlockBytes "block bytes"
  Py.require (!blocks.isEmpty && blocks.length ≤ maxBlocksPerCluster)
    (.valueError "invalid PIR database bounds")
  Py.require (share.length = bitmapBytes blocks.length)
    (.valueError "query share has an invalid bitmap length")
  answerFrom blockBytes.toNat share 0 (List.replicate blockBytes.toNat 0) blocks

/-- `server_answer_many`. -/
def serverAnswerMany (blocks shares : List Bytes) (blockBytes : ℤ) : Py (List Bytes) := do
  Py.require (shares.length = blocks.length)
    (.valueError "a PIR query share is required for every fixed cluster block")
  batchBudget blocks.length blockBytes
  Py.collect (Py.always fun share ↦ serverAnswer blocks share blockBytes) shares

/-- `reconstruct`. -/
def reconstruct (first second : Bytes) : Py Bytes := do
  Py.require (!first.isEmpty && first.length = second.length)
    (.valueError "PIR server responses must have equal non-zero length")
  return xor first second

theorem length_xor (first second : Bytes) : (xor first second).length = min first.length second.length :=
  List.length_zipWith

theorem xor_comm (first second : Bytes) : xor first second = xor second first :=
  List.zipWith_comm_of_comm fun _ _ ↦ UInt8.xor_comm _ _

theorem xor_assoc (first second third : Bytes) :
    xor (xor first second) third = xor first (xor second third) := by
  induction first generalizing second third with
  | nil => rfl
  | cons byte first ih =>
    cases second with
    | nil => rfl
    | cons byte' second =>
      cases third with
      | nil => rfl
      | cons byte'' third =>
        change (byte ^^^ byte' ^^^ byte'') :: xor (xor first second) third =
          (byte ^^^ (byte' ^^^ byte'')) :: xor first (xor second third)
        rw [UInt8.xor_assoc, ih]

theorem xor_self (block : Bytes) : xor block block = List.replicate block.length 0 := by
  induction block with
  | nil => rfl
  | cons byte block ih =>
    change (byte ^^^ byte) :: xor block block = _
    rw [UInt8.xor_self, ih]
    rfl

theorem zeros_xor (block : Bytes) : xor (List.replicate block.length 0) block = block := by
  induction block with
  | nil => rfl
  | cons byte block ih =>
    change (0 ^^^ byte) :: xor (List.replicate block.length 0) block = _
    rw [UInt8.zero_xor, ih]

variable {output : Bytes} {blockBytes : ℕ}

theorem xor_xor_xor {output' block : Bytes} (h : output'.length = block.length) :
    xor (xor output block) (xor output' block) = xor output output' := by
  calc
    xor (xor output block) (xor output' block) = xor output (xor (xor block block) output') := by
      rw [xor_assoc, xor_assoc, xor_comm output' block]
    _ = xor output (xor (List.replicate output'.length 0) output') := by rw [xor_self, h]
    _ = xor output output' := by rw [zeros_xor]

theorem exists_answerFrom (share : Bytes) (index : ℕ) {blocks : List Bytes}
    (hblocks : ∀ block ∈ blocks, block.length = blockBytes) (houtput : output.length = blockBytes) :
    ∃ answer, answerFrom blockBytes share index output blocks = .ok answer ∧ answer.length = blockBytes := by
  induction blocks generalizing index output with
  | nil => exact ⟨output, rfl, houtput⟩
  | cons block blocks ih =>
    rw [List.forall_mem_cons] at hblocks
    rw [answerFrom, decide_eq_true hblocks.1, Py.require_true, Py.bind_ok]
    apply ih (index + 1) hblocks.2
    split_ifs
    · rw [length_xor, houtput, hblocks.1, min_self]
    · exact houtput

theorem xor_answerFrom {share share' : Bytes} {index : ℕ} {output' : Bytes} {blocks : List Bytes}
    (hblocks : ∀ block ∈ blocks, block.length = blockBytes) (houtput : output.length = blockBytes)
    (houtput' : output'.length = blockBytes)
    (hagree : ∀ other, index ≤ other → selects share' other = selects share other) {answer answer' : Bytes}
    (h : answerFrom blockBytes share index output blocks = .ok answer)
    (h' : answerFrom blockBytes share' index output' blocks = .ok answer') :
    xor answer answer' = xor output output' := by
  induction blocks generalizing index output output' with
  | nil =>
    cases h
    cases h'
    rfl
  | cons block blocks ih =>
    rw [List.forall_mem_cons] at hblocks
    rw [answerFrom, decide_eq_true hblocks.1, Py.require_true, Py.bind_ok] at h h'
    rw [hagree index le_rfl] at h'
    have hrest : ∀ other, index + 1 ≤ other → selects share' other = selects share other :=
      fun other hother ↦ hagree other (by omega)
    split_ifs at h h' with hselects
    · rw [ih hblocks.2 (by rw [length_xor, houtput, hblocks.1, min_self])
        (by rw [length_xor, houtput', hblocks.1, min_self]) hrest h h', xor_xor_xor (houtput'.trans hblocks.1.symm)]
    · exact ih hblocks.2 houtput houtput' hrest h h'

theorem xor_answerFrom_flip {share share' : Bytes} {index target : ℕ} {blocks : List Bytes}
    (hblocks : ∀ block ∈ blocks, block.length = blockBytes) (houtput : output.length = blockBytes)
    (hdiffer : ∀ other, selects share' other = (selects share other != decide (other = index + target)))
    {block : Bytes} (htarget : blocks[target]? = some block) {answer answer' : Bytes}
    (h : answerFrom blockBytes share index output blocks = .ok answer)
    (h' : answerFrom blockBytes share' index output blocks = .ok answer') :
    xor answer answer' = block := by
  induction blocks generalizing index target output with
  | nil => simp at htarget
  | cons first blocks ih =>
    rw [List.forall_mem_cons] at hblocks
    rw [answerFrom, decide_eq_true hblocks.1, Py.require_true, Py.bind_ok] at h h'
    have hsame : (xor output first).length = blockBytes := by
      rw [length_xor, houtput, hblocks.1, min_self]
    cases target with
    | zero =>
      rw [List.getElem?_cons_zero, Option.some.injEq] at htarget
      subst htarget
      have hrest : ∀ other, index + 1 ≤ other → selects share' other = selects share other := by
        intro other hother
        rw [hdiffer, decide_eq_false (by omega), Bool.bne_false]
      have hcancel : xor output (xor output first) = first := by
        rw [← xor_assoc, xor_self, houtput, ← hblocks.1, zeros_xor]
      have hhere := hdiffer index
      rw [Nat.add_zero, decide_eq_true rfl] at hhere
      cases hselects : selects share index with
      | true =>
        rw [hselects] at hhere
        rw [hselects, if_pos rfl] at h
        rw [hhere] at h'
        rw [xor_answerFrom hblocks.2 hsame houtput hrest h h', xor_comm, hcancel]
      | false =>
        rw [hselects] at hhere
        rw [hselects] at h
        rw [hhere] at h'
        rw [xor_answerFrom hblocks.2 houtput hsame hrest h h', hcancel]
    | succ target =>
      rw [List.getElem?_cons_succ] at htarget
      have hhere := hdiffer index
      rw [decide_eq_false (by omega), Bool.bne_false] at hhere
      rw [hhere] at h'
      refine ih hblocks.2 ?_ ?_ htarget h h'
      · split_ifs
        · exact hsame
        · exact houtput
      · intro other
        rw [hdiffer, Nat.add_assoc, Nat.add_comm 1 target]

theorem reconstruct_serverAnswer {blocks : List Bytes} {blockBytes : ℤ}
    (hbudget : batchBudget blocks.length blockBytes = .ok ())
    (hblocks : ∀ block ∈ blocks, block.length = blockBytes.toNat) {share : Bytes}
    (hshare : share.length = bitmapBytes blocks.length) {index : ℕ} {block : Bytes}
    (hblock : blocks[index]? = some block) :
    ∃ first second, serverAnswer blocks share blockBytes = .ok first ∧
      serverAnswer blocks (flip share index) blockBytes = .ok second ∧
      first.length = blockBytes.toNat ∧ second.length = blockBytes.toNat ∧ reconstruct first second = .ok block := by
  obtain ⟨⟨hpos, hmax⟩, hbytes, -⟩ := batchBudget_eq_ok_iff.mp hbudget
  have hindex : index < blocks.length := (List.getElem?_eq_some_iff.mp hblock).1
  have hreturns : ∀ share : Bytes, share.length = bitmapBytes blocks.length →
      serverAnswer blocks share blockBytes =
        answerFrom blockBytes.toNat share 0 (List.replicate blockBytes.toNat 0) blocks := by
    intro share hshare
    have hbounds : (!blocks.isEmpty && decide (blocks.length ≤ maxBlocksPerCluster)) = true := by
      rw [Bool.and_eq_true, Bool.not_eq_true', List.isEmpty_eq_false_iff, decide_eq_true_eq]
      exact ⟨List.ne_nil_of_length_pos (by omega), by omega⟩
    rw [serverAnswer, count_of_mem _ hbytes.1 hbytes.2, Py.bind_ok, hbounds, decide_eq_true hshare,
      Py.require_true, Py.require_true]
    rfl
  obtain ⟨first, hfirst, hfirstLength⟩ := exists_answerFrom share 0 hblocks
    (List.length_replicate (a := (0 : UInt8)))
  obtain ⟨second, hsecond, hsecondLength⟩ := exists_answerFrom (flip share index) 0 hblocks
    (List.length_replicate (a := (0 : UInt8)))
  have hbit : index / 8 < share.length := by
    rw [hshare, bitmapBytes]
    omega
  have hdiffer : ∀ other, selects (flip share index) other =
      (selects share other != decide (other = 0 + index)) := by
    intro other
    rw [Nat.zero_add]
    exact selects_flip hbit other
  refine ⟨first, second, ?_, ?_, hfirstLength, hsecondLength, ?_⟩
  · rw [hreturns share hshare, hfirst]
  · rw [hreturns _ ((length_flip share index).trans hshare), hsecond]
  · have hsame : (!first.isEmpty && decide (first.length = second.length)) = true := by
      rw [Bool.and_eq_true, Bool.not_eq_true', List.isEmpty_eq_false_iff, decide_eq_true_eq]
      exact ⟨List.ne_nil_of_length_pos (by omega), hfirstLength.trans hsecondLength.symm⟩
    rw [reconstruct, hsame, Py.require_true, Py.bind_ok,
      xor_answerFrom_flip hblocks List.length_replicate hdiffer hblock hfirst hsecond]
    rfl

theorem flip_flip (share : Bytes) (index : ℕ) : flip (flip share index) index = share := by
  apply List.ext_getElem?
  intro position
  rw [flip, flip, List.getElem?_modify, List.getElem?_modify]
  cases share[position]? with
  | none => rfl
  | some byte =>
    by_cases h : index / 8 = position
    · simp [h]
    · simp [h]

theorem splitQuery_eq_ok_iff {index size : ℤ} {randomness : Bytes} {shares : Bytes × Bytes} :
    splitQuery index size randomness = .ok shares ↔ (1 ≤ size ∧ size ≤ maxBlocksPerCluster) ∧
      (0 ≤ index ∧ index ≤ size - 1) ∧ randomness.length = bitmapBytes size.toNat ∧
      shares = (randomness, flip randomness index.toNat) := by
  simp only [splitQuery, Py.bind_eq_ok_iff, count_eq_ok_iff, Py.require_eq_ok_iff, decide_eq_true_eq,
    Py.pure_eq_ok, Except.ok.injEq]
  constructor
  · rintro ⟨_, ⟨hsize, -⟩, _, ⟨hindex, -⟩, _, hlength, rfl⟩
    exact ⟨hsize, hindex, hlength, rfl⟩
  · rintro ⟨hsize, hindex, hlength, rfl⟩
    exact ⟨_, ⟨hsize, rfl⟩, _, ⟨hindex, rfl⟩, (), hlength, rfl⟩

/-- The randomness that makes a byte string the first share of a query. -/
def firstDraws (index size : ℤ) (share : Bytes) : Set Bytes :=
  {randomness | ∃ second, splitQuery index size randomness = .ok (share, second)}

/-- The randomness that makes a byte string the second share of a query. -/
def secondDraws (index size : ℤ) (share : Bytes) : Set Bytes :=
  {randomness | ∃ first, splitQuery index size randomness = .ok (first, share)}

section

variable {index size : ℤ} {share : Bytes}

theorem firstDraws_eq (hsize : 1 ≤ size ∧ size ≤ maxBlocksPerCluster) (hindex : 0 ≤ index ∧ index < size)
    (hshare : share.length = bitmapBytes size.toNat) : firstDraws index size share = {share} := by
  ext randomness
  constructor
  · rintro ⟨second, h⟩
    exact (congrArg Prod.fst (splitQuery_eq_ok_iff.mp h).2.2.2).symm
  · rintro rfl
    exact ⟨_, splitQuery_eq_ok_iff.mpr ⟨hsize, ⟨hindex.1, Int.le_sub_one_of_lt hindex.2⟩, hshare, rfl⟩⟩

theorem secondDraws_eq (hsize : 1 ≤ size ∧ size ≤ maxBlocksPerCluster) (hindex : 0 ≤ index ∧ index < size)
    (hshare : share.length = bitmapBytes size.toNat) :
    secondDraws index size share = {flip share index.toNat} := by
  ext randomness
  constructor
  · rintro ⟨first, h⟩
    have hsecond : share = flip randomness index.toNat := congrArg Prod.snd (splitQuery_eq_ok_iff.mp h).2.2.2
    rw [hsecond, flip_flip]
    exact Set.mem_singleton randomness
  · rintro rfl
    refine ⟨flip share index.toNat, splitQuery_eq_ok_iff.mpr ⟨hsize, ⟨hindex.1, Int.le_sub_one_of_lt hindex.2⟩, ?_,
      ?_⟩⟩
    · rw [length_flip, hshare]
    · rw [flip_flip]

end

/-- Any two queries have any share for equally many draws. -/
theorem shares_hide_index (size index other : ℤ) (share : Bytes)
    (hsize : 1 ≤ size ∧ size ≤ maxBlocksPerCluster) (hindex : 0 ≤ index ∧ index < size)
    (hother : 0 ≤ other ∧ other < size) (hshare : share.length = bitmapBytes size.toNat) :
    ((firstDraws index size share).ncard = 1 ∧ (firstDraws other size share).ncard = 1) ∧
      (secondDraws index size share).ncard = 1 ∧ (secondDraws other size share).ncard = 1 := by
  rw [firstDraws_eq hsize hindex hshare, firstDraws_eq hsize hother hshare, secondDraws_eq hsize hindex hshare,
    secondDraws_eq hsize hother hshare]
  simp only [Set.ncard_singleton, and_self]

/-- Two of eleven blocks. -/
theorem shares_hide_index_eleven :
    ((firstDraws 0 11 [0, 5]).ncard = 1 ∧ (firstDraws 10 11 [0, 5]).ncard = 1) ∧
      (secondDraws 0 11 [0, 5]).ncard = 1 ∧ (secondDraws 10 11 [0, 5]).ncard = 1 :=
  shares_hide_index 11 0 10 [0, 5] (by decide) (by decide) (by decide) (by decide)

end UniMem.Oblivious
