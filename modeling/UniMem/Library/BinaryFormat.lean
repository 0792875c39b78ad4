import Mathlib

/-!
# Binary formats that are read from an offset

A reader unpacks values of fixed size from an offset and takes slices, which may be short without notice. A format
that is read back wherever it stands is not accepted when its end is cut.
-/

namespace UniMem.Library

/-- The bytes of a number, the lowest first. -/
def littleEndian : ℕ → ℕ → List UInt8
  | 0, _ => []
  | width + 1, value => UInt8.ofNat (value % 256) :: littleEndian width (value / 256)

/-- The number of bytes with the lowest first. -/
def fromLittleEndian (bytes : List UInt8) : ℕ := Nat.ofDigits 256 (bytes.map UInt8.toNat)

theorem length_littleEndian (width value : ℕ) : (littleEndian width value).length = width := by
  induction width generalizing value with
  | zero => rfl
  | succ width ih => rw [littleEndian, List.length_cons, ih]

theorem fromLittleEndian_littleEndian {width value : ℕ} (h : value < 256 ^ width) :
    fromLittleEndian (littleEndian width value) = value := by
  induction width generalizing value with
  | zero => rw [pow_zero, Nat.lt_one_iff] at h; exact h.symm
  | succ width ih =>
    have hrest : value / 256 < 256 ^ width := Nat.div_lt_of_lt_mul (by rwa [← pow_succ'])
    have hbyte : (UInt8.ofNat (value % 256)).toNat = value % 256 := by
      rw [UInt8.toNat_ofNat', Nat.mod_mod]
    rw [littleEndian, fromLittleEndian, List.map_cons, Nat.ofDigits_cons, ← fromLittleEndian, ih hrest, hbyte,
      Nat.mod_add_div]

/-- A packing of some values to a fixed number of bytes. -/
structure Codec (α : Type) where
  size : ℕ
  pack : α → Option (List UInt8)
  unpack : List UInt8 → α
  length_pack : ∀ {value bytes}, pack value = some bytes → bytes.length = size
  unpack_pack : ∀ {value bytes}, pack value = some bytes → unpack bytes = value

namespace Codec

variable {α β : Type}

/-- The formats `B`, `H`, `I` and `Q`. -/
def unsigned (width : ℕ) : Codec ℤ where
  size := width
  pack value := if 0 ≤ value ∧ value < 256 ^ width then some (littleEndian width value.toNat) else none
  unpack bytes := fromLittleEndian bytes
  length_pack {value bytes} h := by
    obtain ⟨-, h⟩ := Option.ite_none_right_eq_some.mp h
    rw [← Option.some.inj h, length_littleEndian]
  unpack_pack {value bytes} h := by
    obtain ⟨⟨hlow, hhigh⟩, h⟩ := Option.ite_none_right_eq_some.mp h
    have hbound : value.toNat < 256 ^ width := by
      rw [Int.toNat_lt hlow]
      exact_mod_cast hhigh
    rw [← Option.some.inj h, fromLittleEndian_littleEndian hbound, Int.toNat_of_nonneg hlow]

/-- The formats `i` and `q`. -/
def signed (width : ℕ) : Codec ℤ where
  size := width
  pack value :=
    if -(256 ^ width : ℤ) ≤ value * 2 ∧ value * 2 < 256 ^ width then
      some (littleEndian width (value % (256 ^ width : ℕ)).toNat) else none
  unpack bytes := Int.bmod (fromLittleEndian bytes) (256 ^ width)
  length_pack {value bytes} h := by
    obtain ⟨-, h⟩ := Option.ite_none_right_eq_some.mp h
    rw [← Option.some.inj h, length_littleEndian]
  unpack_pack {value bytes} h := by
    obtain ⟨⟨hlow, hhigh⟩, h⟩ := Option.ite_none_right_eq_some.mp h
    have hpos : (0 : ℤ) < (256 ^ width : ℕ) := by positivity
    have hnonneg := Int.emod_nonneg value hpos.ne'
    have hbound : (value % (256 ^ width : ℕ)).toNat < 256 ^ width := by
      rw [Int.toNat_lt hnonneg]
      exact Int.emod_lt_of_pos value hpos
    rw [← Option.some.inj h, fromLittleEndian_littleEndian hbound, Int.toNat_of_nonneg hnonneg, Int.emod_bmod]
    refine Int.bmod_eq_of_le_mul_two ?_ ?_ <;> push_cast <;> assumption

/-- The format `d`, on the bit patterns of doubles. -/
def double : Codec (BitVec 64) where
  size := 8
  pack value := some (littleEndian 8 value.toNat)
  unpack bytes := BitVec.ofNat 64 (fromLittleEndian bytes)
  length_pack {value bytes} h := by rw [← Option.some.inj h, length_littleEndian]
  unpack_pack {value bytes} h := by
    have hbound : value.toNat < 256 ^ 8 := value.isLt
    rw [← Option.some.inj h, fromLittleEndian_littleEndian hbound, BitVec.ofNat_toNat, BitVec.setWidth_eq]

/-- The format `4s` and its like, for strings of just this length. -/
def raw (length : ℕ) : Codec (List UInt8) where
  size := length
  pack value := if value.length = length then some value else none
  unpack bytes := bytes
  length_pack {value bytes} h := by
    obtain ⟨hlength, h⟩ := Option.ite_none_right_eq_some.mp h
    rwa [← Option.some.inj h]
  unpack_pack {value bytes} h := (Option.some.inj (Option.ite_none_right_eq_some.mp h).2).symm

/-- One value after another. -/
def pair (first : Codec α) (second : Codec β) : Codec (α × β) where
  size := first.size + second.size
  pack value := do return (← first.pack value.1) ++ (← second.pack value.2)
  unpack bytes := (first.unpack (bytes.take first.size), second.unpack (bytes.drop first.size))
  length_pack {value bytes} h := by
    obtain ⟨before, hbefore, h⟩ := Option.bind_eq_some_iff.mp h
    obtain ⟨after, hafter, h⟩ := Option.bind_eq_some_iff.mp h
    rw [← Option.some.inj h, List.length_append, first.length_pack hbefore, second.length_pack hafter]
  unpack_pack {value bytes} h := by
    obtain ⟨before, hbefore, h⟩ := Option.bind_eq_some_iff.mp h
    obtain ⟨after, hafter, h⟩ := Option.bind_eq_some_iff.mp h
    have hlength := first.length_pack hbefore
    rw [← Option.some.inj h, List.take_left' hlength, List.drop_left' hlength, first.unpack_pack hbefore,
      second.unpack_pack hafter]

/-- The bytes of some values, one after another. -/
def packAll (codec : Codec α) : List α → Option (List UInt8)
  | [] => some []
  | value :: values => do return (← codec.pack value) ++ (← packAll codec values)

/-- A number of values, one after another. -/
def unpackAll (codec : Codec α) : (count : ℕ) → List UInt8 → List.Vector α count
  | 0, _ => .nil
  | count + 1, bytes => .cons (codec.unpack (bytes.take codec.size)) (unpackAll codec count (bytes.drop codec.size))

theorem packAll_eq_some {codec : Codec α} {values : List α} {bytes : List UInt8}
    (h : codec.packAll values = some bytes) :
    bytes.length = values.length * codec.size ∧ (codec.unpackAll values.length bytes).toList = values := by
  induction values generalizing bytes with
  | nil =>
    rw [← Option.some.inj h]
    exact ⟨(Nat.zero_mul _).symm, rfl⟩
  | cons value values ih =>
    obtain ⟨before, hbefore, h⟩ := Option.bind_eq_some_iff.mp h
    obtain ⟨after, hafter, h⟩ := Option.bind_eq_some_iff.mp h
    obtain ⟨hrest, hvalues⟩ := ih hafter
    have hlength := codec.length_pack hbefore
    rw [← Option.some.inj h]
    constructor
    · rw [List.length_append, hlength, hrest, List.length_cons, Nat.succ_mul, Nat.add_comm]
    · rw [List.length_cons, unpackAll, List.Vector.toList_cons, List.take_left' hlength,
        List.drop_left' hlength, codec.unpack_pack hbefore, hvalues]

/-- The formats with a count, such as `3I`, for just as many values. -/
def array (codec : Codec α) (count : ℕ) : Codec (List.Vector α count) where
  size := count * codec.size
  pack values := codec.packAll values.toList
  unpack bytes := codec.unpackAll count bytes
  length_pack {values bytes} h := by rw [(packAll_eq_some h).1, List.Vector.toList_length]
  unpack_pack {values bytes} h := by
    have hvalues := (packAll_eq_some h).2
    obtain ⟨values, rfl⟩ := values
    exact Subtype.ext hvalues

end Codec

/-- A reader of a byte string from an offset, which never moves back and fails with errors of some kind. -/
structure Reader {ε : Type} (good : ε → Prop) (α : Type) where
  run : List UInt8 → ℕ → Except ε (α × ℕ)
  forward : ∀ {bytes offset value next}, run bytes offset = .ok (value, next) → offset ≤ next
  errors : ∀ {bytes offset error}, run bytes offset = .error error → good error

namespace Reader

variable {ε α β γ : Type} {good : ε → Prop}

instance : Monad (Reader good) where
  pure value :=
    { run _ offset := .ok (value, offset)
      forward h := (congrArg Prod.snd (Except.ok.inj h)).le
      errors h := by cases h }
  bind reader next :=
    { run bytes offset := reader.run bytes offset >>= fun result ↦ (next result.1).run bytes result.2
      forward {bytes offset value last} h := by
        cases hfirst : reader.run bytes offset with
        | error error => rw [hfirst] at h; cases h
        | ok result =>
          rw [hfirst] at h
          exact (reader.forward hfirst).trans ((next result.1).forward h)
      errors {bytes offset error} h := by
        cases hfirst : reader.run bytes offset with
        | error other =>
          rw [hfirst] at h
          obtain rfl := Except.error.inj h
          exact reader.errors hfirst
        | ok result =>
          rw [hfirst] at h
          exact (next result.1).errors h }

theorem run_bind (reader : Reader good α) (next : α → Reader good β) (bytes : List UInt8) (offset : ℕ) :
    (reader >>= next).run bytes offset =
      reader.run bytes offset >>= fun result ↦ (next result.1).run bytes result.2 := rfl

/-- `unpack_from`. -/
def unpack (codec : Codec α) (short : ε) (h : good short) : Reader good α where
  run bytes offset :=
    if bytes.length < offset + codec.size then .error short
    else .ok (codec.unpack ((bytes.drop offset).take codec.size), offset + codec.size)
  forward {bytes offset value next} heq := by
    split_ifs at heq
    exact Nat.le.intro (congrArg Prod.snd (Except.ok.inj heq))
  errors {bytes offset error} heq := by
    split_ifs at heq
    rwa [← Except.error.inj heq]

variable {short : ε} {value : α} {first second part : List UInt8} {reader : Reader good α}
  {next : α → Reader good β} {result : β} {computed : Except ε α}

theorem run_unpack (codec : Codec α) (h : good short) (bytes : List UInt8) (offset : ℕ) :
    (unpack codec short h).run bytes offset = if bytes.length < offset + codec.size then .error short
      else .ok (codec.unpack ((bytes.drop offset).take codec.size), offset + codec.size) := rfl

/-- A slice, which is shorter where the bytes end. -/
def slice (length : ℕ) : Reader good (List UInt8) where
  run bytes offset := .ok ((bytes.drop offset).take length, offset + length)
  forward h := Nat.le.intro (congrArg Prod.snd (Except.ok.inj h))
  errors h := by cases h

theorem run_slice (length : ℕ) (bytes : List UInt8) (offset : ℕ) :
    (slice length : Reader good (List UInt8)).run bytes offset =
      .ok ((bytes.drop offset).take length, offset + length) := rfl

/-- A computation that reads nothing. -/
def compute (result : Except ε α) (h : ∀ error, result = .error error → good error) : Reader good α where
  run _ offset := result.map (·, offset)
  forward {bytes offset value next} heq := by
    cases result with
    | error error => cases heq
    | ok result => exact (congrArg Prod.snd (Except.ok.inj heq)).le
  errors {bytes offset error} heq := by
    cases result with
    | error other => exact h error (congrArg Except.error (Except.error.inj heq))
    | ok result => cases heq

/-- One reader after another. -/
def all : List (Reader good α) → Reader good (List α)
  | [] => pure []
  | reader :: readers => do return (← reader) :: (← all readers)

/-- A reader of whole byte strings. -/
def whole (reader : Reader good α) (trailing : ε) (bytes : List UInt8) : Except ε α := do
  let (value, offset) ← reader.run bytes 0
  if offset = bytes.length then return value else throw trailing

/-- A reader reads some bytes as a value wherever they stand, and fails or moves on where they end. -/
structure Decodes (reader : Reader good α) (format : List UInt8) (value : α) : Prop where
  reads : ∀ before after, reader.run (before ++ format ++ after) before.length =
    .ok (value, before.length + format.length)
  cut : ∀ before part, part <+: format → part ≠ format → ∀ result next,
    reader.run (before ++ part) before.length = .ok (result, next) → (before ++ part).length < next

theorem Decodes.pure (value : α) : Decodes (pure value : Reader good α) [] value where
  reads _ _ := rfl
  cut _ _ hpart hne := absurd (List.prefix_nil.mp hpart) hne

variable {format : List UInt8}

theorem Decodes.unpack {codec : Codec α} (hshort : good short) (h : codec.pack value = some format) :
    Decodes (unpack codec short hshort) format value where
  reads before after := by
    have hsize := codec.length_pack h
    have hroom : ¬(before ++ format ++ after).length < before.length + codec.size := by
      rw [List.length_append, List.length_append, hsize]
      omega
    rw [run_unpack, if_neg hroom, List.append_assoc, List.drop_left, List.take_left' hsize,
      codec.unpack_pack h, hsize]
  cut before part hpart hne result next hresult := by
    have hsize := codec.length_pack h
    have hshort : part.length < format.length :=
      lt_of_le_of_ne hpart.length_le fun heq ↦ hne (hpart.eq_of_length heq)
    have hroom : (before ++ part).length < before.length + codec.size := by
      rw [List.length_append]
      omega
    rw [run_unpack, if_pos hroom] at hresult
    cases hresult

theorem Decodes.slice (format : List UInt8) :
    Decodes (slice format.length : Reader good (List UInt8)) format format where
  reads before after := by
    rw [run_slice, List.append_assoc, List.drop_left, List.take_left]
  cut before part hpart hne result next hresult := by
    have hshort : part.length < format.length :=
      lt_of_le_of_ne hpart.length_le fun heq ↦ hne (hpart.eq_of_length heq)
    have hnext : before.length + format.length = next := congrArg Prod.snd (Except.ok.inj hresult)
    rw [← hnext, List.length_append]
    exact Nat.add_lt_add_left hshort _

theorem cut_append (h : part <+: first ++ second) (hne : part ≠ first ++ second) :
    (part <+: first ∧ part ≠ first) ∨ ∃ rest, part = first ++ rest ∧ rest <+: second ∧ rest ≠ second := by
  obtain hstart | hlonger := List.prefix_or_prefix_of_prefix h (List.prefix_append first second)
  · obtain rfl | hfirst := eq_or_ne part first
    · refine .inr ⟨[], (List.append_nil part).symm, List.nil_prefix, ?_⟩
      rintro rfl
      exact hne (List.append_nil part).symm
    · exact .inl ⟨hstart, hfirst⟩
  · obtain ⟨rest, rfl⟩ := hlonger
    refine .inr ⟨rest, rfl, (List.prefix_append_right_inj first).mp h, ?_⟩
    rintro rfl
    exact hne rfl

theorem Decodes.bind (h : Decodes reader first value) (hnext : Decodes (next value) second result) :
    Decodes (reader >>= next) (first ++ second) result where
  reads before after := by
    have hfirst := h.reads before (second ++ after)
    have hsecond := hnext.reads (before ++ first) after
    rw [List.length_append] at hsecond
    rw [run_bind, ← List.append_assoc before, List.append_assoc (before ++ first), hfirst, List.length_append,
      ← Nat.add_assoc, ← hsecond, ← List.append_assoc]
    rfl
  cut before part hpart hne last after hlast := by
    rw [run_bind] at hlast
    obtain ⟨hstart, hcut⟩ | ⟨rest, rfl, hstart, hcut⟩ := cut_append hpart hne
    · cases hfirst : reader.run (before ++ part) before.length with
      | error error => rw [hfirst] at hlast; cases hlast
      | ok result =>
        rw [hfirst] at hlast
        -- the first reader has moved past the end, and the second one does not move back
        exact (h.cut before part hstart hcut _ _ hfirst).trans_le ((next result.1).forward hlast)
    · rw [← List.append_assoc, h.reads before rest] at hlast
      rw [← List.append_assoc]
      refine hnext.cut (before ++ first) rest hstart hcut last after ?_
      rw [List.length_append]
      exact hlast

theorem Decodes.bind_last (h : Decodes reader format value) (hnext : Decodes (next value) [] result) :
    Decodes (reader >>= next) format result := by
  have hboth := h.bind hnext
  rwa [List.append_nil] at hboth

theorem Decodes.compute {herrors : ∀ error, computed = .error error → good error} (h : computed = .ok value) :
    Decodes (Reader.compute computed herrors) [] value := by
  subst h
  exact ⟨fun _ _ ↦ rfl, fun _ _ hpart hne ↦ absurd (List.prefix_nil.mp hpart) hne⟩

theorem Decodes.bind_compute {herrors : ∀ error, computed = .error error → good error} (h : computed = .ok value)
    (hnext : Decodes (next value) format result) : Decodes (Reader.compute computed herrors >>= next) format result :=
  (Decodes.compute h).bind hnext

theorem Decodes.all {reader : γ → Reader good α} {value : γ → α} {items : List γ} {formats : List (List UInt8)}
    (h : List.Forall₂ (fun item format ↦ Decodes (reader item) format (value item)) items formats) :
    Decodes (Reader.all (items.map reader)) formats.flatten (items.map value) := by
  induction h with
  | nil => exact .pure []
  | cons hitem _ ih => exact hitem.bind (ih.bind_last (.pure _))

theorem Decodes.whole_eq (h : Decodes reader format value) (trailing : ε) :
    whole reader trailing format = .ok value := by
  have hreads := h.reads [] []
  rw [List.append_nil, List.nil_append, List.length_nil, Nat.zero_add] at hreads
  rw [whole, hreads]
  exact if_pos rfl

theorem Decodes.whole_cut (h : Decodes reader format value) {trailing : ε} (htrailing : good trailing)
    (hpart : part <+: format) (hne : part ≠ format) :
    ∃ error, whole reader trailing part = .error error ∧ good error := by
  rw [whole]
  cases hresult : reader.run part 0 with
  | error error => exact ⟨error, rfl, reader.errors hresult⟩
  | ok result =>
    have hnext := h.cut [] part hpart hne result.1 result.2 hresult
    exact ⟨trailing, if_neg hnext.ne', htrailing⟩

end Reader

end UniMem.Library
