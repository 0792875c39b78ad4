import UniMem.FrontierProtocol.Wire

/-!
# Trees that are no larger than others

`wire` accepts a tree that is no larger than one that it accepts. Dropping items of an array and
reordering the fields of an object do not make a tree larger.
-/

namespace UniMem.FrontierProtocol

open Library

/-- How many integers of a tree cannot be converted to text. -/
def unconvertible (value : Json) : ℕ :=
  value.total fun node ↦
    match node with
    | .int number => if 10 ^ maxStrDigits ≤ number.natAbs then 1 else 0
    | _ => 0

theorem convertible_iff (value : Json) : convertible value = true ↔ unconvertible value = 0 := by
  rw [convertible, decide_eq_true_eq]
  exact Iff.rfl

/-- The length of the canonical text of a tree. -/
def size (value : Json) : ℕ := (value.encode .compact).length

theorem length_canonicalBytes (value : Json) : (canonicalBytes value).length = size value := by
  rw [canonicalBytes, Json.length_encode_sortKeys, size]

/-- A tree that is no larger than another in any of the measures of `wire`. -/
structure NoLarger (small large : Json) : Prop where
  nodes_le : nodes small ≤ nodes large
  minimumBytes_le : minimumBytes small ≤ minimumBytes large
  unconvertible_le : unconvertible small ≤ unconvertible large
  size_le : size small ≤ size large
  admissible : ∀ depth, Json.Everywhere NodeAdmissible depth large →
    Json.Everywhere NodeAdmissible depth small

theorem Wirable.of_noLarger {small large : Json} (h : Wirable large) (hsmall : NoLarger small large) :
    Wirable small := by
  refine ⟨⟨hsmall.nodes_le.trans h.bounded.nodes_le, hsmall.minimumBytes_le.trans h.bounded.minimumBytes_le,
    hsmall.admissible 0 h.bounded.admissible⟩, ?_, ?_⟩
  · have hlarge := (convertible_iff large).mp h.convertible
    exact (convertible_iff small).mpr (Nat.le_zero.mp (hlarge ▸ hsmall.unconvertible_le))
  · have hlarge := h.length_le
    rw [length_canonicalBytes] at hlarge ⊢
    exact hsmall.size_le.trans hlarge

theorem NoLarger.refl (value : Json) : NoLarger value value :=
  ⟨le_rfl, le_rfl, le_rfl, le_rfl, fun _ h ↦ h⟩

theorem NoLarger.trans {small middle large : Json} (h : NoLarger small middle)
    (h' : NoLarger middle large) : NoLarger small large :=
  ⟨h.nodes_le.trans h'.nodes_le, h.minimumBytes_le.trans h'.minimumBytes_le,
    h.unconvertible_le.trans h'.unconvertible_le, h.size_le.trans h'.size_le,
    fun depth hlarge ↦ h.admissible depth (h'.admissible depth hlarge)⟩

theorem total_arr (own : Json → ℕ) (items : List Json) :
    (Json.arr items).total own = own (.arr items) + (items.map (Json.total own)).sum := by
  rw [Json.total_eq, Json.children]

theorem size_arr_add_one {items : List Json} (h : items ≠ []) :
    size (.arr items) + 1 = 2 + (items.map fun item ↦ 1 + size item).sum :=
  Json.length_encode_arr .compact h

theorem size_arr_nil : size (.arr []) = 2 := rfl

theorem sum_le_of_subperm {α : Type} {small large : List α} (h : small.Subperm large)
    (measure : α → ℕ) : (small.map measure).sum ≤ (large.map measure).sum := by
  obtain ⟨middle, hperm, hsublist⟩ := h
  rw [← (hperm.map measure).sum_eq]
  exact (hsublist.map measure).sum_le_sum fun _ _ ↦ Nat.zero_le _

theorem NoLarger.arr {small large : List Json} (h : small.Subperm large) :
    NoLarger (.arr small) (.arr large) := by
  have hsum := sum_le_of_subperm h
  refine ⟨?_, ?_, ?_, ?_, ?_⟩
  · rw [nodes, nodes, total_arr, total_arr]
    exact Nat.add_le_add_left (hsum _) _
  · rw [minimumBytes, minimumBytes, total_arr, total_arr]
    exact Nat.add_le_add_left (hsum _) _
  · rw [unconvertible, unconvertible, total_arr, total_arr]
    exact Nat.add_le_add_left (hsum _) _
  · rcases eq_or_ne large [] with rfl | hlarge
    · rw [List.subperm_nil.mp h]
    · have hlong := size_arr_add_one hlarge
      have hless := hsum fun item ↦ 1 + size item
      rcases eq_or_ne small [] with rfl | hsmall
      · obtain ⟨item, items, rfl⟩ := List.exists_cons_of_ne_nil hlarge
        rw [List.map_cons, List.sum_cons] at hlong
        rw [size_arr_nil]
        omega
      · have hshort := size_arr_add_one hsmall
        omega
  · intro depth hlarge
    rw [Json.everywhere_iff] at hlarge ⊢
    exact ⟨hlarge.1, fun child hchild ↦ hlarge.2 child (h.subset hchild)⟩

theorem NoLarger.arr_items {small large : List Json} (h : List.Forall₂ NoLarger small large) :
    NoLarger (.arr small) (.arr large) := by
  have hsum : ∀ measure : Json → ℕ, (∀ a b, NoLarger a b → measure a ≤ measure b) →
      (small.map measure).sum ≤ (large.map measure).sum := by
    intro measure hmeasure
    induction h with
    | nil => exact le_rfl
    | cons hitem _ ih =>
      rw [List.map_cons, List.sum_cons, List.map_cons, List.sum_cons]
      exact Nat.add_le_add (hmeasure _ _ hitem) ih
  refine ⟨?_, ?_, ?_, ?_, ?_⟩
  · rw [nodes, nodes, total_arr, total_arr]
    exact Nat.add_le_add_left (hsum _ fun _ _ hitem ↦ hitem.nodes_le) _
  · rw [minimumBytes, minimumBytes, total_arr, total_arr]
    exact Nat.add_le_add_left (hsum _ fun _ _ hitem ↦ hitem.minimumBytes_le) _
  · rw [unconvertible, unconvertible, total_arr, total_arr]
    exact Nat.add_le_add_left (hsum _ fun _ _ hitem ↦ hitem.unconvertible_le) _
  · have hless := hsum (fun item ↦ 1 + size item) fun _ _ hitem ↦ Nat.add_le_add_left hitem.size_le _
    rcases eq_or_ne small [] with rfl | hsmall
    · rw [List.forall₂_nil_left_iff.mp h]
    · have hlarge : large ≠ [] := by
        rintro rfl
        exact hsmall (List.forall₂_nil_right_iff.mp h)
      have hshort := size_arr_add_one hsmall
      have hlong := size_arr_add_one hlarge
      omega
  · intro depth hlarge
    rw [Json.everywhere_iff] at hlarge ⊢
    refine ⟨hlarge.1, ?_⟩
    have hchildren := hlarge.2
    simp only [Json.children] at hchildren ⊢
    clear * - h hchildren
    induction h with
    | nil => simp
    | cons hitem _ ih =>
      rw [List.forall_mem_cons] at hchildren ⊢
      exact ⟨hitem.admissible _ hchildren.1, ih hchildren.2⟩

theorem total_obj (own : Json → ℕ) (fields : List (String × Json)) :
    (Json.obj fields).total own = own (.obj fields) + (fields.map fun field ↦ field.2.total own).sum := by
  rw [Json.total_eq, Json.children, List.map_map]
  rfl

theorem size_obj_add_one {fields : List (String × Json)} (h : fields ≠ []) :
    size (.obj fields) + 1 = 2 + (fields.map fun field ↦ 1 + (Json.quote field.1).length + 1 + size field.2).sum :=
  Json.length_encode_obj .compact h

theorem size_obj_eq {fields : List (String × Json)} (h : fields ≠ []) :
    size (.obj fields) + 1 = 2 + ((fields.map Prod.fst).map fun key ↦
      2 + (Json.quote key).length).sum + ((fields.map Prod.snd).map size).sum := by
  have hsplit : (fields.map fun field ↦ 1 + (Json.quote field.1).length + 1 + size field.2).sum =
      (fields.map fun field ↦ 2 + (Json.quote field.1).length).sum +
        (fields.map fun field ↦ size field.2).sum := by
    rw [← List.sum_map_add]
    apply congrArg List.sum
    apply List.map_congr_left
    intro field _
    omega
  rw [size_obj_add_one h, hsplit, List.map_map, List.map_map, Nat.add_assoc]
  rfl

variable {small large : List (String × Json)} {depth : ℕ} {value : Json}

theorem NoLarger.obj (h : List.Forall₂ (fun a b ↦ a.1 = b.1 ∧ NoLarger a.2 b.2) small large) :
    NoLarger (.obj small) (.obj large) := by
  have hsum : ∀ measure : String × Json → ℕ,
      (∀ a b : String × Json, a.1 = b.1 → NoLarger a.2 b.2 → measure a ≤ measure b) →
      (small.map measure).sum ≤ (large.map measure).sum := by
    intro measure hmeasure
    induction h with
    | nil => exact le_rfl
    | cons hfield _ ih =>
      rw [List.map_cons, List.sum_cons, List.map_cons, List.sum_cons]
      exact Nat.add_le_add (hmeasure _ _ hfield.1 hfield.2) ih
  have hkeys : keyBytes (.obj small) = keyBytes (.obj large) := by
    rw [keyBytes, keyBytes]
    clear hsum
    induction h with
    | nil => rfl
    | cons hfield _ ih =>
      rw [List.map_cons, List.sum_cons, ih, hfield.1, List.map_cons, List.sum_cons]
  refine ⟨?_, ?_, ?_, ?_, ?_⟩
  · rw [nodes, nodes, total_obj, total_obj]
    exact Nat.add_le_add_left (hsum _ fun _ _ _ hvalue ↦ hvalue.nodes_le) _
  · rw [minimumBytes, minimumBytes, total_obj, total_obj, hkeys]
    exact Nat.add_le_add_left (hsum _ fun _ _ _ hvalue ↦ hvalue.minimumBytes_le) _
  · rw [unconvertible, unconvertible, total_obj, total_obj]
    exact Nat.add_le_add_left (hsum _ fun _ _ _ hvalue ↦ hvalue.unconvertible_le) _
  · have hless := hsum (fun field ↦ 1 + (Json.quote field.1).length + 1 + size field.2)
      fun a b hkey hvalue ↦ by
        rw [hkey]
        exact Nat.add_le_add_left hvalue.size_le _
    rcases eq_or_ne small [] with rfl | hsmall
    · rw [List.forall₂_nil_left_iff.mp h]
    · have hlarge : large ≠ [] := by
        rintro rfl
        exact hsmall (List.forall₂_nil_right_iff.mp h)
      have hshort := size_obj_add_one hsmall
      have hlong := size_obj_add_one hlarge
      omega
  · intro depth hlarge
    rw [Json.everywhere_iff] at hlarge ⊢
    refine ⟨hlarge.1, ?_⟩
    have hchildren := hlarge.2
    simp only [Json.children, List.forall_mem_map] at hchildren ⊢
    clear * - h hchildren
    induction h with
    | nil => simp
    | cons hfield _ ih =>
      rw [List.forall_mem_cons] at hchildren ⊢
      exact ⟨hfield.2.admissible _ hchildren.1, ih hchildren.2⟩

theorem NoLarger.obj_fields (h : small.Subperm large) :
    NoLarger (.obj small) (.obj large) := by
  have hsum := sum_le_of_subperm h
  refine ⟨?_, ?_, ?_, ?_, ?_⟩
  · rw [nodes, nodes, total_obj, total_obj]
    exact Nat.add_le_add_left (hsum _) _
  · rw [minimumBytes, minimumBytes, total_obj, total_obj, keyBytes, keyBytes]
    exact Nat.add_le_add (Nat.add_le_add_left (hsum _) _) (hsum _)
  · rw [unconvertible, unconvertible, total_obj, total_obj]
    exact Nat.add_le_add_left (hsum _) _
  · rcases eq_or_ne large [] with rfl | hlarge
    · rw [List.subperm_nil.mp h]
    · have hlong := size_obj_add_one hlarge
      have hless := hsum fun field ↦ 1 + (Json.quote field.1).length + 1 + size field.2
      rcases eq_or_ne small [] with rfl | hsmall
      · have hnil : size (.obj []) = 2 := rfl
        obtain ⟨field, fields, rfl⟩ := List.exists_cons_of_ne_nil hlarge
        rw [List.map_cons, List.sum_cons] at hlong
        omega
      · have hshort := size_obj_add_one hsmall
        omega
  · intro depth hlarge
    rw [Json.everywhere_iff] at hlarge ⊢
    refine ⟨hlarge.1, fun child hchild ↦ hlarge.2 child ?_⟩
    obtain ⟨field, hfield, rfl⟩ := List.mem_map.mp hchild
    exact List.mem_map.mpr ⟨field, h.subset hfield, rfl⟩

theorem noLarger_sortKeys (value : Json) : NoLarger value.sortKeys value := by
  induction value using Json.children_induction with
  | step value ih =>
    cases value with
    | arr items =>
      rw [Json.sortKeys, Json.sortKeysItems_eq]
      refine NoLarger.arr_items (List.forall₂_map_left_iff.mpr (List.forall₂_same.mpr ?_))
      exact ih
    | obj fields =>
      rw [Json.sortKeys, Json.sortKeysFields_eq]
      refine (NoLarger.obj_fields (List.perm_insertionSort _ _).subperm).trans (NoLarger.obj ?_)
      refine List.forall₂_map_left_iff.mpr (List.forall₂_same.mpr fun field hfield ↦ ⟨rfl, ?_⟩)
      exact ih field.2 (List.mem_map.mpr ⟨field, hfield, rfl⟩)
    | _ => exact NoLarger.refl _

theorem NoLarger.obj_lookup (hkeys : (small.map Prod.fst).Nodup)
    (h : ∀ field ∈ small, ∃ value, large.lookup field.1 = some value ∧ NoLarger field.2 value) :
    NoLarger (.obj small) (.obj large) := by
  have hfound : ∃ middle : List (String × Json),
      List.Forall₂ (fun a b ↦ a.1 = b.1 ∧ NoLarger a.2 b.2) small middle ∧
      ∀ field ∈ middle, field ∈ large := by
    clear hkeys
    induction small with
    | nil => exact ⟨[], .nil, by simp⟩
    | cons field small ih =>
      rw [List.forall_mem_cons] at h
      obtain ⟨middle, hmiddle, hmem⟩ := ih h.2
      obtain ⟨value, hvalue, hsmaller⟩ := h.1
      refine ⟨(field.1, value) :: middle, .cons ⟨rfl, hsmaller⟩ hmiddle, ?_⟩
      exact List.forall_mem_cons.mpr ⟨mem_of_lookup hvalue, hmem⟩
  obtain ⟨middle, hmiddle, hmem⟩ := hfound
  have hsame : middle.map Prod.fst = small.map Prod.fst := by
    clear hkeys h hmem
    induction hmiddle with
    | nil => rfl
    | cons hfield _ ih => rw [List.map_cons, List.map_cons, ih, hfield.1]
  have hnodup : middle.Nodup := List.Nodup.of_map Prod.fst (hsame ▸ hkeys)
  exact (NoLarger.obj hmiddle).trans (NoLarger.obj_fields (List.subperm_of_subset hnodup hmem))

/-- A node that is not a float or a large integer, at an admissible depth. -/
def Plain (depth : ℕ) : Json → Prop
  | .float _ => False
  | .int number => depth ≤ 64 ∧ number.natAbs < 8
  | _ => depth ≤ 64

theorem Plain.admissible (h : Plain depth value) :
    NodeAdmissible depth value := by
  cases value with
  | float decimal => exact h.elim
  | int number => exact h.1
  | _ => exact h

theorem everywhere_mono {property other : ℕ → Json → Prop}
    (himp : ∀ depth value, property depth value → other depth value) (h : Json.Everywhere property depth value) :
    Json.Everywhere other depth value := by
  induction value using Json.children_induction generalizing depth with
  | step value ih =>
    rw [Json.everywhere_iff] at h ⊢
    exact ⟨himp depth value h.1, fun child hchild ↦ ih child hchild (h.2 child hchild)⟩

theorem length_escapes (chars : List Char) : chars.length ≤ (chars.flatMap Json.escape).length ∧
    (chars.flatMap Json.escape).length ≤ 6 * chars.length := by
  have hescape : ∀ char, 1 ≤ (Json.escape char).length ∧ (Json.escape char).length ≤ 6 := by
    intro char
    have hsize := Char.utf8Size_le_four char
    have hpos := Char.utf8Size_pos char
    unfold Json.escape
    split_ifs
    all_goals simp [String.length_utf8EncodeChar]
    omega
  induction chars with
  | nil => exact ⟨le_rfl, le_rfl⟩
  | cons char chars ih =>
    have hchar := hescape char
    rw [List.flatMap_cons, List.length_append, List.length_cons]
    omega

theorem length_le_quote (text : String) : text.length + 2 ≤ (Json.quote text).length := by
  have hchars := length_escapes text.toList
  rw [String.length_toList] at hchars
  simp only [Json.quote, List.length_cons, List.length_append, List.length_nil]
  omega

theorem quote_le_length (text : String) : (Json.quote text).length ≤ 6 * text.length + 2 := by
  have hchars := length_escapes text.toList
  rw [String.length_toList] at hchars
  simp only [Json.quote, List.length_cons, List.length_append, List.length_nil]
  omega

theorem scalarBytes_of_lt {number : ℤ} (h : number.natAbs < 8) : scalarBytes (.int number) = 1 := by
  have hbits : (bitLength number.natAbs - 1) * 3 / 10 = 0 := by
    interval_cases number.natAbs <;> decide
  rw [scalarBytes, hbits]

theorem size_int_pos {number : ℤ} (h : number.natAbs < 8) : 1 ≤ size (.int number) := by
  have hlow : -8 < number := by omega
  have hhigh : number < 8 := by omega
  interval_cases number <;> decide

theorem own_le_size (h : Plain depth value) :
    scalarBytes value + keyBytes value + (value.children.map size).sum ≤ size value ∧ 1 ≤ scalarBytes value := by
  cases value with
  | null => decide
  | bool flag => cases flag <;> decide
  | int number =>
    have hsize := size_int_pos h.2
    rw [scalarBytes_of_lt h.2]
    simpa [keyBytes, Json.children] using hsize
  | float decimal => exact h.elim
  | str text =>
    have hquote := length_le_quote text
    have hsize : size (.str text) = (Json.quote text).length := rfl
    simp only [scalarBytes, keyBytes, Json.children, List.map_nil, List.sum_nil]
    omega
  | arr items =>
    simp only [scalarBytes, keyBytes, Json.children]
    rcases eq_or_ne items [] with rfl | hne
    · decide
    · have hsize := size_arr_add_one hne
      rw [List.sum_map_add, List.map_const', List.sum_replicate, smul_eq_mul, mul_one] at hsize
      have hlength : 1 ≤ items.length := List.length_pos_iff.mpr hne
      omega
  | obj fields =>
    simp only [scalarBytes, keyBytes, Json.children]
    rcases eq_or_ne fields [] with rfl | hne
    · decide
    · have hsize := size_obj_eq hne
      have hkeys : (fields.map fun field ↦ field.1.length).sum ≤
          ((fields.map Prod.fst).map fun key ↦ 2 + (Json.quote key).length).sum := by
        rw [List.map_map]
        refine List.sum_le_sum fun field _ ↦ ?_
        have hquote := length_le_quote field.1
        simp only [Function.comp_apply]
        omega
      omega

theorem measures_le_size (h : Json.Everywhere Plain depth value) :
    nodes value ≤ size value ∧ minimumBytes value ≤ size value ∧ unconvertible value = 0 := by
  induction value using Json.children_induction generalizing depth with
  | step value ih =>
    have hchildren : ∀ child ∈ value.children, nodes child ≤ size child ∧
        minimumBytes child ≤ size child ∧ unconvertible child = 0 :=
      fun child hchild ↦ ih child hchild (((Json.everywhere_iff _ _ _).mp h).2 child hchild)
    have hnodes : (value.children.map nodes).sum ≤ (value.children.map size).sum :=
      List.sum_le_sum fun child hchild ↦ (hchildren child hchild).1
    have hminimum : (value.children.map minimumBytes).sum ≤ (value.children.map size).sum :=
      List.sum_le_sum fun child hchild ↦ (hchildren child hchild).2.1
    have hunconvertible : (value.children.map unconvertible).sum = 0 :=
      List.sum_eq_zero fun measure hmeasure ↦ by
        obtain ⟨child, hchild, rfl⟩ := List.mem_map.mp hmeasure
        exact (hchildren child hchild).2.2
    have hplain := ((Json.everywhere_iff _ _ _).mp h).1
    obtain ⟨hown, hscalar⟩ := own_le_size hplain
    refine ⟨?_, ?_, ?_⟩
    · rw [nodes_eq]
      omega
    · rw [minimumBytes_eq]
      omega
    · rw [unconvertible, Json.total_eq]
      refine Nat.add_eq_zero_iff.mpr ⟨?_, hunconvertible⟩
      cases value with
      | int number =>
        have hsmall : ¬10 ^ maxStrDigits ≤ number.natAbs :=
          not_le.mpr (hplain.2.trans_le ((by decide : 8 ≤ 10 ^ 1).trans
            (Nat.pow_le_pow_right (by decide) (by decide))))
        simp only [if_neg hsmall]
      | _ => rfl

theorem wirable_of_nodes (h : Json.Everywhere Plain 0 value) (hnodes : nodes value ≤ maxNodes)
    (hsize : size value ≤ maxBytes) : Wirable value := by
  obtain ⟨-, hminimum, hunconvertible⟩ := measures_le_size h
  refine ⟨⟨hnodes, hminimum.trans hsize, everywhere_mono (fun _ _ ↦ Plain.admissible) h⟩,
    (convertible_iff value).mpr hunconvertible, ?_⟩
  rw [length_canonicalBytes]
  exact hsize

theorem wirable_of_size (h : Json.Everywhere Plain 0 value) (hsize : size value ≤ maxNodes) : Wirable value :=
  wirable_of_nodes h ((measures_le_size h).1.trans hsize) (hsize.trans (by decide))

theorem size_texts_add_one {texts : List String} (h : texts ≠ []) :
    size (.arr (texts.map .str)) + 1 = 2 + (texts.map fun text ↦ 1 + (Json.quote text).length).sum := by
  rw [size_arr_add_one (by simpa using h), List.map_map]
  rfl

theorem everywhere_texts (h : depth < 64) (texts : List String) :
    Json.Everywhere Plain depth (.arr (texts.map .str)) := by
  rw [Json.everywhere_iff]
  refine ⟨h.le, ?_⟩
  simp only [Json.children, List.forall_mem_map]
  intro text _
  exact h

end UniMem.FrontierProtocol
