import UniMem.FrontierProtocol.Tracking
import UniMem.FrontierProtocol.Reload

/-!
# Retained checkpoints

A process keeps the rows that it has verified. It accepts a chain without them only when the chain starts with a
link whose count, which is cumulative, is at least their number (`state_extends_retained`).
-/

namespace UniMem.FrontierProtocol

open Library Library.RotatingLog MemoryAuthority

section Retention

variable {runtime : Runtime} {name : String} {past : List Event} {store final : Store}

variable {retained : ℕ} {cached journal : Journal} {chain : List Row}

theorem anchored_eq_true {signedRows : List Row} {tip : String}
    (h : anchored runtime signedRows retained tip = .ok true) :
    retained ≤ signedRows.length ∧ ∃ row, signedRows[retained - 1]? = some row ∧
      digest runtime (.obj row) = .ok tip := by
  unfold anchored at h
  by_cases hle : retained ≤ signedRows.length
  swap
  · rw [if_neg hle] at h
    cases h
  rw [if_pos hle] at h
  refine ⟨hle, ?_⟩
  cases hrow : signedRows[retained - 1]? with
  | none => simp [hrow] at h
  | some row =>
    refine ⟨row, rfl, ?_⟩
    simp only [hrow] at h
    cases hdigest : digest runtime (.obj row) with
    | error error => simp [hdigest] at h
    | ok text =>
      rw [hdigest, Py.map_ok, Except.ok.injEq, decide_eq_true_eq] at h
      rw [h]

theorem checkRetained_eq_ok {signedRows : List Row} (hne : cached.signed ≠ [])
    (h : checkRetained runtime (some cached) signedRows = .ok ()) :
    anchored runtime signedRows cached.signed.length cached.tip = .ok true ∨
      (anchored runtime signedRows cached.signed.length cached.tip ≠ .ok true ∧
        rotationAccepted signedRows cached.signed.length = true) := by
  simp only [checkRetained, if_neg hne] at h
  obtain ⟨anchor, hanchor, h⟩ := Py.of_bind h
  rw [Py.require_eq_ok_iff, Bool.or_eq_true] at h
  cases anchor with
  | true => exact Or.inl hanchor
  | false =>
    refine Or.inr ⟨?_, ?_⟩
    · rw [hanchor]
      simp
    · simpa using h

theorem rotationAccepted_eq_true {signedRows : List Row} (h : rotationAccepted signedRows retained = true) :
    ∃ row rest number, signedRows = row :: rest ∧ linkCount row = some number := by
  cases signedRows with
  | nil => cases h
  | cons row rest =>
    cases hcount : linkCount row with
    | none => simp [rotationAccepted, hcount] at h
    | some number => exact ⟨row, rest, number, rfl, hcount⟩

/-- The rotation hatch: a link that replaces retained rows is of this journal and counts all rows. -/
def LinkCounts (runtime : Runtime) (name : String) (past : List Event) (store : Store)
    (cached : Journal) : Prop :=
  ∀ row rest, rows runtime (store.content name) = .ok (row :: rest) →
    rotationAccepted (row :: rest) cached.signed.length = true →
    anchored runtime (row :: rest) cached.signed.length cached.tip ≠ .ok true →
    Owned past name row ∧ (∀ last ∈ cached.signed.getLast?, Owned past name last) ∧
      ∀ number, linkCount row = some number →
        cached.signed.length + ownCount linkCount cached.signed ≤ number

/-- The rows that were signed. -/
def known (past : List Event) : Set Json := {value | ∃ row ∈ signedRows past, canon row = value}

theorem injOn_known (h : Ideal runtime past store) :
    Set.InjOn (canonDigest runtime) (known past) := by
  rintro _ ⟨first, hfirst, rfl⟩ _ ⟨second, hsecond, rfl⟩ hdigest
  exact h.collisionFree first hfirst second hsecond hdigest

theorem mem_known {signed : List Row} (h : ∀ row ∈ signed, Once past row) :
    ∀ value ∈ canonRows signed, value ∈ known past := by
  intro value hvalue
  obtain ⟨row, hrow, rfl⟩ := List.mem_map.mp hvalue
  obtain ⟨other, hother, heq⟩ := h row hrow
  exact ⟨other, hother, heq.symm⟩

theorem ownCount_canonRows (signed : List Row) :
    ownCount canonCount (canonRows signed) = ownCount linkCount signed := by
  cases signed with
  | nil => rfl
  | cons row rest => rw [canonRows, List.map_cons, ownCount_cons, ownCount_cons, canonCount_canon]

theorem Verified.isPrefix (h : Verified runtime past cached) (hideal : Ideal runtime past store)
    {front : List Row} {last : Row} (hsigned : cached.signed = front ++ [last])
    (hchain : ChainLinked runtime chain) (honce : ∀ row ∈ chain, Once past row)
    (hmem : canon last ∈ canonRows chain) : canonRows cached.signed <+: canonRows chain := by
  have hlinked := h.linked
  have hknown := mem_known h.once
  rw [hsigned, canonRows_append] at hknown ⊢
  rw [ChainLinked, hsigned, canonRows_append] at hlinked
  exact hlinked.isPrefix_of_mem at_unique names_unique (injOn_known hideal) hchain hmem
    (fun value hvalue ↦ hknown value (List.mem_append_left _ hvalue)) (mem_known honce)

theorem isPrefix_of_anchored (hideal : Ideal runtime past store) (hcached : Verified runtime past cached)
    (hjournal : Verified runtime past journal) (hne : cached.signed ≠ [])
    (h : anchored runtime journal.signed cached.signed.length cached.tip = .ok true) :
    canonRows cached.signed <+: canonRows journal.signed := by
  obtain ⟨hle, row, hrow, hdigest⟩ := anchored_eq_true h
  obtain ⟨front, last, hsigned⟩ := List.eq_nil_or_concat cached.signed |>.resolve_left hne
  rw [List.concat_eq_append] at hsigned
  have hmemrow : row ∈ journal.signed := List.mem_of_getElem? hrow
  have htip : cached.tip = canonDigest runtime (canon last) := by
    rw [hcached.tip_eq, chainTip, hsigned, canonRows_append]
    exact tipOf_concat _ _ _
  have hmemlast : last ∈ cached.signed := by
    rw [hsigned]
    exact List.mem_append_right _ (List.mem_singleton_self last)
  have hcanon : canon row = canon last := by
    apply injOn_known hideal
    · exact mem_known hjournal.once _ (List.mem_map_of_mem hmemrow)
    · exact mem_known hcached.once _ (List.mem_map_of_mem hmemlast)
    · rw [canonDigest_of_digest hdigest, htip]
  refine hcached.isPrefix hideal hsigned hjournal.linked hjournal.once ?_
  rw [← hcanon]
  exact List.mem_map_of_mem hmemrow

theorem head_of_owned {row : Row} (hat : At (canon row) 0) (hlinked : ChainLinked runtime chain)
    (hmem : canon row ∈ canonRows chain) :
    ∃ rest, canonRows chain = canon row :: rest := by
  obtain ⟨before, after, hsplit⟩ := List.append_of_mem hmem
  rw [ChainLinked, hsplit, RotatingLog.linked_append] at hlinked
  have hindex := at_unique _ _ _ hat hlinked.2.1
  rw [Nat.zero_add] at hindex
  rw [List.length_eq_zero_iff.mp hindex.symm] at hsplit
  exact ⟨after, hsplit⟩

theorem extends_of_linkCounts (htracked : Tracked runtime name past store) (hideal : Ideal runtime past store)
    (hcached : Verified runtime past cached) (hjournal : Verified runtime past journal) (hne : cached.signed ≠ [])
    {row : Row} {rest : List Row} (hsigned : journal.signed = row :: rest) {number : ℤ}
    (hnumber : linkCount row = some number) (howned : Owned past name row)
    (hlast : ∀ last ∈ cached.signed.getLast?, Owned past name last)
    (hcount : cached.signed.length + ownCount linkCount cached.signed ≤ number) :
    Extends (RetiredBy past name) (canonRows cached.signed) (canonRows journal.signed) := by
  have hat : At (canon row) 0 := by
    have hlinked := hjournal.linked
    rw [hsigned] at hlinked
    exact hlinked.1
  obtain ⟨front, last, hfront⟩ := List.eq_nil_or_concat cached.signed |>.resolve_left hne
  rw [List.concat_eq_append] at hfront
  obtain ⟨chain, hchain, hmem⟩ := howned
  obtain ⟨tail, htail⟩ := head_of_owned hat (htracked.recorded.linked chain hchain) hmem
  obtain ⟨member, hmember, hmemlast⟩ := hlast last (by rw [hfront, List.getLast?_concat]; rfl)
  have hextends := hcached.isPrefix hideal hfront (htracked.recorded.linked member hmember)
    (fun other hother ↦ ⟨other, htracked.recorded.signed member hmember other hother, rfl⟩) hmemlast
  have hne' : canonRows cached.signed ≠ [] := by
    rw [canonRows, ne_eq, List.map_eq_nil_iff]
    exact hne
  have hrows : canonRows journal.signed = canon row :: canonRows rest := by
    rw [hsigned]
    rfl
  rw [hrows]
  refine htracked.recorded.succession.extends_of_count hne' (List.mem_map_of_mem hmember) hextends
    (by rw [← htail]; exact List.mem_map_of_mem hchain)
    ((canonCount_canon row).trans hnumber) ?_ _
  rw [ownCount_canonRows, canonRows, List.length_map]
  exact hcount

/-- If the hatch is sound, a process that reads a changed file extends what it retained. -/
theorem state_extends_retained (hrun : History runtime name past store)
    (hideal : Ideal runtime past store) {process : ℕ} {cached journal : Journal}
    (hcached : (store.caches process).lookup name = some cached) (hne : cached.signed ≠ [])
    (hchanged : ¬(cached.stamp = store.stamp name ∧ cached.pins = store.pins))
    (hlink : LinkCounts runtime name past store cached)
    (hstate : state runtime process name store = (.ok journal, final)) :
    Extends (RetiredBy past name) (canonRows cached.signed) (canonRows journal.signed) ∧
      ¬(canonRows journal.signed <+: canonRows cached.signed ∧ journal.signed.length < cached.signed.length) := by
  have htracked := Tracked.of_history hrun
  obtain ⟨-, hload, -⟩ := state_eq_ok hstate
  cases hload with
  | hit hhit hstamp hpins =>
    rw [hcached] at hhit
    obtain rfl := Option.some.inj hhit
    exact absurd ⟨hstamp, hpins⟩ hchanged
  | reloaded _ hreload =>
    have hretained := htracked.verified process cached (mem_of_lookup hcached)
    obtain ⟨hverified, -, hrows⟩ := Tracked.verified_of_reload hideal hreload
    have hcheck := (reload_eq_ok_iff.mp hreload).2.2.1
    rw [hcached] at hcheck
    rcases checkRetained_eq_ok hne hcheck with hanchor | ⟨hanchor, haccepted⟩
    · exact ⟨.keeps (isPrefix_of_anchored hideal hretained hverified hne hanchor),
        fun hstrict ↦ absurd (anchored_eq_true hanchor).1 (not_le.mpr hstrict.2)⟩
    · obtain ⟨row, rest, number, hsigned, hnumber⟩ := rotationAccepted_eq_true haccepted
      rw [hsigned] at hrows haccepted hanchor
      obtain ⟨howned, hlast, hcount⟩ := hlink row rest hrows haccepted hanchor
      refine ⟨extends_of_linkCounts htracked hideal hretained hverified hne hsigned hnumber howned
        hlast (hcount number hnumber), fun hstrict ↦ ?_⟩
      -- A strict prefix starts with the link of the retained rows, which does not count them.
      have hown := ownCount_of_isPrefix canonCount (by rw [hsigned]; exact List.cons_ne_nil _ _)
        hstrict.1
      rw [ownCount_canonRows, ownCount_canonRows, hsigned, ownCount_cons, hnumber, Option.getD_some] at hown
      have hpos : 0 < cached.signed.length := List.length_pos_iff.mpr hne
      have hle := hcount number hnumber
      rw [← hown] at hle
      omega

end Retention


/-! ## A rotation that is followed and a truncation that is not noticed

Two rotations of a queue, each carrying one item. A process that retains the first chain follows
the second rotation. Once it retains the second chain, it also accepts the file cut down to its
link: the link counts two rows, as many as the process retains. -/

namespace Rotation

def signedRow (record : Row) (digest : String) : Row :=
  [("record", .obj record), ("principal", .str "local"), ("organization", .str "local-store"),
    ("authority", .str "operator"), ("digest", .str digest), ("signature", .str "0")]

def linkBody (tip : String) (count : ℤ) : Row :=
  [("kind", .str "rotation"), ("previous_tip", .str tip), ("previous_count", .int count),
    ("sequence", .int 0), ("previous", .str ""), ("recorded_at", .str Sample.now)]

def itemBody (item previous : String) : Row :=
  [("item", .str item), ("sequence", .int 1), ("previous", .str previous), ("recorded_at", .str Sample.now)]

def firstLink : Row := signedRow (linkBody "" 0) "125"

def firstItem : Row := signedRow (itemBody "x" "239") "84"

def secondLink : Row := signedRow (linkBody "197" 2) "128"

def secondItem : Row := signedRow (itemBody "yy" "242") "85"

/-- The rows of the example. -/
def written : List Row := [firstLink, firstItem, secondLink, secondItem]

/-- Digests are sizes, which differ for the rows of the example. -/
def runtime : Runtime where
  sha256 bytes := toString bytes.length
  hmacSha256 _ _ := "0"
  ed25519PublicBytes key := key
  ed25519Sign _ _ := "0"
  ed25519Verify _ _ _ := true
  jsonLoads bytes := (written.find? fun row ↦ line row = bytes).map .obj
  retainedSize _ := 0

/-- A store with a key and no journals. -/
def store : Store where
  clock := 0
  files _ := none
  signing := ⟨.hmacSha256, none, some (List.replicate 32 0), none⟩
  pins := 0
  caches _ := []

theorem sha256_eq {value : Json} {text : String} (h : toString (value.encode .compact).length = text) :
    runtime.sha256 (canonicalBytes value) = text := by
  rw [← h, ← Json.length_encode_sortKeys]
  rfl

theorem measures : (written.map line).Nodup ∧ (written.map fun row ↦ ((Json.obj row).encode .compact).length).Nodup ∧
      ∀ row ∈ written, nodes (.obj row) ≤ maxNodes ∧ minimumBytes (.obj row) ≤ maxBytes ∧
        convertible (.obj row) = true ∧ (dumps (.obj row)).length < maxBytes ∧ (line row).length ≤ 1000 := by
  decide +kernel

/-- The sizes and digests of the rows of a rotation. -/
abbrev Measured (tip : String) (count : ℤ) (item link digest chained signed : String) : Prop :=
  ((minimumBytes (.obj (linkBody tip count)) ≤ maxBytes ∧ convertible (.obj (linkBody tip count)) = true ∧
      (dumps (.obj (linkBody tip count))).length ≤ maxBytes) ∧
    toString ((Json.obj (linkBody tip count)).encode .compact).length = link ∧
    toString ((Json.obj (signedRow (linkBody tip count) link)).encode .compact).length = digest) ∧
  (minimumBytes (.obj (itemBody item digest)) ≤ maxBytes ∧ convertible (.obj (itemBody item digest)) = true ∧
      (dumps (.obj (itemBody item digest))).length ≤ maxBytes) ∧
    toString ((Json.obj (itemBody item digest)).encode .compact).length = chained ∧
    toString ((Json.obj (signedRow (itemBody item digest) chained)).encode .compact).length = signed

theorem lengths : toString ((Json.obj secondItem).encode .compact).length = "198" ∧
    toString ((Json.obj secondLink).encode .compact).length = "242" ∧
    ((Json.obj firstLink).encode .compact).length ≠ ((Json.obj secondLink).encode .compact).length ∧
    Measured "" 0 "x" "125" "239" "84" "197" ∧ Measured "197" 2 "yy" "128" "242" "85" "198" := by
  decide +kernel

variable {tip item : String} {row record : Row} {before : Store}

theorem length_line_le (hrow : row ∈ written) : (line row).length ≤ 1000 :=
  (measures.2.2 row hrow).2.2.2.2

theorem loads_line (hrow : row ∈ written) :
    runtime.jsonLoads (line row) = some (.obj row) := by
  have hnodup := measures.1
  change (written.find? fun other ↦ line other = line row).map Json.obj = _
  cases hfind : written.find? fun other ↦ line other = line row with
  | none =>
    have hnone := List.find?_eq_none.mp hfind row hrow
    simp at hnone
  | some other =>
    have hline : line other = line row := by simpa using List.find?_some hfind
    rw [List.inj_on_of_nodup_map hnodup (List.mem_of_find?_eq_some hfind) hrow hline]
    rfl

theorem wirable_linkBody {count : ℤ} (hminimum : minimumBytes (.obj (linkBody tip count)) ≤ maxBytes)
    (hconvertible : convertible (.obj (linkBody tip count)) = true)
    (hlength : (dumps (.obj (linkBody tip count))).length ≤ maxBytes) :
    Wirable (.obj (linkBody tip count)) := by
  refine wirable_of_dumps ⟨?_, hminimum, ?_⟩ hconvertible hlength
  · have hnodes : nodes (.obj (linkBody tip count)) = 7 := rfl
    rw [hnodes]
    decide
  · simp [Json.Everywhere, Json.EverywhereFields, linkBody, NodeAdmissible]

theorem wirable_itemBody {previous : String} (hminimum : minimumBytes (.obj (itemBody item previous)) ≤ maxBytes)
    (hconvertible : convertible (.obj (itemBody item previous)) = true)
    (hlength : (dumps (.obj (itemBody item previous))).length ≤ maxBytes) :
    Wirable (.obj (itemBody item previous)) := by
  refine wirable_of_dumps ⟨?_, hminimum, ?_⟩ hconvertible hlength
  · have hnodes : nodes (.obj (itemBody item previous)) = 5 := rfl
    rw [hnodes]
    decide
  · simp [Json.Everywhere, Json.EverywhereFields, itemBody, NodeAdmissible]

theorem stored (hrow : row ∈ written) : Stored runtime row := by
  obtain ⟨hnodes, hminimum, hconvertible, hlength, -⟩ := measures.2.2 row hrow
  have hadmissible : ∀ row ∈ written, Json.Everywhere NodeAdmissible 0 (.obj row) := by
    simp [written, Json.Everywhere, Json.EverywhereFields, firstLink, firstItem, secondLink,
      secondItem, signedRow, linkBody, itemBody, NodeAdmissible]
  exact ⟨wirable_of_dumps ⟨hnodes, hminimum, hadmissible row hrow⟩ hconvertible hlength.le, hlength.le,
    loads_line hrow⟩

theorem digest_eq (hrow : row ∈ written) {text : String}
    (h : toString ((Json.obj row).encode .compact).length = text) :
    digest runtime (.obj row) = .ok text :=
  digest_eq_ok_iff.mpr ⟨(stored hrow).wirable, sha256_eq h⟩

theorem admitted (hrow : row ∈ written) {size : ℕ} (hsize : size ≤ 1000) {text : String}
    (h : toString ((Json.obj row).encode .compact).length = text) :
    Admitted runtime row size text := by
  have hmax : 2000 ≤ 64 * maxBytes := by decide
  exact ⟨(stored hrow).wirable, (stored hrow).length_dumps_le,
    (add_le_add hsize (length_line_le hrow)).trans hmax, digest_eq hrow h⟩

/-- The signing files of the example. -/
abbrev signing : Signing := ⟨.hmacSha256, none, some (List.replicate 32 0), none⟩

theorem sign_row {digest : String} (hsigning : before.signing = signing) (hwirable : Wirable (.obj record))
    (hdigest : toString ((Json.obj record).encode .compact).length = digest) :
    sign runtime Sample.writer record before = (.ok (signedRow record digest), before) := by
  have hkeep : before.prepareKey Sample.writer = before := by
    rw [Store.prepareKey, hsigning, if_neg (by simp)]
  have hbind : bindWith runtime (before.prepareKey Sample.writer).signing Sample.writer record =
      .ok (signedRow record digest) := by
    rw [hkeep, hsigning, signedRow, ← sha256_eq hdigest]
    rfl
  rw [sign_of hwirable hbind, hkeep]

theorem signRows_pair (hsigning : before.signing = signing) {count : ℤ}
    {linkDigest linkTip itemDigest itemTip : String}
    (hrecord : sequenced record 0 "" Sample.now = linkBody tip count)
    (hlink : Wirable (.obj (linkBody tip count)))
    (hlinkDigest : toString ((Json.obj (linkBody tip count)).encode .compact).length = linkDigest)
    (hlinkRow : signedRow (linkBody tip count) linkDigest ∈ written)
    (hlinkTip : toString ((Json.obj (signedRow (linkBody tip count) linkDigest)).encode .compact).length = linkTip)
    (hitem : Wirable (.obj (itemBody item linkTip)))
    (hitemDigest : toString ((Json.obj (itemBody item linkTip)).encode .compact).length = itemDigest)
    (hitemRow : signedRow (itemBody item linkTip) itemDigest ∈ written)
    (hitemTip : toString ((Json.obj (signedRow (itemBody item linkTip) itemDigest)).encode .compact).length =
      itemTip) :
    signRows runtime Sample.writer (fun _ ↦ Sample.now) 0 "" 0 [record, [("item", .str item)]]
      before = (.ok ([signedRow (linkBody tip count) linkDigest,
        signedRow (itemBody item linkTip) itemDigest], itemTip), before) := by
  have hsignLink : sign runtime Sample.writer (sequenced record 0 "" Sample.now) before =
      (.ok (signedRow (linkBody tip count) linkDigest), before) := by
    rw [hrecord]
    exact sign_row hsigning hlink hlinkDigest
  have hsignItem : sign runtime Sample.writer
      (sequenced [("item", .str item)] 1 linkTip Sample.now) before =
      (.ok (signedRow (itemBody item linkTip) itemDigest), before) :=
    sign_row hsigning hitem hitemDigest
  have hsize : 0 + (line (signedRow (linkBody tip count) linkDigest)).length ≤ 1000 := by
    rw [Nat.zero_add]
    exact length_line_le hlinkRow
  exact signRows_cons_of hsignLink (admitted hlinkRow (Nat.zero_le _) hlinkTip)
    (signRows_cons_of hsignItem (admitted hitemRow hsize hitemTip) rfl)

def queue : String := "queue.jsonl"

theorem filename_queue : filename queue = .ok queue := rfl

/-- The store after the first rotation. -/
def afterFirst : Store :=
  ((store.setCache 0 [(queue, ⟨none, 0, [], "", 0⟩)]).write queue ([firstLink, firstItem].flatMap line)).setCache 0 []

theorem state_start : state runtime 0 queue store =
    (.ok ⟨none, 0, [], "", 0⟩, store.setCache 0 [(queue, ⟨none, 0, [], "", 0⟩)]) := by
  have hreload : reload runtime store queue queue none = .ok ⟨none, 0, [], "", 0⟩ :=
    reload_eq_ok_iff.mpr ⟨Tracked.rows_nil runtime, rfl, rfl, rfl, rfl, rfl⟩
  rw [state_of_fresh filename_queue rfl, hreload]
  rfl

theorem rotate_first : rotateHeld runtime 0 Sample.writer queue [[("item", .str "x")]] (fun _ ↦ Sample.now) store =
      (.ok (⟨none, 0, [], "", 0⟩, [firstLink, firstItem], "197"), afterFirst) := by
  obtain ⟨⟨⟨hminimum, hconvertible, hlength⟩, hlink, hdigest⟩, ⟨hminimum', hconvertible', hlength'⟩, hchained,
    hsigned⟩ := lengths.2.2.2.1
  exact rotateHeld_of filename_queue (by decide) state_start (signRows_pair rfl rfl
    (wirable_linkBody hminimum hconvertible hlength) hlink (by simp [written, firstLink]) hdigest
    (wirable_itemBody hminimum' hconvertible' hlength') hchained (by simp [written, firstItem]) hsigned)

theorem holds_first : Holds runtime queue [firstLink, firstItem] "197" afterFirst := by
  have hstart : Holds runtime queue [] "" store :=
    Holds.start rfl (fun _ ↦ rfl) fun bytes hbytes ↦ by cases hbytes
  refine hstart.rotate (fun _ _ ↦ rfl) rotate_first ?_
  simp only [List.forall_mem_cons]
  exact ⟨loads_line (by simp [written]), loads_line (by simp [written]), by simp⟩

theorem length_ne {signed : List Row} (h : ∀ row ∈ signed, row ∈ written) :
    ∀ row ∈ signed, (dumps (.obj row)).length ≠ maxBytes := by
  exact fun row hrow ↦ (measures.2.2 row (h row hrow)).2.2.2.1.ne

/-- What the second process then reads. -/
def firstJournal : Journal := freshJournal runtime queue afterFirst [firstLink, firstItem] "197"

def afterRead : Store := afterFirst.setCache 1 [(queue, firstJournal)]

theorem state_first : state runtime 1 queue afterFirst = (.ok firstJournal, afterRead) :=
  holds_first.state_fresh filename_queue rfl (length_ne (by simp [written]))

theorem holds_read : Holds runtime queue [firstLink, firstItem] "197" afterRead :=
  (holds_first.state state_first).1

/-- The first process rotates again. -/
def secondLoaded : Store :=
  afterRead.setCache 0
    [(queue, freshJournal runtime queue afterRead [firstLink, firstItem] "197")]

def afterSecond : Store :=
  (secondLoaded.write queue ([secondLink, secondItem].flatMap line)).setCache 0 []

theorem state_second : state runtime 0 queue afterRead =
    (.ok (freshJournal runtime queue afterRead [firstLink, firstItem] "197"), secondLoaded) :=
  holds_read.state_fresh filename_queue rfl (length_ne (by simp [written]))

theorem rotate_second : rotateHeld runtime 0 Sample.writer queue [[("item", .str "yy")]]
    (fun _ ↦ Sample.now) afterRead = (.ok (freshJournal runtime queue afterRead [firstLink, firstItem] "197",
        [secondLink, secondItem], "198"), afterSecond) := by
  obtain ⟨⟨⟨hminimum, hconvertible, hlength⟩, hlink, hdigest⟩, ⟨hminimum', hconvertible', hlength'⟩, hchained,
    hsigned⟩ := lengths.2.2.2.2
  exact rotateHeld_of filename_queue (by decide) state_second (signRows_pair rfl rfl
    (wirable_linkBody hminimum hconvertible hlength) hlink (by simp [written, secondLink]) hdigest
    (wirable_itemBody hminimum' hconvertible' hlength') hchained (by simp [written, secondItem]) hsigned)

theorem holds_second : Holds runtime queue [secondLink, secondItem] "198" afterSecond := by
  refine holds_read.rotate (fun _ _ ↦ rfl) rotate_second ?_
  simp only [List.forall_mem_cons]
  exact ⟨loads_line (by simp [written]), loads_line (by simp [written]), by simp⟩

/-- The second process follows the rotation. -/
def secondJournal : Journal := freshJournal runtime queue afterSecond [secondLink, secondItem] "198"

def afterFollow : Store := afterSecond.setCache 1 [(queue, secondJournal)]

theorem lookup_afterSecond : (afterSecond.caches 1).lookup queue = some firstJournal := rfl

theorem changed_second :
    ¬(firstJournal.stamp = afterSecond.stamp queue ∧ firstJournal.pins = afterSecond.pins) := by
  rintro ⟨hstamp, -⟩
  have hversion : (0 : ℕ) = 1 := congrArg (fun stamp ↦ (stamp.map Stamp.version).getD 0) hstamp
  cases hversion

theorem anchored_second : anchored runtime [secondLink, secondItem] 2 "197" = .ok false := by
  have hdigest : digest runtime (.obj secondItem) = .ok "198" :=
    digest_eq (by simp [written]) lengths.1
  change (fun text ↦ decide (text = "197")) <$> digest runtime (.obj secondItem) = _
  rw [hdigest]
  rfl

theorem state_follow : state runtime 1 queue afterSecond = (.ok secondJournal, afterFollow) := by
  have hrows := holds_second.rows_content
  rw [if_pos (length_ne (by simp [written]))] at hrows
  have hcheck : checkRetained runtime (some firstJournal) [secondLink, secondItem] = .ok () := by
    change (anchored runtime [secondLink, secondItem] 2 "197" >>= _) = _
    rw [anchored_second]
    rfl
  exact state_of_reload filename_queue lookup_afterSecond changed_second
    (reload_eq_ok_iff.mpr ⟨hrows, holds_second.chain, hcheck, rfl, rfl, rfl⟩)

/-- Someone cuts the file down to its link. -/
def afterCut : Store := afterFollow.edit queue (some (line secondLink))

def cutJournal : Journal := freshJournal runtime queue afterCut [secondLink] "242"

theorem lookup_afterCut : (afterCut.caches 1).lookup queue = some secondJournal := rfl

theorem changed_cut :
    ¬(secondJournal.stamp = afterCut.stamp queue ∧ secondJournal.pins = afterCut.pins) := by
  rintro ⟨hstamp, -⟩
  have hversion : (1 : ℕ) = 2 := congrArg (fun stamp ↦ (stamp.map Stamp.version).getD 0) hstamp
  cases hversion

theorem rows_cut : rows runtime (afterCut.content queue) = .ok [secondLink] := by
  have hcontent : afterCut.content queue = [secondLink].flatMap line := (List.append_nil _).symm
  have hlength : (line secondLink).length ≤ 64 * maxBytes :=
    (length_line_le (by simp [written])).trans (by decide)
  rw [rows, hcontent, rowsLoop_lines (fun row hrow ↦ stored (by simp_all [written])) (by simpa using hlength)
    (by decide), if_pos (length_ne (by simp [written]))]
  rfl

theorem state_cut : state runtime 1 queue afterCut = (.ok cutJournal, afterCut.setCache 1 [(queue, cutJournal)]) := by
  have hchain : verifyChain runtime signing queue 0 "" [secondLink] = .ok "242" := by
    have hboth := holds_second.chain
    obtain ⟨hvalid, -⟩ := verifyChain_cons_eq_ok_iff.mp hboth
    exact verifyChain_cons_eq_ok_iff.mpr ⟨hvalid, "242",
      digest_eq (by simp [written]) lengths.2.1, rfl⟩
  exact state_of_reload filename_queue lookup_afterCut changed_cut
    (reload_eq_ok_iff.mpr ⟨rows_cut, hchain, rfl, rfl, rfl, rfl⟩)

def firstPast : List Event := [.rotated queue [] [firstLink, firstItem]]

def secondPast : List Event :=
  firstPast ++ [.rotated queue [firstLink, firstItem] [secondLink, secondItem]]

theorem canonDigest_injOn {first second : Row} (hfirst : first ∈ written) (hsecond : second ∈ written)
    (h : canonDigest runtime (canon first) = canonDigest runtime (canon second)) :
    first = second := by
  have hnodup := measures.2.1
  have hlength (row : Row) : canonDigest runtime (canon row) =
      toString ((Json.obj row).encode .compact).length :=
    congrArg toString (Json.length_encode_sortKeys .compact (.obj row))
  rw [hlength, hlength] at h
  exact List.inj_on_of_nodup_map hnodup hfirst hsecond (Nat.repr_inj.mp h)

theorem ideal {past : List Event} {now : Store} {found : List Row}
    (hfiles : ∀ path, path ≠ queue → now.files path = none) (hrows : rows runtime (now.content queue) = .ok found)
    (hfound : ∀ row ∈ found, row ∈ signedRows past)
    (hwritten : ∀ row ∈ signedRows past, row ∈ written) : Ideal runtime past now := by
  refine ⟨?_, ?_⟩
  · intro path other hother row hrow _
    rcases eq_or_ne path queue with rfl | hne
    · rw [hrows] at hother
      obtain rfl := Except.ok.inj hother
      exact ⟨row, hfound row hrow, rfl⟩
    · rw [Store.content, hfiles path hne, Option.elim_none, Tracked.rows_nil] at hother
      obtain rfl := Except.ok.inj hother
      exact absurd hrow List.not_mem_nil
  · intro first hfirst second hsecond hdigest
    rw [canonDigest_injOn (hwritten first hfirst) (hwritten second hsecond) hdigest]

theorem files_of_ne {path : String} (h : path ≠ queue) :
    afterFirst.files path = none ∧ afterSecond.files path = none ∧ afterCut.files path = none := by
  refine ⟨?_, ?_, ?_⟩
  · exact Function.update_of_ne h _ _
  · exact (Function.update_of_ne h _ _).trans (Function.update_of_ne h _ _)
  · exact (Function.update_of_ne h _ _).trans
      ((Function.update_of_ne h _ _).trans (Function.update_of_ne h _ _))

theorem rows_first : rows runtime (afterFirst.content queue) = .ok [firstLink, firstItem] := by
  rw [holds_first.rows_content, if_pos (length_ne (by simp [written]))]

theorem rows_second : rows runtime (afterSecond.content queue) = .ok [secondLink, secondItem] := by
  rw [holds_second.rows_content, if_pos (length_ne (by simp [written]))]

theorem ideal_first : Ideal runtime firstPast afterFirst :=
  ideal (fun _ h ↦ (files_of_ne h).1) rows_first
    (by simp [signedRows, firstPast, Event.rows])
    (by simp [signedRows, firstPast, Event.rows, written])

theorem ideal_second : Ideal runtime secondPast afterSecond :=
  ideal (fun _ h ↦ (files_of_ne h).2.1) rows_second
    (by simp [signedRows, secondPast, firstPast, Event.rows])
    (by simp [signedRows, secondPast, firstPast, Event.rows, written])

theorem ideal_cut : Ideal runtime secondPast afterCut :=
  ideal (fun _ h ↦ (files_of_ne h).2.2) rows_cut
    (by simp [signedRows, secondPast, firstPast, Event.rows])
    (by simp [signedRows, secondPast, firstPast, Event.rows, written])

theorem history_first : History runtime queue firstPast afterFirst := by
  have hideal : Ideal runtime [] store :=
    ideal (fun _ _ ↦ rfl) (Tracked.rows_nil runtime) (by simp) (by simp [signedRows])
  have hstart : History runtime queue [] store := .start (fun _ ↦ rfl) fun _ ↦ rfl
  refine .step hstart hideal (.rotate rotate_first) ?_
  intro event hevent
  rw [List.mem_singleton.mp hevent]
  exact fun _ ↦ ⟨[], Tracked.rows_nil runtime, rfl⟩

theorem history_second : History runtime queue secondPast afterSecond := by
  have hread : History runtime queue (firstPast ++ []) afterRead :=
    .step history_first ideal_first (.state state_first) (by simp)
  rw [List.append_nil] at hread
  refine .step hread ⟨ideal_first.unforgeable, ideal_first.collisionFree⟩ (.rotate rotate_second) ?_
  intro event hevent
  rw [List.mem_singleton.mp hevent]
  exact fun _ ↦ ⟨[firstLink, firstItem], rows_first, rfl⟩

theorem history_cut : History runtime queue secondPast afterCut := by
  have hfollow : History runtime queue (secondPast ++ []) afterFollow :=
    .step history_second ideal_second (.state state_follow) (by simp)
  rw [List.append_nil] at hfollow
  have hcut : History runtime queue (secondPast ++ []) afterCut :=
    .step hfollow ⟨ideal_second.unforgeable, ideal_second.collisionFree⟩ (.edit rfl) (by simp)
  rwa [List.append_nil] at hcut

theorem linkCounts_second : LinkCounts runtime queue secondPast afterSecond firstJournal := by
  intro row rest hrows _ _
  rw [rows_second] at hrows
  obtain ⟨rfl, rfl⟩ := List.cons.inj (Except.ok.inj hrows)
  refine ⟨⟨[secondLink, secondItem], List.mem_cons_self, List.mem_cons_self⟩, ?_, ?_⟩
  · intro last hlast
    obtain rfl := Option.some.inj hlast
    exact ⟨[firstLink, firstItem], List.mem_cons_of_mem _ List.mem_cons_self,
      List.mem_cons_of_mem _ List.mem_cons_self⟩
  · intro number hnumber
    obtain rfl := Option.some.inj hnumber
    decide

theorem canon_links_ne : canon firstLink ≠ canon secondLink := by
  intro h
  have hlength := congrArg (fun value ↦ (Json.encode .compact value).length) h
  simp only [canon, Json.length_encode_sortKeys] at hlength
  exact lengths.2.2.1 hlength

theorem not_extends_cut : ¬Extends (RetiredBy secondPast queue) (canonRows secondJournal.signed)
    (canonRows cutJournal.signed) := by
  have hnil : ¬Extends (RetiredBy secondPast queue) (canonRows secondJournal.signed) [] := by
    intro h
    cases h with
    | keeps hextends => exact absurd (List.prefix_nil.mp hextends) (List.cons_ne_nil _ _)
  have hfirst : ¬Extends (RetiredBy secondPast queue) (canonRows secondJournal.signed)
      (canonRows [firstLink, firstItem]) := by
    intro h
    cases h with
    | keeps hextends => exact canon_links_ne (List.cons_prefix_cons.mp hextends).1.symm
    | rotated hretires hold =>
      obtain ⟨retired, out, hevent, rfl, hhead⟩ := hretires
      simp only [secondPast, firstPast, List.singleton_append, List.mem_cons, Event.rotated.injEq,
        List.not_mem_nil, or_false, true_and] at hevent
      rcases hevent with ⟨rfl, rfl⟩ | ⟨rfl, rfl⟩
      · exact hnil hold
      · exact canon_links_ne (Option.some.inj hhead).symm
  intro h
  cases h with
  | keeps hextends => exact absurd hextends.length_le (by decide)
  | rotated hretires hold =>
    obtain ⟨retired, out, hevent, rfl, hhead⟩ := hretires
    simp only [secondPast, firstPast, List.singleton_append, List.mem_cons, Event.rotated.injEq,
      List.not_mem_nil, or_false, true_and] at hevent
    rcases hevent with ⟨rfl, rfl⟩ | ⟨rfl, rfl⟩
    · exact canon_links_ne (Option.some.inj hhead)
    · exact hfirst hold

end Rotation

/-- The process that retains the first chain follows the second rotation. -/
theorem state_follows_rotation :
    Extends (RetiredBy Rotation.secondPast Rotation.queue)
        (canonRows Rotation.firstJournal.signed) (canonRows Rotation.secondJournal.signed) ∧
      ¬(canonRows Rotation.secondJournal.signed <+: canonRows Rotation.firstJournal.signed ∧
        Rotation.secondJournal.signed.length < Rotation.firstJournal.signed.length) :=
  state_extends_retained Rotation.history_second Rotation.ideal_second Rotation.lookup_afterSecond
    (List.cons_ne_nil _ _) Rotation.changed_second Rotation.linkCounts_second
    Rotation.state_follow

/-- The process that retains the second chain accepts a strict prefix of it. -/
theorem state_accepts_truncation :
    History Rotation.runtime Rotation.queue Rotation.secondPast Rotation.afterCut ∧
      Ideal Rotation.runtime Rotation.secondPast Rotation.afterCut ∧
      (Rotation.afterCut.caches 1).lookup Rotation.queue = some Rotation.secondJournal ∧
      Rotation.secondJournal.signed = [Rotation.secondLink, Rotation.secondItem] ∧
      ¬(Rotation.secondJournal.stamp = Rotation.afterCut.stamp Rotation.queue ∧
        Rotation.secondJournal.pins = Rotation.afterCut.pins) ∧
      ∃ final, state Rotation.runtime 1 Rotation.queue Rotation.afterCut =
        (.ok Rotation.cutJournal, final) ∧ Rotation.cutJournal.signed = [Rotation.secondLink] ∧
      ¬Extends (RetiredBy Rotation.secondPast Rotation.queue)
        (canonRows Rotation.secondJournal.signed) (canonRows Rotation.cutJournal.signed) :=
  ⟨Rotation.history_cut, Rotation.ideal_cut, Rotation.lookup_afterCut, rfl, Rotation.changed_cut,
    _, Rotation.state_cut, rfl, Rotation.not_extends_cut⟩

end UniMem.FrontierProtocol
