import UniMem.ChangeStream.Cursor

/-!
# Pages of a change stream

`_poll` fills a page with the events after its cursor. Which removals it shows depends on the targets that the
subscriber knows, from the recorded deliveries or from the page.
-/

namespace UniMem.ChangeStream

open Library FrontierProtocol MemoryAuthority

/-! ## Polls -/

/-- What the store answers in the context of a subscriber. -/
structure Answers where
  /-- `nextwave_store.visible`. -/
  visible : List String → Bool
  /-- `nextwave_store.admit` on one identity. -/
  admitted : String → Py (Option Row)
  /-- The category of a fact. -/
  category : String → Py (Option String)
  /-- Whether the text of what is admitted mentions an entity. -/
  mentions : String → Option Row → Bool
  /-- `fp.digest(event)`. -/
  eventDigest : ℕ → Published → Py String
  /-- Whether a row fits into the journal of deliveries. -/
  fits : List Delivery → Delivery → Bool

/-- An entry of a page. -/
structure Item where
  cursorSequence : ℕ
  kind : Kind
  id : String
  revision : Json
  eventDigest : String
  memory : Option Row

def Item.json (item : Item) : Json :=
  .obj ([("cursor_sequence", .int item.cursorSequence), ("kind", .str item.kind.name), ("id", .str item.id),
    ("revision", item.revision), ("provenance", .obj [("event_digest", .str item.eventDigest),
      ("payload", .str "current admitted view; not historical content")])] ++
    (match item.memory with
      | some memory => [("memory", .obj memory)]
      | none => []))

/-- The kinds that are shown even when nothing is admitted. -/
def removal : Kind → Bool
  | .erase | .retract | .quarantine | .supersede => true
  | .assert | .contradict => false

/-- `admitted[event["target"]]`. -/
def admittedView (answers : Answers) (event : Event) : Py (Option Row) :=
  if answers.visible event.scopes then answers.admitted event.target else .ok none

def predicateMatches (answers : Answers) (subscription : Subscription) (event : Event) (found : Option Row) :
    Py Bool :=
  if subscription.predicate = "" then .ok true
  else do
    let category ← if found.isSome then answers.category event.target else .ok none
    return subscription.predicate = category.getD event.predicate

def entityMatches (answers : Answers) (subscription : Subscription) (event : Event) (found : Option Row) : Bool :=
  subscription.entity = "" || subscription.entity = event.entity || answers.mentions subscription.entity found

/-- The admitted view of an event that is a current match. -/
def currentMatch (answers : Answers) (subscription : Subscription) (event : Event) : Py (Option Row) := do
  let found ← admittedView answers event
  let matched ← predicateMatches answers subscription event found
  return if matched ∧ entityMatches answers subscription event found ∧ removal event.kind = false then found else none

/-- The entry of an event that is not a current match. -/
def removalItem (answers : Answers) (place : ℕ) (change : Published) : Py Item := do
  let digest ← answers.eventDigest place change
  let kind := if removal change.event.kind then change.event.kind else .retract
  return ⟨place, kind, change.event.target, .str "", digest, none⟩

def currentItem (answers : Answers) (place : ℕ) (change : Published) (view : Row) : Py Item := do
  let digest ← answers.eventDigest place change
  return ⟨place, change.event.kind, change.event.target, (view.lookup "revision").getD (.str ""), digest, some view⟩

/-- The entry of an event for a subscriber that knows its target or not. -/
def itemOf (answers : Answers) (subscription : Subscription) (known : Bool) (place : ℕ) (change : Published) :
    Py (Option Item) :=
  if subscription.nameSpace ≠ "" ∧ subscription.nameSpace ≠ change.event.nameSpace then .ok none
  else do
    match ← currentMatch answers subscription change.event with
    | some view => some <$> currentItem answers place change view
    | none => if known then some <$> removalItem answers place change else .ok none

/-- One call of `_poll` for a subscriber with the numbers delivered to it. -/
structure Poll where
  identity : String
  subscription : Subscription
  now : ℤ
  limit : ℤ
  recordDelivery : Bool
  delivered : List ℕ

def batchBytes : ℕ := 512 * 1024

def tooLarge : PyError := .valueError "UniMem single change exceeds the stream batch bound"

/-- What the loop of `_poll` has gathered. -/
structure Page where
  items : List Item
  bytesUsed : ℕ
  known : List String
  deliveries : List Delivery
  position : ℕ

/-- The row of a delivery. -/
def deliveryOf (poll : Poll) (place : ℕ) (change : Published) (digest : String) : Delivery where
  subscriber := poll.identity
  sequenceNumber := place
  target := change.event.target
  eventDigest := digest
  eraseAckRequired := change.event.kind = .erase
  deadline := poll.now + poll.subscription.ackSeconds * microseconds

/-- Record a delivery unless its number was delivered before. -/
def recordDelivery (answers : Answers) (poll : Poll) (delivery : Delivery) (deliveries : List Delivery) :
    Py (List Delivery) :=
  if delivery.sequenceNumber ∈ poll.delivered ∨ poll.recordDelivery = false then .ok deliveries
  else do
    Py.require (answers.fits deliveries delivery) (.valueError "journal exceeds 64 MiB; rotate it")
    return deliveries ++ [delivery]

/-- The loop of `_poll` over the events from a place on. -/
def pollLoop (answers : Answers) (poll : Poll) : ℕ → List Published → Page → Py Page
  | _, [], page => .ok page
  | place, change :: changes, page => do
    match ← itemOf answers poll.subscription (change.event.target ∈ page.known) place change with
    | none => pollLoop answers poll (place + 1) changes { page with position := place + 1 }
    | some item => do
      let encoded ← wire item.json
      if batchBytes < page.bytesUsed + encoded.length then do
        Py.require (page.items.length ≠ 0) tooLarge
        return { page with position := place }
      else do
        let deliveries ← recordDelivery answers poll (deliveryOf poll place change item.eventDigest) page.deliveries
        let next : Page := ⟨page.items ++ [item], page.bytesUsed + encoded.length, change.event.target :: page.known,
          deliveries, place + 1⟩
        if (next.items.length : ℤ) = poll.limit then return next
        else pollLoop answers poll (place + 1) changes next

/-- `_subscription`. -/
def subscriptionFor (caller : Caller) (journals : Journals) (identity : String) : Py Subscription := do
  let subscription ← caller.get false identity
  Py.require (subscription.principal = caller.principal)
    (.permissionError "UniMem stream belongs to another principal")
  let result ← obligations caller journals identity []
  Py.require (result.cutOff = false)
    (.permissionError "UniMem subscriber is cut off pending overdue erasure acknowledgement")
  return subscription

/-- `_deliveries`: the last row of each sequence number. -/
def Journals.delivered (journals : Journals) (identity : String) : List (ℕ × Delivery) :=
  index Delivery.sequenceNumber (journals.deliveries.filter (·.subscriber = identity))

/-- The numbers that were delivered to a subscriber. -/
abbrev Journals.numbers (journals : Journals) (identity : String) : List ℕ :=
  (journals.delivered identity).map Prod.fst

/-- The targets that a subscriber knows. -/
abbrev Journals.known (journals : Journals) (identity : String) : List String :=
  (journals.delivered identity).map fun row ↦ row.2.target

/-- A subscriber and what it polls. -/
structure Session where
  signer : Signer
  caller : Caller
  answers : Answers
  identity : String

/-- A session at some moment. -/
def Session.at (session : Session) (now : ℤ) : Session :=
  { session with signer := { session.signer with now := now }, caller := { session.caller with now := now } }

/-- What a poll returns, and the deliveries after it. -/
structure Polled where
  items : List Item
  cursor : String
  deliveries : List Delivery

/-- `_poll`. -/
def poll (session : Session) (journals : Journals) (cursor : String) (limit : ℤ) (recordDelivery : Bool) :
    Py Polled := do
  let _ ← count limit 1 256 "count"
  let subscription ← subscriptionFor session.caller journals session.identity
  let position ← positionOf session.signer session.identity subscription cursor
  Py.require (position ≤ journals.changes.length) (.valueError "UniMem cursor is ahead of this stream")
  let page ← pollLoop session.answers
    ⟨session.identity, subscription, session.caller.now, limit, recordDelivery, journals.numbers session.identity⟩
    position.toNat (journals.changes.drop position.toNat)
    ⟨[], 0, journals.known session.identity, journals.deliveries, position.toNat⟩
  let next ← cursorOf session.signer session.identity subscription page.position
  return ⟨page.items, next, page.deliveries⟩

/-- When a poll is made, and its limit. -/
structure Moment where
  now : ℤ
  limit : ℤ

/-- Polls at some moments, each from the last cursor, until a page is empty. -/
def follow (session : Session) (moments : ℕ → Moment) : ℕ → ℕ → String → Journals →
    Py (Option (List Item × List Delivery))
  | 0, _, _, _ => .ok none
  | fuel + 1, turn, cursor, journals => do
    let polled ← poll (session.at (moments turn).now) journals cursor (moments turn).limit true
    if polled.items.length = 0 then return some ([], polled.deliveries)
    else do
      let rest ← follow session moments fuel (turn + 1) polled.cursor
        { journals with deliveries := polled.deliveries }
      return rest.map fun found ↦ (polled.items ++ found.1, found.2)

/-! ## Visits -/

/-- The entries of all events from a place on, for a subscriber that knows some targets. -/
def visits (answers : Answers) (subscription : Subscription) : ℕ → List Published → List String → Py (List Item)
  | _, [], _ => .ok []
  | place, change :: changes, known => do
    match ← itemOf answers subscription (change.event.target ∈ known) place change with
    | none => visits answers subscription (place + 1) changes known
    | some item => do
      let encoded ← wire item.json
      Py.require (encoded.length ≤ batchBytes) tooLarge
      let rest ← visits answers subscription (place + 1) changes (change.event.target :: known)
      return item :: rest

variable {answers : Answers} {subscription : Subscription} {changes : List Published} {known : List String}
  {place : ℕ} {items : List Item}

theorem visits_cons_eq_ok_iff {change : Published} :
    visits answers subscription place (change :: changes) known = .ok items ↔
      (itemOf answers subscription (change.event.target ∈ known) place change = .ok none ∧
        visits answers subscription (place + 1) changes known = .ok items) ∨
      ∃ item rest, itemOf answers subscription (change.event.target ∈ known) place change = .ok (some item) ∧
        Wirable item.json ∧ (canonicalBytes item.json).length ≤ batchBytes ∧
        visits answers subscription (place + 1) changes (change.event.target :: known) = .ok rest ∧
        items = item :: rest := by
  rw [visits, Py.bind_eq_ok_iff]
  constructor
  · rintro ⟨found, hfound, h⟩
    cases found with
    | none => exact .inl ⟨hfound, h⟩
    | some item =>
      obtain ⟨encoded, hencoded, h⟩ := Py.of_bind h
      obtain ⟨hwirable, rfl⟩ := wire_eq_ok_iff.mp hencoded
      obtain ⟨_, hsize, h⟩ := Py.of_bind h
      obtain ⟨rest, hrest, h⟩ := Py.of_bind h
      rw [Py.require_eq_ok_iff, decide_eq_true_eq] at hsize
      exact .inr ⟨item, rest, hfound, hwirable, hsize, hrest, (Except.ok.inj h).symm⟩
  · rintro (⟨hnone, h⟩ | ⟨item, rest, hsome, hwirable, hsize, hrest, rfl⟩)
    · exact ⟨none, hnone, h⟩
    · refine ⟨some item, hsome, Py.bind_eq_ok_iff.mpr ⟨_, wire_eq_ok_iff.mpr ⟨hwirable, rfl⟩, ?_⟩⟩
      exact Py.bind_eq_ok_iff.mpr ⟨(), Py.require_eq_ok_iff.mpr (decide_eq_true hsize),
        Py.bind_eq_ok_iff.mpr ⟨rest, hrest, rfl⟩⟩

theorem visits_congr {other : List String} (h : ∀ target, target ∈ known ↔ target ∈ other) :
    visits answers subscription place changes known = visits answers subscription place changes other := by
  induction changes generalizing place known other with
  | nil => rfl
  | cons change changes ih =>
    have hmore : ∀ target, target ∈ change.event.target :: known ↔ target ∈ change.event.target :: other := by
      intro target
      rw [List.mem_cons, List.mem_cons, h]
    simp only [visits, h, ih h, ih hmore]

variable {found : Bool} {item : Item} {target : String} {signer : Signer} {fuel : ℕ}

theorem id_of_itemOf {change : Published} (h : itemOf answers subscription found place change = .ok (some item)) :
    item.cursorSequence = place ∧ item.id = change.event.target ∧
      (item.kind = .erase ↔ change.event.kind = .erase) := by
  unfold itemOf at h
  by_cases hname : subscription.nameSpace ≠ "" ∧ subscription.nameSpace ≠ change.event.nameSpace
  · rw [if_pos hname] at h
    cases h
  · rw [if_neg hname] at h
    obtain ⟨view, -, h⟩ := Py.of_bind h
    cases view with
    | some view =>
      obtain ⟨_, hitem, h⟩ := Py.map_eq_ok_iff.mp h
      obtain rfl := Option.some.inj h
      obtain ⟨digest, -, hitem⟩ := Py.of_bind hitem
      obtain rfl := Except.ok.inj hitem
      exact ⟨rfl, rfl, Iff.rfl⟩
    | none =>
      dsimp only at h
      split_ifs at h with hfound
      · obtain ⟨_, hitem, h⟩ := Py.map_eq_ok_iff.mp h
        obtain rfl := Option.some.inj h
        obtain ⟨digest, -, hitem⟩ := Py.of_bind hitem
        obtain rfl := Except.ok.inj hitem
        refine ⟨rfl, rfl, ?_⟩
        cases change.event.kind <;> simp [removal]
      · cases h

/-- The targets that are known after some entries. -/
def knownAfter (items : List Item) (known : List String) : List String := items.map Item.id ++ known

theorem mem_knownAfter_cons :
    target ∈ knownAfter (item :: items) known ↔ target ∈ knownAfter items (item.id :: known) := by
  simp only [knownAfter, List.map_cons, List.cons_append, List.mem_cons, List.mem_append]
  exact or_left_comm

theorem visits_append_iff {more : List Published} :
    visits answers subscription place (changes ++ more) known = .ok items ↔
      ∃ first second, visits answers subscription place changes known = .ok first ∧
        visits answers subscription (place + changes.length) more (knownAfter first known) = .ok second ∧
        items = first ++ second := by
  induction changes generalizing place known items with
  | nil =>
    constructor
    · exact fun h ↦ ⟨[], items, rfl, h, rfl⟩
    · rintro ⟨first, second, hfirst, hsecond, rfl⟩
      obtain rfl := Except.ok.inj hfirst
      exact hsecond
  | cons change changes ih =>
    have hplace : place + (change :: changes).length = place + 1 + changes.length := by
      rw [List.length_cons]
      omega
    rw [List.cons_append, visits_cons_eq_ok_iff, ih, hplace]
    constructor
    · rintro (⟨hnone, first, second, hfirst, hsecond, rfl⟩ | ⟨item, rest, hsome, hwirable, hsize, hrest, rfl⟩)
      · exact ⟨first, second, visits_cons_eq_ok_iff.mpr (.inl ⟨hnone, hfirst⟩), hsecond, rfl⟩
      · obtain ⟨first, second, hfirst, hsecond, rfl⟩ := ih.mp hrest
        refine ⟨item :: first, second,
          visits_cons_eq_ok_iff.mpr (.inr ⟨item, first, hsome, hwirable, hsize, hfirst, rfl⟩), ?_, rfl⟩
        rw [← (id_of_itemOf hsome).2.1] at hsecond
        rwa [visits_congr fun _ ↦ mem_knownAfter_cons]
    · rintro ⟨first, second, hfirst, hsecond, rfl⟩
      obtain ⟨hnone, hfirst⟩ | ⟨item, rest, hsome, hwirable, hsize, hrest, rfl⟩ := visits_cons_eq_ok_iff.mp hfirst
      · exact .inl ⟨hnone, first, second, hfirst, hsecond, rfl⟩
      · refine .inr ⟨item, rest ++ second, hsome, hwirable, hsize, ih.mpr ⟨rest, second, hrest, ?_, rfl⟩, rfl⟩
        rwa [← (id_of_itemOf hsome).2.1, ← visits_congr fun _ ↦ mem_knownAfter_cons]

theorem visits_places (h : visits answers subscription place changes known = .ok items) :
    (items.map Item.cursorSequence).Pairwise (· < ·) ∧
      ∀ item ∈ items, ∃ change, (change, item.cursorSequence) ∈ changes.zipIdx place ∧
        item.id = change.event.target ∧ (item.kind = .erase ↔ change.event.kind = .erase) := by
  induction changes generalizing place known items with
  | nil =>
    obtain rfl := Except.ok.inj h
    exact ⟨List.Pairwise.nil, fun _ hmem ↦ absurd hmem List.not_mem_nil⟩
  | cons change changes ih =>
    rw [List.zipIdx_cons]
    obtain ⟨-, h⟩ | ⟨item, rest, hsome, -, -, hrest, rfl⟩ := visits_cons_eq_ok_iff.mp h
    · obtain ⟨hsorted, hall⟩ := ih h
      refine ⟨hsorted, fun item hitem ↦ ?_⟩
      obtain ⟨found, hmem, heq⟩ := hall item hitem
      exact ⟨found, List.mem_cons_of_mem _ hmem, heq⟩
    · obtain ⟨hsorted, hall⟩ := ih hrest
      obtain ⟨hplace, hid, hkind⟩ := id_of_itemOf hsome
      have hhead : (change, item.cursorSequence) ∈ (change, place) :: changes.zipIdx (place + 1) := by
        rw [hplace]
        exact List.mem_cons_self
      have hbefore : ∀ number ∈ rest.map Item.cursorSequence, item.cursorSequence < number := by
        intro number hnumber
        obtain ⟨other, hother, rfl⟩ := List.mem_map.mp hnumber
        obtain ⟨found, hmem, -⟩ := hall other hother
        have hle := (List.mk_mem_zipIdx_iff_le_and_getElem?_sub.mp hmem).1
        omega
      refine ⟨List.pairwise_cons.mpr ⟨hbefore, hsorted⟩, fun item hitem ↦ ?_⟩
      obtain rfl | hitem := List.mem_cons.mp hitem
      · exact ⟨change, hhead, hid, hkind⟩
      · obtain ⟨found, hmem, heq⟩ := hall item hitem
        exact ⟨found, List.mem_cons_of_mem _ hmem, heq⟩

/-! ## One page -/

/-- The row that a poll records for an entry. -/
def Poll.row (call : Poll) (item : Item) : Delivery where
  subscriber := call.identity
  sequenceNumber := item.cursorSequence
  target := item.id
  eventDigest := item.eventDigest
  eraseAckRequired := item.kind = .erase
  deadline := call.now + call.subscription.ackSeconds * microseconds

/-- The rows that a poll records for some entries. -/
def Poll.rows (call : Poll) (items : List Item) : List Delivery :=
  (items.filter fun item ↦ item.cursorSequence ∉ call.delivered).map call.row

variable {call : Poll} {page next : Page}

theorem deliveryOf_eq {change : Published} (h : itemOf answers subscription found place change = .ok (some item)) :
    deliveryOf call place change item.eventDigest = call.row item := by
  obtain ⟨hplace, hid, hkind⟩ := id_of_itemOf h
  rw [deliveryOf, Poll.row, hplace, hid, decide_eq_decide.mpr hkind]

theorem recordDelivery_eq_ok {deliveries rows : List Delivery} (hrecord : call.recordDelivery = true)
    (h : recordDelivery answers call (call.row item) deliveries = .ok rows) :
    rows = deliveries ++ call.rows [item] := by
  unfold recordDelivery at h
  by_cases hdelivered : item.cursorSequence ∈ call.delivered
  · rw [if_pos (.inl hdelivered)] at h
    obtain rfl := Except.ok.inj h
    simp [Poll.rows, hdelivered]
  · rw [if_neg (by simp [Poll.row, hdelivered, hrecord])] at h
    obtain ⟨_, h⟩ := Py.of_rest h
    obtain rfl := Except.ok.inj h
    simp [Poll.rows, hdelivered]

theorem rows_cons (item : Item) (items : List Item) : call.rows (item :: items) =
    call.rows [item] ++ call.rows items := by
  rw [← List.singleton_append, Poll.rows, List.filter_append, List.map_append]
  rfl

theorem pollLoop_eq_ok (hrecord : call.recordDelivery = true) (hposition : page.position = place)
    (h : pollLoop answers call place changes page = .ok next) :
    ∃ count new, count ≤ changes.length ∧ next.position = place + count ∧ next.items = page.items ++ new ∧
      visits answers call.subscription place (changes.take count) page.known = .ok new ∧
      next.deliveries = page.deliveries ++ call.rows new ∧ (page.items = [] → new = [] → count = changes.length) := by
  induction changes generalizing place page with
  | nil =>
    obtain rfl := Except.ok.inj h
    exact ⟨0, [], le_rfl, hposition, (List.append_nil _).symm, rfl, (List.append_nil _).symm, fun _ _ ↦ rfl⟩
  | cons change changes ih =>
    obtain ⟨found, hfound, h⟩ := Py.of_bind h
    cases found with
    | none =>
      obtain ⟨count, new, hcount, hnext, hitems, hvisits, hdeliveries, hempty⟩ :=
        @ih (place + 1) { page with position := place + 1 } rfl h
      refine ⟨count + 1, new, Nat.succ_le_succ hcount, by omega, hitems, ?_, hdeliveries,
        fun hnone hnew ↦ congrArg Nat.succ (hempty hnone hnew)⟩
      rw [List.take_succ_cons]
      exact visits_cons_eq_ok_iff.mpr (.inl ⟨hfound, hvisits⟩)
    | some item =>
      obtain ⟨encoded, hencoded, h⟩ := Py.of_bind h
      obtain ⟨hwirable, rfl⟩ := wire_eq_ok_iff.mp hencoded
      by_cases hbytes : batchBytes < page.bytesUsed + (canonicalBytes item.json).length
      · rw [if_pos hbytes] at h
        obtain ⟨_, hnonempty, h⟩ := Py.of_bind h
        obtain rfl := Except.ok.inj h
        rw [Py.require_eq_ok_iff, decide_eq_true_eq] at hnonempty
        exact ⟨0, [], Nat.zero_le _, rfl, (List.append_nil _).symm, rfl, (List.append_nil _).symm,
          fun hnone ↦ absurd (List.length_eq_zero_iff.mpr hnone) hnonempty⟩
      · rw [if_neg hbytes] at h
        obtain ⟨rows, hrows, h⟩ := Py.of_bind h
        rw [deliveryOf_eq hfound] at hrows
        obtain rfl := recordDelivery_eq_ok hrecord hrows
        have hsize : (canonicalBytes item.json).length ≤ batchBytes := by omega
        have htaken : ∀ {count rest}, visits answers call.subscription (place + 1) (changes.take count)
            (change.event.target :: page.known) = .ok rest →
            visits answers call.subscription place ((change :: changes).take (count + 1)) page.known =
              .ok (item :: rest) := by
          intro count rest hrest
          rw [List.take_succ_cons]
          exact visits_cons_eq_ok_iff.mpr (.inr ⟨item, rest, hfound, hwirable, hsize, hrest, rfl⟩)
        dsimp only at h
        split_ifs at h with hlimit
        · obtain rfl := Except.ok.inj h
          exact ⟨1, [item], Nat.succ_le_succ (Nat.zero_le _), rfl, rfl, @htaken 0 [] rfl, rfl,
            fun _ hnew ↦ absurd hnew (List.cons_ne_nil _ _)⟩
        · obtain ⟨count, new, hcount, hnext, hitems, hvisits, hdeliveries, -⟩ := @ih (place + 1)
            ⟨page.items ++ [item], _, change.event.target :: page.known, _, place + 1⟩ rfl h
          refine ⟨count + 1, item :: new, Nat.succ_le_succ hcount, by omega, ?_, htaken hvisits, ?_,
            fun _ hnew ↦ absurd hnew (List.cons_ne_nil _ _)⟩
          · rw [hitems, List.append_assoc, List.singleton_append]
          · rw [hdeliveries, List.append_assoc, rows_cons item new]

theorem exists_pollLoop (hroom : ∀ rows row, answers.fits rows row = true)
    (h : visits answers call.subscription place changes page.known = .ok items)
    (hbytes : page.items = [] → page.bytesUsed = 0) : ∃ next, pollLoop answers call place changes page =
      .ok next := by
  induction changes generalizing place page items with
  | nil => exact ⟨page, rfl⟩
  | cons change changes ih =>
    obtain ⟨hnone, h⟩ | ⟨item, rest, hsome, hwirable, hsize, hrest, rfl⟩ := visits_cons_eq_ok_iff.mp h
    · obtain ⟨next, hnext⟩ := @ih (place + 1) items { page with position := place + 1 } h hbytes
      exact ⟨next, Py.bind_eq_ok_iff.mpr ⟨none, hnone, hnext⟩⟩
    · suffices hpage : ∃ next, (if batchBytes < page.bytesUsed + (canonicalBytes item.json).length then do
          Py.require (page.items.length ≠ 0) tooLarge
          return { page with position := place }
        else do
          let deliveries ← recordDelivery answers call (deliveryOf call place change item.eventDigest) page.deliveries
          let next : Page := ⟨page.items ++ [item], page.bytesUsed + (canonicalBytes item.json).length,
            change.event.target :: page.known, deliveries, place + 1⟩
          if (next.items.length : ℤ) = call.limit then return next
          else pollLoop answers call (place + 1) changes next : Py Page) = .ok next by
        obtain ⟨next, hnext⟩ := hpage
        exact ⟨next, Py.bind_eq_ok_iff.mpr ⟨some item, hsome, Py.bind_eq_ok_iff.mpr
          ⟨_, wire_eq_ok_iff.mpr ⟨hwirable, rfl⟩, hnext⟩⟩⟩
      split_ifs with hfull
      · have hnonempty : page.items.length ≠ 0 := by
          intro hzero
          have hnone := hbytes (List.length_eq_zero_iff.mp hzero)
          omega
        exact ⟨_, Py.bind_eq_ok_iff.mpr ⟨(), Py.require_eq_ok_iff.mpr (decide_eq_true hnonempty), rfl⟩⟩
      · obtain ⟨deliveries, hdeliveries⟩ : ∃ deliveries, recordDelivery answers call
            (deliveryOf call place change item.eventDigest) page.deliveries = .ok deliveries := by
          unfold recordDelivery
          split_ifs
          · exact ⟨_, rfl⟩
          · rw [hroom]
            exact ⟨_, rfl⟩
        rw [hdeliveries, Py.bind_ok]
        dsimp only
        split_ifs
        · exact ⟨_, rfl⟩
        · exact @ih (place + 1) rest
            ⟨page.items ++ [item], _, change.event.target :: page.known, deliveries, place + 1⟩ hrest fun hnil ↦
              absurd hnil (List.append_ne_nil_of_right_ne_nil _ (List.cons_ne_nil _ _))

/-! ## What a page leaves -/

/-- The deliveries of a subscriber are of events of the journal. -/
def Journals.Recorded (journals : Journals) (identity : String) : Prop :=
  ∀ delivery ∈ journals.deliveries, delivery.subscriber = identity →
    ∃ change, journals.changes[delivery.sequenceNumber]? = some change ∧ change.event.target = delivery.target

variable {journals : Journals} {identity : String}

theorem mem_numbers_iff {number : ℕ} : number ∈ journals.numbers identity ↔
    ∃ delivery ∈ journals.deliveries, delivery.subscriber = identity ∧ delivery.sequenceNumber = number := by
  rw [Journals.numbers, Journals.delivered, mem_map_fst_index]
  simp only [List.mem_map, List.mem_filter, decide_eq_true_eq, and_assoc]

theorem mem_known_iff (h : journals.Recorded identity) : target ∈ journals.known identity ↔
    ∃ delivery ∈ journals.deliveries, delivery.subscriber = identity ∧ delivery.target = target := by
  constructor
  · intro htarget
    obtain ⟨entry, hentry, rfl⟩ := List.mem_map.mp htarget
    obtain ⟨hmem, -⟩ := mem_index hentry
    rw [List.mem_filter, decide_eq_true_eq] at hmem
    exact ⟨entry.2, hmem.1, hmem.2, rfl⟩
  · rintro ⟨delivery, hmem, hsubscriber, rfl⟩
    have hnumber := mem_numbers_iff.mpr ⟨delivery, hmem, hsubscriber, rfl⟩
    obtain ⟨entry, hentry, heq⟩ := List.mem_map.mp hnumber
    refine List.mem_map.mpr ⟨entry, hentry, ?_⟩
    obtain ⟨hlast, hkey⟩ := mem_index hentry
    rw [List.mem_filter, decide_eq_true_eq] at hlast
    obtain ⟨change, hchange, hsame⟩ := h _ hmem hsubscriber
    obtain ⟨other, hother, hsame'⟩ := h _ hlast.1 hlast.2
    rw [hkey, heq, hchange] at hother
    rw [← hsame', ← Option.some.inj hother, hsame]

/-- The journals after a page with some entries. -/
def Journals.after (journals : Journals) (call : Poll) (items : List Item) : Journals :=
  { journals with deliveries := journals.deliveries ++ call.rows items }

/-- Entries that are those of events of the journal. -/
def Shown (journals : Journals) (items : List Item) : Prop :=
  ∀ item ∈ items, ∃ change, journals.changes[item.cursorSequence]? = some change ∧ change.event.target = item.id

theorem shown_of_visits {position count : ℕ} (h : visits answers subscription position
    ((journals.changes.drop position).take count) known = .ok items) : Shown journals items := by
  intro item hitem
  obtain ⟨change, hmem, hid, -⟩ := (visits_places h).2 item hitem
  obtain ⟨hle, hchange⟩ := List.mk_mem_zipIdx_iff_le_and_getElem?_sub.mp hmem
  refine ⟨change, ?_, hid.symm⟩
  rw [List.getElem?_take] at hchange
  split_ifs at hchange
  rwa [List.getElem?_drop, Nat.add_sub_cancel' hle] at hchange

theorem mem_rows_iff {delivery : Delivery} : delivery ∈ call.rows items ↔
    ∃ item ∈ items, item.cursorSequence ∉ call.delivered ∧ call.row item = delivery := by
  simp only [Poll.rows, List.mem_map, List.mem_filter, decide_eq_true_eq, and_assoc]

theorem recorded_after (h : journals.Recorded identity) (hitems : Shown journals items) :
    (journals.after call items).Recorded identity := by
  intro delivery hmem hsubscriber
  obtain hold | hnew := List.mem_append.mp hmem
  · exact h delivery hold hsubscriber
  · obtain ⟨item, hitem, -, rfl⟩ := mem_rows_iff.mp hnew
    exact hitems item hitem

theorem mem_numbers_after_iff {number : ℕ} (hidentity : call.identity = identity)
    (hdelivered : call.delivered = journals.numbers identity) :
    number ∈ (journals.after call items).numbers identity ↔
      number ∈ journals.numbers identity ∨ number ∈ items.map Item.cursorSequence := by
  rw [mem_numbers_iff]
  constructor
  · rintro ⟨delivery, hmem, hsubscriber, rfl⟩
    obtain hold | hnew := List.mem_append.mp hmem
    · exact .inl (mem_numbers_iff.mpr ⟨delivery, hold, hsubscriber, rfl⟩)
    · obtain ⟨item, hitem, -, rfl⟩ := mem_rows_iff.mp hnew
      exact .inr (List.mem_map_of_mem hitem)
  · intro h
    by_cases hold : number ∈ journals.numbers identity
    · obtain ⟨delivery, hmem, heq⟩ := mem_numbers_iff.mp hold
      exact ⟨delivery, List.mem_append_left _ hmem, heq⟩
    · obtain ⟨item, hitem, rfl⟩ := List.mem_map.mp (h.resolve_left hold)
      rw [← hdelivered] at hold
      exact ⟨call.row item, List.mem_append_right _ (mem_rows_iff.mpr ⟨item, hitem, hold, rfl⟩), hidentity, rfl⟩

theorem mem_known_after_iff {target : String} (h : journals.Recorded identity) (hitems : Shown journals items)
    (hidentity : call.identity = identity) (hdelivered : call.delivered = journals.numbers identity) :
    target ∈ (journals.after call items).known identity ↔ target ∈ knownAfter items (journals.known identity) := by
  rw [mem_known_iff (recorded_after h hitems), knownAfter, List.mem_append, mem_known_iff h]
  constructor
  · rintro ⟨delivery, hmem, hsubscriber, rfl⟩
    obtain hold | hnew := List.mem_append.mp hmem
    · exact .inr ⟨delivery, hold, hsubscriber, rfl⟩
    · obtain ⟨item, hitem, -, rfl⟩ := mem_rows_iff.mp hnew
      exact .inl (List.mem_map_of_mem hitem)
  · rintro (hnew | ⟨delivery, hmem, heq⟩)
    · obtain ⟨item, hitem, rfl⟩ := List.mem_map.mp hnew
      by_cases hold : item.cursorSequence ∈ journals.numbers identity
      · obtain ⟨delivery, hmem, hsubscriber, hnumber⟩ := mem_numbers_iff.mp hold
        obtain ⟨change, hchange, hsame⟩ := h delivery hmem hsubscriber
        obtain ⟨other, hother, hsame'⟩ := hitems item hitem
        rw [hnumber, hother] at hchange
        refine ⟨delivery, List.mem_append_left _ hmem, hsubscriber, ?_⟩
        rw [← hsame, ← Option.some.inj hchange, hsame']
      · rw [← hdelivered] at hold
        exact ⟨call.row item, List.mem_append_right _ (mem_rows_iff.mpr ⟨item, hitem, hold, rfl⟩), hidentity, rfl⟩
    · exact ⟨delivery, List.mem_append_left _ hmem, heq⟩

/-! ## Runs -/

/-- A delivery without its deadline, which depends on when it was recorded. -/
def Delivery.undated (delivery : Delivery) : Delivery := { delivery with deadline := 0 }

/-- The deliveries that some entries leave, without their deadlines. -/
def recordedFor (identity : String) (numbers : List ℕ) (items : List Item) : List Delivery :=
  (items.filter fun item ↦ item.cursorSequence ∉ numbers).map fun item ↦
    ⟨identity, item.cursorSequence, item.id, item.eventDigest, item.kind = .erase, 0⟩

theorem map_undated_rows (call : Poll) (items : List Item) :
    (call.rows items).map Delivery.undated = recordedFor call.identity call.delivered items := by
  rw [Poll.rows, List.map_map]
  rfl

/-- What the polls of a run rest on: limits in range and cursors read before they expire. -/
structure Session.Timely (session : Session) (subscription : Subscription) (last : ℕ) (moments : ℕ → Moment) :
    Prop where
  limits : ∀ turn, 1 ≤ (moments turn).limit ∧ (moments turn).limit ≤ 256
  clocks : ∀ turn, (moments (turn + 1)).now < (moments turn).now + sevenDays
  ready : ∀ turn, (session.at (moments turn).now).signer.Ready session.identity subscription last

variable {session : Session} {moments : ℕ → Moment} {cursor : String} {polled : Polled} {now limit : ℤ}
  {position : ℕ}

/-- One poll of a session. -/
def Session.poll (session : Session) (journals : Journals) (subscription : Subscription) (now limit : ℤ) : Poll :=
  ⟨session.identity, subscription, now, limit, true, journals.numbers session.identity⟩

theorem poll_eq_ok (hget : session.caller.get false session.identity = .ok subscription)
    (hposition : positionOf (session.at now).signer session.identity subscription cursor = .ok (position : ℤ))
    (h : poll (session.at now) journals cursor limit true = .ok polled) :
    ∃ count, position + count ≤ journals.changes.length ∧
      cursorOf (session.at now).signer session.identity subscription (position + count) = .ok polled.cursor ∧
      visits session.answers subscription position ((journals.changes.drop position).take count)
        (journals.known session.identity) = .ok polled.items ∧ { journals with deliveries := polled.deliveries } =
        journals.after (session.poll journals subscription now limit) polled.items ∧
      (polled.items = [] → position + count = journals.changes.length) := by
  obtain ⟨_, h⟩ := Py.of_rest h
  obtain ⟨found, hfound, h⟩ := Py.of_bind h
  obtain ⟨place, hplace, h⟩ := Py.of_bind h
  obtain ⟨_, hahead, h⟩ := Py.of_bind h
  obtain ⟨page, hpage, h⟩ := Py.of_bind h
  obtain ⟨next, hnext, h⟩ := Py.of_bind h
  obtain rfl := Except.ok.inj h
  obtain ⟨stored, hstored, hfound⟩ := Py.of_bind hfound
  obtain ⟨_, hfound⟩ := Py.of_rest hfound
  obtain ⟨_, hfound⟩ := Py.of_rest hfound
  obtain ⟨_, hfound⟩ := Py.of_rest hfound
  obtain rfl := Except.ok.inj hfound
  obtain rfl := Except.ok.inj (hstored.symm.trans hget)
  obtain rfl := Except.ok.inj (hplace.symm.trans hposition)
  rw [Py.require_eq_ok_iff, decide_eq_true_eq, Nat.cast_le] at hahead
  rw [Int.toNat_natCast] at hpage
  obtain ⟨count, new, hcount, hplaced, hitems, hvisits, hdeliveries, hempty⟩ :=
    @pollLoop_eq_ok _ _ position _ _ _ rfl rfl hpage
  rw [List.nil_append] at hitems
  rw [List.length_drop] at hcount hempty
  rw [hplaced] at hnext
  rw [← hitems] at hvisits hdeliveries hempty
  refine ⟨count, by omega, hnext, hvisits, ?_, fun hnone ↦ ?_⟩
  · rw [Journals.after, hdeliveries]
    rfl
  · have hall := hempty rfl hnone
    omega

theorem lookup_of_boundPosition {record : Json} {found : ℤ}
    (h : boundPosition signer identity subscription record = .ok found) :
    ∃ fields, record = .obj fields ∧ fields.lookup "position" = some (.int found) ∧ 0 ≤ found := by
  cases record with
  | obj fields =>
    obtain ⟨_, h⟩ := Py.of_rest h
    obtain ⟨_, h⟩ := Py.of_rest h
    obtain ⟨_, h⟩ := Py.of_rest h
    obtain ⟨_, h⟩ := Py.of_rest h
    obtain ⟨_, h⟩ := Py.of_rest h
    obtain ⟨_, h⟩ := Py.of_rest h
    obtain ⟨_, h⟩ := Py.of_rest h
    obtain ⟨value, hvalue, h⟩ := Py.of_bind h
    obtain ⟨rfl, hle, -⟩ := countArgument_eq_ok_iff.mp h
    exact ⟨fields, rfl, field_eq_ok_iff.mp hvalue, hle⟩
  | _ => cases h

theorem position_unique {earlier later first second : ℤ}
    (h : positionOf { signer with now := earlier } identity subscription cursor = .ok first)
    (h' : positionOf { signer with now := later } identity subscription cursor = .ok second) :
    first = second ∧ 0 ≤ first := by
  have hread : ∀ {now found : ℤ}, cursor ≠ "" →
      positionOf { signer with now := now } identity subscription cursor = .ok found →
      ∃ signed record, decodeCursor signer cursor = .ok (signed, record) ∧
        boundPosition { signer with now := now } identity subscription record = .ok found := by
    intro now found hne hfound
    rw [positionOf, if_neg hne] at hfound
    obtain ⟨_, hfound⟩ := Py.of_rest hfound
    cases hcursor : readCursor { signer with now := now } identity subscription cursor with
    | error error =>
      rw [hcursor] at hfound
      dsimp only at hfound
      split_ifs at hfound
    | ok value =>
      rw [hcursor] at hfound
      obtain rfl := Except.ok.inj hfound
      obtain ⟨⟨signed, record⟩, hdecode, hcursor⟩ := Py.of_bind hcursor
      obtain ⟨_, hcursor⟩ := Py.of_rest hcursor
      obtain ⟨_, hcursor⟩ := Py.of_rest hcursor
      exact ⟨signed, record, hdecode, hcursor⟩
  by_cases hempty : cursor = ""
  · rw [positionOf, if_pos hempty] at h h'
    obtain rfl := Except.ok.inj h
    exact ⟨Except.ok.inj h', le_rfl⟩
  · obtain ⟨signed, record, hdecode, hfirst⟩ := hread hempty h
    obtain ⟨signed', record', hdecode', hsecond⟩ := hread hempty h'
    obtain rfl := (Prod.ext_iff.mp (Except.ok.inj (hdecode.symm.trans hdecode'))).2
    obtain ⟨fields, rfl, hlookup, hle⟩ := lookup_of_boundPosition hfirst
    obtain ⟨fields', hsame, hlookup', -⟩ := lookup_of_boundPosition hsecond
    obtain rfl := Json.obj.inj hsame
    rw [hlookup] at hlookup'
    exact ⟨Json.int.inj (Option.some.inj hlookup'), hle⟩

theorem recordedFor_append {numbers later : List ℕ} {first second : List Item}
    (hlater : ∀ number, number ∈ later ↔ number ∈ numbers ∨ number ∈ first.map Item.cursorSequence)
    (hsorted : ((first ++ second).map Item.cursorSequence).Pairwise (· < ·)) :
    recordedFor identity numbers (first ++ second) =
      recordedFor identity numbers first ++ recordedFor identity later second := by
  rw [recordedFor, List.filter_append, List.map_append]
  refine congrArg₂ (· ++ ·) rfl (congrArg _ (List.filter_congr fun item hitem ↦ decide_eq_decide.mpr ?_))
  rw [hlater, not_or]
  refine (and_iff_left fun hbefore ↦ ?_).symm
  rw [List.map_append, List.pairwise_append] at hsorted
  exact absurd (hsorted.2.2 _ hbefore _ (List.mem_map_of_mem hitem)) (lt_irrefl _)

section

variable (hget : session.caller.get false session.identity = .ok subscription)
include hget

theorem follow_eq_ok
    (htimely : session.Timely subscription journals.changes.length moments) {turn : ℕ} {final : List Delivery}
    (hrecorded : journals.Recorded session.identity)
    (hposition : positionOf (session.at (moments turn).now).signer session.identity subscription cursor =
      .ok (position : ℤ))
    (h : follow session moments fuel turn cursor journals = .ok (some (items, final))) :
    visits session.answers subscription position (journals.changes.drop position)
        (journals.known session.identity) = .ok items ∧
      final.map Delivery.undated = journals.deliveries.map Delivery.undated ++
        recordedFor session.identity (journals.numbers session.identity) items := by
  induction fuel generalizing turn cursor journals position items final with
  | zero => cases h
  | succ fuel ih =>
    obtain ⟨polled, hpoll, h⟩ := Py.of_bind h
    obtain ⟨count, hcount, hnext, hvisits, hafter, hempty⟩ := poll_eq_ok hget hposition hpoll
    have hdeliveries : polled.deliveries =
        (journals.after (session.poll journals subscription (moments turn).now (moments turn).limit)
          polled.items).deliveries := by
      rw [← hafter]
    by_cases hnone : polled.items = []
    · rw [if_pos (List.length_eq_zero_iff.mpr hnone)] at h
      simp only [Py.pure_eq_ok, Except.ok.injEq, Option.some.injEq, Prod.mk.injEq] at h
      obtain ⟨rfl, rfl⟩ := h
      have hall := hempty hnone
      rw [List.take_of_length_le (by rw [List.length_drop]; omega), hnone] at hvisits
      refine ⟨hvisits, ?_⟩
      rw [hdeliveries, hnone, Journals.after, List.map_append, map_undated_rows]
      rfl
    · rw [if_neg fun hzero ↦ hnone (List.length_eq_zero_iff.mp hzero), hafter] at h
      obtain ⟨found, hrest, h⟩ := Py.of_bind h
      obtain ⟨⟨rest, last⟩, hfound, hsame⟩ := Option.map_eq_some_iff.mp (Except.ok.inj h)
      obtain ⟨rfl, rfl⟩ := Prod.mk.inj hsame
      rw [hfound] at hrest
      have hshown := shown_of_visits hvisits
      have hcursor := exists_cursor (htimely.ready turn) hcount
      obtain ⟨cursor', hissued, hread⟩ := hcursor
      obtain rfl := Except.ok.inj (hissued.symm.trans hnext)
      have hlater := hread (moments (turn + 1)).now (htimely.clocks turn)
      obtain ⟨hrestVisits, hlast⟩ := @ih rest (journals.after (session.poll journals subscription (moments turn).now
        (moments turn).limit) polled.items) polled.cursor (position + count) htimely (turn + 1) last
        (recorded_after hrecorded hshown) hlater hrest
      have hknown := fun target ↦ @mem_known_after_iff _ (session.poll journals subscription (moments turn).now
        (moments turn).limit) _ _ target hrecorded hshown rfl rfl
      have hnumbers := fun number ↦ @mem_numbers_after_iff polled.items (session.poll journals subscription
        (moments turn).now (moments turn).limit) journals session.identity number rfl rfl
      have hsplit : journals.changes.drop position = (journals.changes.drop position).take count ++
          journals.changes.drop (position + count) := by
        rw [← List.drop_drop, List.take_append_drop]
      have hlength : ((journals.changes.drop position).take count).length = count := by
        rw [List.length_take, List.length_drop]
        omega
      have hwhole : visits session.answers subscription position (journals.changes.drop position)
          (journals.known session.identity) = .ok (polled.items ++ rest) := by
        rw [hsplit]
        refine visits_append_iff.mpr ⟨polled.items, rest, hvisits, ?_, rfl⟩
        rw [hlength, ← visits_congr hknown]
        exact hrestVisits
      refine ⟨hwhole, ?_⟩
      rw [hlast, Journals.after, List.map_append, map_undated_rows, List.append_assoc,
        recordedFor_append hnumbers (visits_places hwhole).1]
      rfl

/-- The store lets the subscriber poll at every moment of a run. -/
def StaysOpen (session : Session) (moments : ℕ → Moment) : ℕ → ℕ → String → Journals → Prop
  | 0, _, _, _ => True
  | fuel + 1, turn, cursor, journals =>
    (∃ subscription, subscriptionFor (session.at (moments turn).now).caller journals session.identity =
      .ok subscription) ∧
    ∀ polled, poll (session.at (moments turn).now) journals cursor (moments turn).limit true = .ok polled →
      StaysOpen session moments fuel (turn + 1) polled.cursor { journals with deliveries := polled.deliveries }

theorem exists_poll
    (hopen : ∃ found, subscriptionFor (session.at now).caller journals session.identity = .ok found)
    (hlimit : 1 ≤ limit ∧ limit ≤ 256)
    (hready : (session.at now).signer.Ready session.identity subscription journals.changes.length)
    (hroom : ∀ rows row, session.answers.fits rows row = true)
    (hposition : positionOf (session.at now).signer session.identity subscription cursor = .ok (position : ℤ))
    (hahead : position ≤ journals.changes.length)
    (h : visits session.answers subscription position (journals.changes.drop position)
      (journals.known session.identity) = .ok items) :
    ∃ polled, poll (session.at now) journals cursor limit true = .ok polled := by
  obtain ⟨found, hfound⟩ := hopen
  obtain ⟨stored, hstored, hchecked⟩ := Py.of_bind hfound
  obtain ⟨_, hchecked⟩ := Py.of_rest hchecked
  obtain ⟨_, hchecked⟩ := Py.of_rest hchecked
  obtain ⟨_, hchecked⟩ := Py.of_rest hchecked
  obtain rfl := Except.ok.inj hchecked
  obtain rfl := Except.ok.inj (hstored.symm.trans hget)
  obtain ⟨page, hpage⟩ := @exists_pollLoop session.answers (journals.changes.drop position) position items
    (session.poll journals stored now limit)
    ⟨[], 0, journals.known session.identity, journals.deliveries, position⟩ hroom h fun _ ↦ rfl
  obtain ⟨count, new, hcount, hplaced, -⟩ := @pollLoop_eq_ok _ _ position _ _ _ rfl rfl hpage
  rw [List.length_drop] at hcount
  obtain ⟨next, hnext, -⟩ := exists_cursor hready (show page.position ≤ journals.changes.length by omega)
  have hbound : (position : ℤ) ≤ journals.changes.length := by exact_mod_cast hahead
  refine ⟨⟨page.items, next, page.deliveries⟩, ?_⟩
  refine Py.bind_eq_ok_iff.mpr ⟨limit, count_eq_ok_iff.mpr ⟨hlimit, rfl⟩, Py.bind_eq_ok_iff.mpr ⟨stored, hfound,
    Py.bind_eq_ok_iff.mpr ⟨position, hposition, Py.bind_eq_ok_iff.mpr ⟨(), Py.require_eq_ok_iff.mpr
      (decide_eq_true hbound), Py.bind_eq_ok_iff.mpr ⟨page, ?_, Py.bind_eq_ok_iff.mpr ⟨next, hnext, rfl⟩⟩⟩⟩⟩⟩
  rw [Int.toNat_natCast]
  exact hpage

theorem exists_follow
    (htimely : session.Timely subscription journals.changes.length moments)
    (hroom : ∀ rows row, session.answers.fits rows row = true) {turn : ℕ}
    (hopen : ∀ fuel, StaysOpen session moments fuel turn cursor journals)
    (hrecorded : journals.Recorded session.identity)
    (hposition : positionOf (session.at (moments turn).now).signer session.identity subscription cursor =
      .ok (position : ℤ)) (hahead : position ≤ journals.changes.length)
    (h : visits session.answers subscription position (journals.changes.drop position)
      (journals.known session.identity) = .ok items) :
    ∃ fuel result, follow session moments fuel turn cursor journals = .ok (some result) := by
  induction hlength : items.length using Nat.strong_induction_on generalizing turn cursor journals position items with
  | h length ih =>
    obtain ⟨polled, hpoll⟩ := exists_poll hget (hopen 1).1 (htimely.limits turn) (htimely.ready turn) hroom hposition
      hahead h
    obtain ⟨count, hcount, hnext, hvisits, hafter, -⟩ := poll_eq_ok hget hposition hpoll
    by_cases hnone : polled.items = []
    · refine ⟨1, ([], polled.deliveries), Py.bind_eq_ok_iff.mpr ⟨polled, hpoll, ?_⟩⟩
      rw [if_pos (List.length_eq_zero_iff.mpr hnone)]
      rfl
    · have hsplit : journals.changes.drop position = (journals.changes.drop position).take count ++
          journals.changes.drop (position + count) := by
        rw [← List.drop_drop, List.take_append_drop]
      have htaken : ((journals.changes.drop position).take count).length = count := by
        rw [List.length_take, List.length_drop]
        omega
      rw [hsplit] at h
      obtain ⟨first, rest, hfirst, hrest, hitems⟩ := visits_append_iff.mp h
      obtain rfl := Except.ok.inj (hfirst.symm.trans hvisits)
      have hshown := shown_of_visits hvisits
      have hknown := fun target ↦ @mem_known_after_iff polled.items (session.poll journals subscription
        (moments turn).now (moments turn).limit) journals session.identity target hrecorded hshown rfl rfl
      rw [htaken, ← visits_congr hknown] at hrest
      obtain ⟨cursor', hissued, hread⟩ := exists_cursor (htimely.ready turn) hcount
      obtain rfl := Except.ok.inj (hissued.symm.trans hnext)
      have hopen' : ∀ fuel, StaysOpen session moments fuel (turn + 1) polled.cursor
          (journals.after (session.poll journals subscription (moments turn).now (moments turn).limit)
            polled.items) :=
        fun fuel ↦ hafter ▸ (hopen (fuel + 1)).2 polled hpoll
      have hshorter : rest.length < length := by
        have hpositive := List.length_pos_iff.mpr hnone
        rw [← hlength, hitems, List.length_append]
        omega
      obtain ⟨fuel, result, hresult⟩ := @ih rest.length hshorter rest
        (journals.after (session.poll journals subscription
        (moments turn).now (moments turn).limit) polled.items) polled.cursor (position + count) htimely (turn + 1)
        hopen' (recorded_after hrecorded hshown) (hread _ (htimely.clocks turn)) hcount hrest rfl
      refine ⟨fuel + 1, (polled.items ++ result.1, result.2), Py.bind_eq_ok_iff.mpr ⟨polled, hpoll, ?_⟩⟩
      rw [if_neg fun hzero ↦ hnone (List.length_eq_zero_iff.mp hzero), hafter]
      exact Py.bind_eq_ok_iff.mpr ⟨some result, hresult, rfl⟩

theorem exists_position {turn : ℕ} {result : List Item × List Delivery}
    (h : follow session moments fuel turn cursor journals = .ok (some result)) :
    ∃ position : ℕ, position ≤ journals.changes.length ∧
      positionOf (session.at (moments turn).now).signer session.identity subscription cursor =
        .ok (position : ℤ) := by
  cases fuel with
  | zero => cases h
  | succ fuel =>
    obtain ⟨polled, hpoll, -⟩ := Py.of_bind h
    obtain ⟨_, hpoll⟩ := Py.of_rest hpoll
    obtain ⟨found, hfound, hpoll⟩ := Py.of_bind hpoll
    obtain ⟨place, hplace, hpoll⟩ := Py.of_bind hpoll
    obtain ⟨_, hahead, -⟩ := Py.of_bind hpoll
    obtain ⟨stored, hstored, hfound⟩ := Py.of_bind hfound
    obtain ⟨_, hfound⟩ := Py.of_rest hfound
    obtain ⟨_, hfound⟩ := Py.of_rest hfound
    obtain ⟨_, hfound⟩ := Py.of_rest hfound
    obtain rfl := Except.ok.inj hfound
    obtain rfl := Except.ok.inj (hstored.symm.trans hget)
    rw [Py.require_eq_ok_iff, decide_eq_true_eq] at hahead
    obtain ⟨-, hpositive⟩ := position_unique hplace hplace
    obtain ⟨position, rfl⟩ := Int.eq_ofNat_of_zero_le hpositive
    exact ⟨position, by exact_mod_cast hahead, hplace⟩

end

/-- What a subscriber is shown does not depend on the sizes of its pages. -/
theorem follow_independent (hget : session.caller.get false session.identity = .ok subscription)
    (hrecorded : journals.Recorded session.identity)
    (htimely : session.Timely subscription journals.changes.length moments) {fuel : ℕ} {final : List Delivery}
    (h : follow session moments fuel 0 cursor journals = .ok (some (items, final))) :
    (items.map Item.cursorSequence).Pairwise (· < ·) ∧
    (∃ position : ℕ, positionOf (session.at (moments 0).now).signer session.identity subscription cursor =
        .ok (position : ℤ) ∧ visits session.answers subscription position (journals.changes.drop position)
        (journals.known session.identity) = .ok items) ∧
    ∀ others : ℕ → Moment, session.Timely subscription journals.changes.length others →
      (∀ fuel found, follow session others fuel 0 cursor journals = .ok (some found) →
        found.1 = items ∧ found.2.map Delivery.undated = final.map Delivery.undated) ∧
      ((∃ found, positionOf (session.at (others 0).now).signer session.identity subscription cursor = .ok found) →
        (∀ rows row, session.answers.fits rows row = true) →
        (∀ fuel, StaysOpen session others fuel 0 cursor journals) →
        ∃ fuel found, follow session others fuel 0 cursor journals = .ok (some found)) := by
  obtain ⟨position, hahead, hposition⟩ := exists_position hget h
  obtain ⟨hvisits, hfinal⟩ := follow_eq_ok hget htimely hrecorded hposition h
  refine ⟨(visits_places hvisits).1, ⟨position, hposition, hvisits⟩, fun others hothers ↦ ⟨fun fuel found hfound ↦ ?_,
    fun hreadable hroom hopen ↦ ?_⟩⟩
  · obtain ⟨place, -, hplace⟩ := exists_position hget hfound
    obtain rfl : position = place := by exact_mod_cast (position_unique hposition hplace).1
    obtain ⟨hvisits', hfinal'⟩ := follow_eq_ok hget hothers hrecorded hplace hfound
    obtain rfl := Except.ok.inj (hvisits'.symm.trans hvisits)
    exact ⟨rfl, hfinal'.trans hfinal.symm⟩
  · obtain ⟨place, hplace⟩ := hreadable
    obtain rfl := (position_unique hposition hplace).1
    exact exists_follow hget hothers hroom hopen hrecorded hplace hahead hvisits

namespace PageSample

/-! Two lessons and the retraction of the first, which is shown because the subscriber knows the lesson. -/

def runtime : Runtime := { Runtime.hashing [] with sha256 := fun _ ↦ "digest" }

def signing : Signing := ⟨.hmacSha256, none, some (List.replicate 32 0), none⟩

def writer : Writer := ⟨"trainer", .agent, List.replicate 32 0, length_zeros⟩

/-- The clock stands at the epoch. -/
def unread : Signer where
  runtime := runtime
  signing := signing
  writer := writer
  now := 0
  isoformat := fun _ ↦ "1970-01-08T00:00:00+00:00"
  fromisoformat := fun text ↦ if text = "1970-01-08T00:00:00+00:00" then some sevenDays else none
  loads := fun _ ↦ none

/-- The row of a cursor. -/
def row (position : ℕ) : Row :=
  match bindWith runtime signing writer (cursorRecord unread "trainer" "digest" position) with
  | .ok row => row
  | .error _ => []

/-- The texts of all cursors of the journal, with their values. -/
def texts : List (Bytes × Json) :=
  (List.range 4).map fun position ↦ (canonicalBytes (.obj (row position)), (Json.obj (row position)).sortKeys)

def change (kind : Kind) (target : String) : Published := ⟨⟨kind, target, [], "", "", "", "", ""⟩, 0⟩

def stored : Journals where
  changes := [change .assert "first", change .assert "second", change .retract "first"]
  subscribers := [⟨"trainer", true⟩]
  deliveries := []
  acknowledgements := []

def query : Subscription := ⟨"", "", "", 3600, "trainer"⟩

def poller : Session where
  signer := { unread with loads := fun bytes ↦ @List.lookup Bytes Json instBEqOfDecidableEq bytes texts }
  caller := ⟨false, "trainer", 0, fun _ _ ↦ .ok query, fun _ ↦ .ok false, fun _ _ ↦ true⟩
  answers := ⟨fun _ ↦ true, fun target ↦ .ok (some [("id", .str target), ("text", .str "")]), fun _ ↦ .ok none,
    fun _ _ ↦ false, fun _ _ ↦ .ok "digest", fun _ _ ↦ true⟩
  identity := "trainer"

def every (limit : ℤ) : ℕ → Moment := fun _ ↦ ⟨0, limit⟩

theorem nodup_texts : (texts.map Prod.fst).Nodup := by decide +kernel

theorem digest_filters : digest runtime query.filters = .ok "digest" := by
  refine digest_eq_ok_iff.mpr ⟨wirable_of_size ?_ (by decide), rfl⟩
  simp [Subscription.filters, Json.Everywhere, Json.EverywhereFields, Plain]

theorem ready : poller.signer.Ready "trainer" query 3 where
  ed25519 := fun _ _ ↦ rfl
  pinned := fun _ h ↦ nomatch h
  keyed := ⟨_, rfl⟩
  identity_le := by decide
  principal_le := by decide
  filters := ⟨_, digest_filters⟩
  digests := fun _ ↦ (by decide : (Json.quote "digest").length ≤ 66)
  signatures := by
    intro principal message
    have hempty : Origin.signature poller.signer.runtime principal message = "" := by
      unfold Origin.signature
      cases principal.algorithm <;> rfl
    rw [hempty]
    decide
  expires := by decide
  fromisoformat := rfl
  loads := by
    intro position hposition filters signed hfilters hbind
    obtain rfl := Except.ok.inj (digest_filters.symm.trans hfilters)
    have hrow : row position = signed := by
      unfold row
      rw [show bindWith runtime signing writer (cursorRecord unread "trainer" "digest" position) =
        .ok signed from hbind]
    have hmem : (canonicalBytes (.obj (row position)), (Json.obj (row position)).sortKeys) ∈ texts :=
      List.mem_map_of_mem (List.mem_range.mpr (Nat.lt_succ_of_le hposition))
    have hlookup := (lookup_eq_some_iff_mem nodup_texts).mpr hmem
    rw [hrow] at hlookup
    exact hlookup
  last_le := by decide

theorem timely {limit : ℤ} (h : 1 ≤ limit ∧ limit ≤ 256) : poller.Timely query 3 (every limit) where
  limits := fun _ ↦ h
  clocks := fun _ ↦ (by decide : (0 : ℤ) < 0 + sevenDays)
  ready := fun _ ↦ ready

theorem get_poller (owner : Bool) (identity : String) : poller.caller.get owner identity = .ok query := rfl

theorem subscriptionFor_eq {journals : Journals} (hchanges : journals.changes = stored.changes)
    (hsubscribers : journals.subscribers = stored.subscribers) :
    subscriptionFor poller.caller journals "trainer" = .ok query := by
  have hpublications : publicationsPending poller.caller journals [] "trainer" = .ok [] := by
    have hcollect := @Py.collect_eq_ok _ _ (fun target ↦
      if skipped [] target then .ok none
      else do
        let blocked ← poller.caller.blocked target
        return if blocked ∧ ¬(erased journals.changes).any (fun row ↦ row.1.event.target = target) then
          some (⟨"trainer", none, target, poller.caller.now, true⟩ : Pending) else none) (fun _ ↦ none)
      (sortBy id (journals.seen "trainer").dedup) fun target _ ↦ by
        split_ifs
        · rfl
        · simp [poller]
    rw [publicationsPending, hcollect, List.filterMap_none]
  have hpending : obligationsOf poller.caller journals "trainer" [] ⟨"trainer", true⟩ = .ok [] := by
    have herased : erased journals.changes = [] := by
      rw [hchanges]
      rfl
    rw [obligationsOf, if_neg (by decide), if_neg (by decide), get_poller,
      Py.bind_ok, show Py.require _ _ = .ok () from rfl, Py.bind_ok, hpublications, erasuresPending, herased]
    rfl
  have hobligations : obligations poller.caller journals "trainer" [] = .ok ⟨[], false, true⟩ := by
    have hsingle : stored.subscribers = [⟨"trainer", true⟩] := rfl
    rw [obligations, hsubscribers, hsingle, show poller.caller.authorize "trainer" = .ok () from rfl, Py.bind_ok,
      Py.collect_always_eq_ok_iff.mpr (List.Forall₂.cons hpending .nil)]
    rfl
  rw [subscriptionFor, get_poller, Py.bind_ok, hobligations]
  rfl

theorem staysOpen (limit : ℤ) (fuel turn : ℕ) (cursor : String) {journals : Journals}
    (hchanges : journals.changes = stored.changes) (hsubscribers : journals.subscribers = stored.subscribers) :
    StaysOpen poller (every limit) fuel turn cursor journals := by
  induction fuel generalizing turn cursor journals with
  | zero => trivial
  | succ fuel ih =>
    exact ⟨⟨query, subscriptionFor_eq hchanges hsubscribers⟩, fun polled _ ↦ ih _ _ hchanges hsubscribers⟩

theorem exists_visits : ∃ items, visits poller.answers query 0 stored.changes [] = .ok items := by
  have hshown : ((visits poller.answers query 0 stored.changes []).toOption.map fun items ↦
      items.map Item.cursorSequence) = some [0, 1, 2] := by decide +kernel
  cases hvisits : visits poller.answers query 0 stored.changes [] with
  | error error => rw [hvisits] at hshown; cases hshown
  | ok items => exact ⟨items, rfl⟩

/-- Pages of one entry and pages of all entries show the same. -/
theorem follow_independent_lessons : ∃ fuel items final,
    follow poller (every 1) fuel 0 "" stored = .ok (some (items, final)) ∧
      ∃ fuel found, follow poller (every 256) fuel 0 "" stored = .ok (some found) ∧ found.1 = items := by
  obtain ⟨items, hvisits⟩ := exists_visits
  have hrecorded : stored.Recorded poller.identity := fun _ hmem ↦ absurd hmem List.not_mem_nil
  obtain ⟨fuel, ⟨shown, final⟩, hrun⟩ := @exists_follow query items stored poller (every 1) "" 0 rfl
    (timely (by decide)) (fun _ _ ↦ rfl) 0 (fun fuel ↦ staysOpen 1 fuel 0 "" rfl rfl) hrecorded rfl (Nat.zero_le _)
      hvisits
  obtain ⟨-, -, hothers⟩ := follow_independent rfl hrecorded (timely (by decide)) hrun
  obtain ⟨hsame, hends⟩ := hothers (every 256) (timely (by decide))
  obtain ⟨fuel', found, hfound⟩ := hends ⟨0, rfl⟩ (fun _ _ ↦ rfl) fun fuel ↦ staysOpen 256 fuel 0 "" rfl rfl
  exact ⟨fuel, shown, final, hrun, fuel', found, hfound, (hsame fuel' found hfound).1⟩

end PageSample

end UniMem.ChangeStream
