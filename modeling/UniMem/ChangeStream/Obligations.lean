import UniMem.ChangeStream.Outbox

/-!
# Erasure obligations

`obligations` lists for each subscriber the erase events of every target that was ever delivered to it and that it
has not acknowledged. Moments are microseconds.
-/

namespace UniMem.ChangeStream

open Library FrontierProtocol

/-- An event of `memory-changes.jsonl`. Its sequence number is its place. -/
structure Published where
  event : Event
  publishedAt : ℤ
  deriving DecidableEq

/-- What is stored of a standing query. -/
structure Subscription where
  nameSpace : String
  entity : String
  predicate : String
  ackSeconds : ℤ
  principal : String
  deriving DecidableEq

/-- An entry of the subscription journal. -/
structure Subscriber where
  id : String
  active : Bool
  deriving DecidableEq

/-- A row of `stream-deliveries`. -/
structure Delivery where
  subscriber : String
  sequenceNumber : ℕ
  target : String
  eventDigest : String
  eraseAckRequired : Bool
  deadline : ℤ
  deriving DecidableEq

/-- A row of `stream-acks`. -/
structure Acknowledgement where
  subscriber : String
  sequenceNumber : ℕ
  receiptDigest : String
  acknowledgedAt : ℤ
  deriving DecidableEq

/-- What a stream consists of, with the last entry of each subscriber. -/
structure Journals where
  changes : List Published
  subscribers : List Subscriber
  deliveries : List Delivery
  acknowledgements : List Acknowledgement

/-- Who calls, at what moment, and what the store answers. -/
structure Caller where
  operator : Bool
  principal : String
  now : ℤ
  /-- `nextwave_store.get`, for the owner or in a context. -/
  get : Bool → String → Py Subscription
  /-- `memory_authority.lineage_blocked` on canonical sources. -/
  blocked : String → Py Bool
  /-- Whether a row fits into the journal of acknowledgements. -/
  fits : List Acknowledgement → Acknowledgement → Bool

/-- An entry of `pending`, without a sequence number while the erasure is not published. -/
structure Pending where
  subscriber : String
  sequenceNumber : Option ℕ
  target : String
  deadline : ℤ
  overdue : Bool
  deriving DecidableEq

structure Obligations where
  pending : List Pending
  cutOff : Bool
  allAcknowledged : Bool
  deriving DecidableEq

/-- The erase events with their places. -/
def erased (changes : List Published) : List (Published × ℕ) :=
  changes.zipIdx.filter fun row ↦ row.1.event.kind = .erase

/-- The targets that were delivered to a subscriber. -/
def Journals.seen (journals : Journals) (subscriber : String) : List String :=
  (journals.deliveries.filter (·.subscriber = subscriber)).map Delivery.target

/-- `if targets and target not in targets`. -/
def skipped (targets : List String) (target : String) : Bool := targets ≠ [] ∧ target ∉ targets

/-- The targets that are forgotten before their erasure is published. -/
def publicationsPending (caller : Caller) (journals : Journals) (targets : List String) (subscriber : String) :
    Py (List Pending) :=
  Py.collect (fun target ↦
    if skipped targets target then .ok none
    else do
      let blocked ← caller.blocked target
      return if blocked ∧ ¬(erased journals.changes).any (fun row ↦ row.1.event.target = target) then
        some ⟨subscriber, none, target, caller.now, true⟩ else none)
    (sortBy id (journals.seen subscriber).dedup)

def microseconds : ℤ := 1_000_000

/-- The erasures of delivered targets that are not acknowledged. -/
def erasuresPending (caller : Caller) (journals : Journals) (targets : List String) (subscriber : String)
    (subscription : Subscription) : List Pending :=
  (erased journals.changes).filterMap fun row ↦
    if row.1.event.target ∉ journals.seen subscriber ∨ skipped targets row.1.event.target then none
    else if journals.acknowledgements.any (fun ack ↦ ack.subscriber = subscriber ∧ ack.sequenceNumber = row.2) then
      none
    else
      let deadline := row.1.publishedAt + subscription.ackSeconds * microseconds
      some ⟨subscriber, some row.2, row.1.event.target, deadline, deadline ≤ caller.now⟩

/-- The obligations of one subscriber. -/
def obligationsOf (caller : Caller) (journals : Journals) (identity : String) (targets : List String)
    (subscriber : Subscriber) : Py (List Pending) :=
  if identity ≠ "" ∧ subscriber.id ≠ identity then .ok []
  else if subscriber.active = false then .ok []
  else do
    let subscription ← caller.get (identity = "") subscriber.id
    Py.require (identity = "" ∨ subscription.principal = caller.principal)
      (.permissionError "UniMem stream belongs to another principal")
    let publications ← publicationsPending caller journals targets subscriber.id
    return publications ++ erasuresPending caller journals targets subscriber.id subscription

/-- Only an operator may ask about all subscribers. -/
def Caller.authorize (caller : Caller) (identity : String) : Py Unit :=
  if identity = "" then
    Py.require caller.operator (.permissionError "UniMem operation requires an undelegated operator context")
  else .ok ()

/-- `obligations`. -/
def obligations (caller : Caller) (journals : Journals) (identity : String) (targets : List String) :
    Py Obligations := do
  caller.authorize identity
  let pending ← Py.collect (Py.always (obligationsOf caller journals identity targets)) journals.subscribers
  return ⟨pending.flatten, pending.flatten.any Pending.overdue, pending.flatten.isEmpty⟩

/-- A SHA-256 digest in hexadecimal. -/
def isReceipt (digest : String) : Bool :=
  digest.length = 64 && digest.toList.all fun char ↦ "0123456789abcdef".toList.contains char

/-- `acknowledge`: the journals after it. -/
def acknowledge (caller : Caller) (journals : Journals) (identity : String) (sequenceNumber : ℕ)
    (receiptDigest : String) : Py Journals := do
  let subscription ← caller.get false identity
  Py.require (subscription.principal = caller.principal)
    (.permissionError "UniMem erasure acknowledgement principal mismatch")
  let result ← obligations caller journals identity []
  Py.require (result.pending.any fun entry ↦ entry.sequenceNumber = some sequenceNumber)
    (.valueError "UniMem acknowledgement requires a pending delivered erasure obligation")
  Py.require (isReceipt receiptDigest)
    (.valueError "UniMem downstream erasure requires a SHA-256 receipt commitment")
  let ack : Acknowledgement := ⟨identity, sequenceNumber, receiptDigest, caller.now⟩
  Py.require (caller.fits journals.acknowledgements ack) (.valueError "journal exceeds 64 MiB; rotate it")
  return { journals with acknowledgements := journals.acknowledgements ++ [ack] }

variable {caller : Caller} {journals next : Journals} {identity subscriber : String} {targets : List String}
  {result : Obligations} {place : ℕ}

/-- An erase event at a place of the journal. -/
def ErasedAt (journals : Journals) (place : ℕ) (target : String) : Prop :=
  ∃ row, journals.changes[place]? = some row ∧ row.event.kind = .erase ∧ row.event.target = target

def Acknowledged (journals : Journals) (subscriber : String) (place : ℕ) : Prop :=
  ∃ ack ∈ journals.acknowledgements, ack.subscriber = subscriber ∧ ack.sequenceNumber = place

/-- A target was delivered with some number. -/
def DeliveredAt (journals : Journals) (subscriber target : String) (place : ℕ) : Prop :=
  ∃ delivery ∈ journals.deliveries, delivery.subscriber = subscriber ∧ delivery.target = target ∧
    delivery.sequenceNumber = place

/-- The obligations list an erase event for a subscriber. -/
def Listed (result : Obligations) (subscriber : String) (place : ℕ) : Prop :=
  ∃ entry ∈ result.pending, entry.subscriber = subscriber ∧ entry.sequenceNumber = some place

/-- The subscribers that a call is about. -/
def Concerns (journals : Journals) (identity subscriber : String) : Prop :=
  (∃ entry ∈ journals.subscribers, entry.id = subscriber ∧ entry.active = true) ∧
    (identity = "" ∨ subscriber = identity)

theorem mem_erased_iff {row : Published} {changes : List Published} :
    (row, place) ∈ erased changes ↔ changes[place]? = some row ∧ row.event.kind = .erase := by
  rw [erased, List.mem_filter, List.mk_mem_zipIdx_iff_getElem?, decide_eq_true_eq]

theorem mem_seen_iff {target : String} :
    target ∈ journals.seen subscriber ↔ ∃ number, DeliveredAt journals subscriber target number := by
  simp only [Journals.seen, List.mem_map, List.mem_filter, decide_eq_true_eq, DeliveredAt]
  constructor
  · rintro ⟨delivery, ⟨hmem, hsubscriber⟩, htarget⟩
    exact ⟨_, delivery, hmem, hsubscriber, htarget, rfl⟩
  · rintro ⟨_, delivery, hmem, hsubscriber, htarget, -⟩
    exact ⟨delivery, ⟨hmem, hsubscriber⟩, htarget⟩

/-- What is due for an erase event: its target was delivered, is not left out and not acknowledged. -/
def Owed (journals : Journals) (targets : List String) (subscriber : String) (place : ℕ) : Prop :=
  ∃ target, ErasedAt journals place target ∧ (∃ number, DeliveredAt journals subscriber target number) ∧
    skipped targets target = false ∧ ¬Acknowledged journals subscriber place

theorem erasuresPending_iff {subscription : Subscription} :
    (∃ entry ∈ erasuresPending caller journals targets subscriber subscription, entry.sequenceNumber = some place) ↔
      Owed journals targets subscriber place := by
  have hacknowledged : (journals.acknowledgements.any fun ack ↦
      ack.subscriber = subscriber ∧ ack.sequenceNumber = place) = true ↔ Acknowledged journals subscriber place := by
    simp only [List.any_eq_true, decide_eq_true_eq, Acknowledged]
  constructor
  · rintro ⟨entry, hentry, hplace⟩
    obtain ⟨⟨row, number⟩, hrow, hentry⟩ := List.mem_filterMap.mp hentry
    dsimp only at hentry
    split_ifs at hentry with hskip hack
    obtain rfl := Option.some.inj hentry
    obtain rfl := Option.some.inj hplace
    rw [not_or, not_not, Bool.not_eq_true] at hskip
    obtain ⟨hchange, hkind⟩ := mem_erased_iff.mp hrow
    exact ⟨_, ⟨row, hchange, hkind, rfl⟩, mem_seen_iff.mp hskip.1, hskip.2, fun h ↦ hack (hacknowledged.mpr h)⟩
  · rintro ⟨target, ⟨row, hchange, hkind, rfl⟩, hseen, hskip, hack⟩
    have hkept : ¬(row.event.target ∉ journals.seen subscriber ∨ skipped targets row.event.target = true) := by
      rw [not_or, not_not, Bool.not_eq_true]
      exact ⟨mem_seen_iff.mpr hseen, hskip⟩
    refine ⟨⟨subscriber, some place, row.event.target, row.publishedAt + subscription.ackSeconds * microseconds,
      decide (row.publishedAt + subscription.ackSeconds * microseconds ≤ caller.now)⟩,
      List.mem_filterMap.mpr ⟨(row, place), mem_erased_iff.mpr ⟨hchange, hkind⟩, ?_⟩, rfl⟩
    rw [if_neg hkept, if_neg fun h ↦ hack (hacknowledged.mp h)]

theorem subscriber_of_mem_erasures {subscription : Subscription} {entry : Pending}
    (h : entry ∈ erasuresPending caller journals targets subscriber subscription) : entry.subscriber =
      subscriber := by
  obtain ⟨row, -, hentry⟩ := List.mem_filterMap.mp h
  dsimp only at hentry
  split_ifs at hentry
  rw [← Option.some.inj hentry]

theorem sequenceNumber_of_mem_publications {entries : List Pending} {entry : Pending}
    (h : publicationsPending caller journals targets subscriber = .ok entries) (hmem : entry ∈ entries) :
    entry.sequenceNumber = none := by
  obtain ⟨target, -, hentry⟩ := (Py.mem_collect_iff h _).mp hmem
  split_ifs at hentry
  · cases hentry
  · obtain ⟨blocked, -, hentry⟩ := Py.of_bind hentry
    have hentry := Except.ok.inj hentry
    split_ifs at hentry
    rw [← Option.some.inj hentry]

theorem obligationsOf_iff {entry : Subscriber} {pending : List Pending}
    (h : obligationsOf caller journals identity targets entry = .ok pending) :
    (∃ item ∈ pending, item.subscriber = subscriber ∧ item.sequenceNumber = some place) ↔
      entry.id = subscriber ∧ entry.active = true ∧ (identity = "" ∨ subscriber = identity) ∧
        Owed journals targets subscriber place := by
  unfold obligationsOf at h
  split_ifs at h with hother hinactive
  · obtain rfl := Except.ok.inj h
    refine iff_of_false (fun ⟨_, hitem, _⟩ ↦ absurd hitem List.not_mem_nil) ?_
    rintro ⟨rfl, -, hidentity, -⟩
    exact hidentity.elim hother.1 hother.2
  · obtain rfl := Except.ok.inj h
    refine iff_of_false (fun ⟨_, hitem, _⟩ ↦ absurd hitem List.not_mem_nil) ?_
    rintro ⟨-, hactive, -⟩
    rw [hinactive] at hactive
    cases hactive
  · obtain ⟨subscription, -, h⟩ := Py.of_bind h
    obtain ⟨_, h⟩ := Py.of_rest h
    obtain ⟨publications, hpublications, h⟩ := Py.of_bind h
    obtain rfl := Except.ok.inj h
    constructor
    · rintro ⟨item, hitem, rfl, hplace⟩
      obtain hpublication | herasure := List.mem_append.mp hitem
      · rw [sequenceNumber_of_mem_publications hpublications hpublication] at hplace
        cases hplace
      · have hsubscriber := subscriber_of_mem_erasures herasure
        rw [hsubscriber]
        refine ⟨rfl, Bool.not_eq_false _ ▸ hinactive, ?_, erasuresPending_iff.mp ⟨item, herasure, hplace⟩⟩
        by_contra hneither
        rw [not_or] at hneither
        exact hother hneither
    · rintro ⟨rfl, -, -, howed⟩
      obtain ⟨item, hitem, hplace⟩ := erasuresPending_iff.mpr howed
      exact ⟨item, List.mem_append_right _ hitem, subscriber_of_mem_erasures hitem, hplace⟩

theorem listed_iff (h : obligations caller journals identity targets = .ok result) :
    Listed result subscriber place ↔ Concerns journals identity subscriber ∧
      Owed journals targets subscriber place := by
  obtain ⟨_, h⟩ := Py.of_rest h
  obtain ⟨pending, hpending, h⟩ := Py.of_bind h
  obtain rfl := Except.ok.inj h
  have hall := Py.collect_always_eq_ok_iff.mp hpending
  constructor
  · rintro ⟨item, hitem, hsubscriber, hplace⟩
    obtain ⟨items, hitems, hitem⟩ := List.mem_flatten.mp hitem
    obtain ⟨entry, hentry, heq⟩ := exists_of_mem_forall₂ hall.flip hitems
    obtain ⟨rfl, hactive, hidentity, howed⟩ := (obligationsOf_iff heq).mp ⟨item, hitem, hsubscriber, hplace⟩
    exact ⟨⟨⟨entry, hentry, rfl, hactive⟩, hidentity⟩, howed⟩
  · rintro ⟨⟨⟨entry, hentry, rfl, hactive⟩, hidentity⟩, howed⟩
    obtain ⟨items, hitems, heq⟩ := exists_of_mem_forall₂ hall hentry
    obtain ⟨item, hitem, hsubscriber, hplace⟩ := (obligationsOf_iff heq).mpr ⟨rfl, hactive, hidentity, howed⟩
    exact ⟨item, List.mem_flatten.mpr ⟨items, hitems, hitem⟩, hsubscriber, hplace⟩

/-- Journals that differ in their acknowledgements only, of which the second have more. -/
structure Settles (journals next : Journals) : Prop where
  changes : next.changes = journals.changes
  subscribers : next.subscribers = journals.subscribers
  deliveries : next.deliveries = journals.deliveries
  acknowledgements : ∀ ack ∈ journals.acknowledgements, ack ∈ next.acknowledgements

theorem Settles.refl (journals : Journals) : Settles journals journals := ⟨rfl, rfl, rfl, fun _ h ↦ h⟩

theorem Settles.trans {later : Journals} (h : Settles journals next) (h' : Settles next later) :
    Settles journals later :=
  ⟨h'.changes.trans h.changes, h'.subscribers.trans h.subscribers, h'.deliveries.trans h.deliveries,
    fun ack hack ↦ h'.acknowledgements ack (h.acknowledgements ack hack)⟩

theorem Settles.owed (h : Settles journals next) (howed : Owed next targets subscriber place) :
    Owed journals targets subscriber place := by
  obtain ⟨target, herased, hdelivered, hskip, hack⟩ := howed
  rw [ErasedAt, h.changes] at herased
  unfold DeliveredAt at hdelivered
  rw [h.deliveries] at hdelivered
  exact ⟨target, herased, hdelivered, hskip, fun ⟨ack, hmem, heq⟩ ↦ hack ⟨ack, h.acknowledgements ack hmem, heq⟩⟩

theorem Settles.owed_of_not_acknowledged (h : Settles journals next) (howed : Owed journals targets subscriber place)
    (hack : ¬Acknowledged next subscriber place) : Owed next targets subscriber place := by
  obtain ⟨target, herased, hdelivered, hskip, -⟩ := howed
  rw [ErasedAt, ← h.changes] at herased
  unfold DeliveredAt at hdelivered
  rw [← h.deliveries] at hdelivered
  exact ⟨target, herased, hdelivered, hskip, hack⟩

theorem acknowledge_eq_ok_iff {digest : String} :
    acknowledge caller journals identity place digest = .ok next ↔
      (∃ subscription, caller.get false identity = .ok subscription ∧ subscription.principal = caller.principal) ∧
      (∃ result, obligations caller journals identity [] = .ok result ∧
        ∃ entry ∈ result.pending, entry.sequenceNumber = some place) ∧
      isReceipt digest = true ∧ caller.fits journals.acknowledgements ⟨identity, place, digest, caller.now⟩ = true ∧
      next = { journals with
        acknowledgements := journals.acknowledgements ++ [⟨identity, place, digest, caller.now⟩] } := by
  unfold acknowledge
  simp only [Py.bind_eq_ok_iff, Py.require_eq_ok_iff, decide_eq_true_eq, List.any_eq_true, Py.pure_eq_ok,
    Except.ok.injEq, Unique.exists_iff]
  constructor
  · rintro ⟨subscription, hget, hprincipal, result, hresult, hpending, hreceipt, hfits, rfl⟩
    exact ⟨⟨subscription, hget, hprincipal⟩, ⟨result, hresult, hpending⟩, hreceipt, hfits, rfl⟩
  · rintro ⟨⟨subscription, hget, hprincipal⟩, ⟨result, hresult, hpending⟩, hreceipt, hfits, rfl⟩
    exact ⟨subscription, hget, hprincipal, result, hresult, hpending, hreceipt, hfits, rfl⟩

theorem settles_acknowledge {digest : String} (h : acknowledge caller journals identity place digest = .ok next) :
    Settles journals next ∧ Acknowledged next identity place := by
  obtain ⟨-, -, -, -, rfl⟩ := acknowledge_eq_ok_iff.mp h
  exact ⟨⟨rfl, rfl, rfl, fun _ ↦ List.mem_append_left _⟩, _, List.mem_append_right _ (List.mem_singleton.mpr rfl),
    rfl, rfl⟩

/-- The calls of `acknowledge` for some sequence numbers, each with its receipt. -/
def acknowledgeAll (identity : String) (journals : Journals) (receipts : List (Caller × ℕ × String)) : Py Journals :=
  receipts.foldlM (fun journals receipt ↦ acknowledge receipt.1 journals identity receipt.2.1 receipt.2.2) journals

theorem settles_acknowledgeAll {receipts : List (Caller × ℕ × String)}
    (h : acknowledgeAll identity journals receipts = .ok next) :
    Settles journals next ∧ ∀ receipt ∈ receipts, Acknowledged next identity receipt.2.1 := by
  induction receipts generalizing journals with
  | nil =>
    obtain rfl := Except.ok.inj h
    exact ⟨Settles.refl _, fun _ hmem ↦ absurd hmem List.not_mem_nil⟩
  | cons receipt receipts ih =>
    obtain ⟨middle, hfirst, hrest⟩ := Py.of_bind h
    obtain ⟨hsettles, hack⟩ := settles_acknowledge hfirst
    obtain ⟨hlater, hall⟩ := ih hrest
    refine ⟨hsettles.trans hlater, List.forall_mem_cons.mpr ⟨?_, hall⟩⟩
    obtain ⟨ack, hmem, heq⟩ := hack
    exact ⟨ack, hlater.acknowledgements ack hmem, heq⟩

theorem Settles.publicationsPending (h : Settles journals next) :
    publicationsPending caller next targets subscriber = ChangeStream.publicationsPending caller journals targets
      subscriber := by
  unfold ChangeStream.publicationsPending Journals.seen
  rw [h.changes, h.deliveries]

theorem Settles.obligations (h : Settles journals next)
    (hbefore : obligations caller journals identity targets = .ok result) :
    ∃ after, ChangeStream.obligations caller next identity targets = .ok after := by
  obtain ⟨_, hoperator, hbefore⟩ := Py.of_bind hbefore
  obtain ⟨pending, hpending, -⟩ := Py.of_bind hbefore
  have hall := Py.collect_always_eq_ok_iff.mp hpending
  have hreads : ∀ entry ∈ next.subscribers, ∃ found,
      Py.always (obligationsOf caller next identity targets) entry = .ok found := by
    intro entry hentry
    rw [h.subscribers] at hentry
    obtain ⟨items, -, hitems⟩ := exists_of_mem_forall₂ hall hentry
    suffices hafter : ∃ others, obligationsOf caller next identity targets entry = .ok others by
      obtain ⟨others, hothers⟩ := hafter
      exact ⟨some others, Py.always_eq_ok_iff.mpr hothers⟩
    unfold obligationsOf at hitems ⊢
    split_ifs at hitems ⊢
    · exact ⟨_, rfl⟩
    · exact ⟨_, rfl⟩
    · obtain ⟨subscription, hget, hitems⟩ := Py.of_bind hitems
      obtain ⟨_, hprincipal, hitems⟩ := Py.of_bind hitems
      obtain ⟨publications, hpublications, -⟩ := Py.of_bind hitems
      rw [hget, Py.bind_ok, hprincipal, Py.bind_ok, h.publicationsPending, hpublications]
      exact ⟨_, rfl⟩
  obtain ⟨found, hfound⟩ := Py.exists_collect hreads
  exact ⟨_, Py.bind_eq_ok_iff.mpr ⟨_, hoperator, Py.bind_eq_ok_iff.mpr ⟨found, hfound, rfl⟩⟩⟩

theorem exists_subscription (hidentity : identity ≠ "")
    (h : obligations caller journals identity targets = .ok result)
      (hconcerns : Concerns journals identity subscriber) :
    ∃ subscription, caller.get false identity = .ok subscription ∧ subscription.principal = caller.principal := by
  obtain ⟨_, h⟩ := Py.of_rest h
  obtain ⟨pending, hpending, -⟩ := Py.of_bind h
  obtain ⟨⟨entry, hentry, rfl, hactive⟩, hsame⟩ := hconcerns
  obtain rfl := hsame.resolve_left hidentity
  obtain ⟨items, -, hitems⟩ := exists_of_mem_forall₂ (Py.collect_always_eq_ok_iff.mp hpending) hentry
  rw [obligationsOf, if_neg fun hboth ↦ hboth.2 rfl, if_neg (by rw [hactive]; exact Bool.noConfusion)] at hitems
  obtain ⟨subscription, hget, hitems⟩ := Py.of_bind hitems
  obtain ⟨_, hprincipal, -⟩ := Py.of_bind hitems
  rw [decide_eq_false hidentity] at hget
  rw [Py.require_eq_ok_iff, decide_eq_true_eq] at hprincipal
  exact ⟨subscription, hget, hprincipal.resolve_left hidentity⟩

theorem exists_acknowledgeAll (hidentity : identity ≠ "")
    (hfits : ∀ rows row, caller.fits rows row = true) {receipts : List (ℕ × String)}
    (h : obligations caller journals identity [] = .ok result) (hnumbers : (receipts.map Prod.fst).Nodup)
    (hlisted : ∀ receipt ∈ receipts, Listed result identity receipt.1)
    (hreceipts : ∀ receipt ∈ receipts, isReceipt receipt.2 = true) :
    ∃ next, acknowledgeAll identity journals (receipts.map fun receipt ↦ (caller, receipt)) = .ok next := by
  induction receipts generalizing journals result with
  | nil => exact ⟨journals, rfl⟩
  | cons receipt receipts ih =>
    rw [List.forall_mem_cons] at hlisted hreceipts
    rw [List.map_cons, List.nodup_cons] at hnumbers
    obtain ⟨entry, hentry, -, hplace⟩ := id hlisted.1
    obtain ⟨hconcerns, -⟩ := (listed_iff h).mp hlisted.1
    have hfirst := acknowledge_eq_ok_iff.mpr ⟨exists_subscription hidentity h hconcerns,
      ⟨result, h, entry, hentry, hplace⟩, hreceipts.1, hfits _ _, rfl⟩
    obtain ⟨hsettles, -⟩ := settles_acknowledge hfirst
    obtain ⟨after, hafter⟩ := hsettles.obligations h
    have hstill : ∀ other ∈ receipts, Listed after identity other.1 := by
      intro other hother
      obtain ⟨⟨hsubscriber, hsame⟩, howed⟩ := (listed_iff h).mp (hlisted.2 other hother)
      refine (listed_iff hafter).mpr ⟨⟨hsettles.subscribers ▸ hsubscriber, hsame⟩,
        hsettles.owed_of_not_acknowledged howed ?_⟩
      rintro ⟨ack, hack, hack'⟩
      obtain hold | hnew := List.mem_append.mp hack
      · obtain ⟨_, -, -, -, hnot⟩ := howed
        exact hnot ⟨ack, hold, hack'⟩
      · obtain rfl := List.mem_singleton.mp hnew
        exact hnumbers.1 (List.mem_map.mpr ⟨other, hother, hack'.2.symm⟩)
    obtain ⟨next, hnext⟩ := ih hafter hnumbers.2 hstill hreceipts.2
    exact ⟨next, Py.bind_eq_ok_iff.mpr ⟨_, hfirst, hnext⟩⟩

/-- An erase event that follows a delivery of its target and is not acknowledged. -/
def Due (journals : Journals) (subscriber : String) (place : ℕ) : Prop :=
  ∃ target, ErasedAt journals place target ∧ (∃ number < place, DeliveredAt journals subscriber target number) ∧
    ¬Acknowledged journals subscriber place

/-- An erase event that is not acknowledged and precedes every delivery of its target. -/
def ErasedFirst (journals : Journals) (subscriber : String) (place : ℕ) : Prop :=
  ∃ target, ErasedAt journals place target ∧ (∃ number, DeliveredAt journals subscriber target number) ∧
    (∀ number, DeliveredAt journals subscriber target number → place ≤ number) ∧
    ¬Acknowledged journals subscriber place

theorem target_of_erasedAt {first second : String} (h : ErasedAt journals place first)
    (h' : ErasedAt journals place second) : first = second := by
  obtain ⟨row, hrow, -, rfl⟩ := h
  obtain ⟨row', hrow', -, rfl⟩ := h'
  rw [Option.some.inj (hrow.symm.trans hrow')]

theorem owed_iff_due : (Owed journals [] subscriber place ↔ Due journals subscriber place) ↔
    ¬ErasedFirst journals subscriber place := by
  constructor
  · rintro h ⟨target, herased, hdelivered, hfirst, hack⟩
    obtain ⟨other, hother, ⟨number, hbefore, hnumber⟩, -⟩ := h.mp ⟨target, herased, hdelivered, rfl, hack⟩
    rw [target_of_erasedAt hother herased] at hnumber
    exact absurd (hfirst number hnumber) (not_le.mpr hbefore)
  · intro hfirst
    constructor
    · rintro ⟨target, herased, hdelivered, -, hack⟩
      refine ⟨target, herased, ?_, hack⟩
      by_contra hnone
      push Not at hnone
      exact hfirst ⟨target, herased, hdelivered, fun number hnumber ↦
        not_lt.mp fun hbefore ↦ hnone number hbefore hnumber, hack⟩
    · rintro ⟨target, herased, ⟨number, -, hnumber⟩, hack⟩
      exact ⟨target, herased, ⟨number, hnumber⟩, rfl, hack⟩

/-- The obligations are the erase events that are due, unless they precede every delivery. -/
theorem obligations_exact_iff (h : obligations caller journals identity [] = .ok result) :
    (∀ subscriber place, Concerns journals identity subscriber →
      ((Listed result subscriber place ↔ Due journals subscriber place) ↔ ¬ErasedFirst journals subscriber place)) ∧
    (∀ receipts next, acknowledgeAll identity journals receipts = .ok next →
      (∀ place, Listed result identity place → ∃ receipt ∈ receipts, receipt.2.1 = place) →
      ∀ (later : Caller) after, obligations later next identity [] = .ok after →
        ∀ place, ¬Listed after identity place) ∧
    (identity ≠ "" → (∀ rows row, caller.fits rows row = true) → ∀ receipts : List (ℕ × String),
      (receipts.map Prod.fst).Nodup → (∀ receipt ∈ receipts, Listed result identity receipt.1) →
      (∀ receipt ∈ receipts, isReceipt receipt.2 = true) →
      ∃ next, acknowledgeAll identity journals (receipts.map fun receipt ↦ (caller, receipt)) = .ok next) := by
  refine ⟨fun subscriber place hconcerns ↦ ?_, fun receipts next hnext hall later after hafter place hlisted ↦ ?_,
    fun hidentity hfits receipts hnumbers hlisted hreceipts ↦
      exists_acknowledgeAll hidentity hfits h hnumbers hlisted hreceipts⟩
  · rw [listed_iff h, and_iff_right hconcerns]
    exact owed_iff_due
  · obtain ⟨hsettles, hacknowledged⟩ := settles_acknowledgeAll hnext
    obtain ⟨⟨hsubscriber, hsame⟩, howed⟩ := (listed_iff hafter).mp hlisted
    have hbefore : Listed result identity place :=
      (listed_iff h).mpr ⟨⟨hsettles.subscribers ▸ hsubscriber, hsame⟩, hsettles.owed howed⟩
    obtain ⟨receipt, hreceipt, rfl⟩ := hall place hbefore
    obtain ⟨_, -, -, -, hnot⟩ := howed
    exact hnot (hacknowledged receipt hreceipt)

namespace Sample

/-! An identity that is erased, created again and delivered for the first time. -/

def change (kind : Kind) (publishedAt : ℤ) : Published :=
  ⟨⟨kind, "lesson", [], "lessons", "", "", "", ""⟩, publishedAt⟩

def recreated : Journals where
  changes := [change .erase 0, change .assert 5]
  subscribers := [⟨"trainer", true⟩]
  deliveries := [⟨"trainer", 1, "lesson", "digest", false, 10_000_005⟩]
  acknowledgements := []

def trainer : Caller where
  operator := false
  principal := "trainer"
  now := 20_000_000
  get := fun _ _ ↦ .ok ⟨"", "", "", 10, "trainer"⟩
  blocked := fun _ ↦ .ok false
  fits := fun _ _ ↦ true

def listed : Obligations where
  pending := [⟨"trainer", some 0, "lesson", 10_000_000, true⟩]
  cutOff := true
  allAcknowledged := false

theorem obligations_recreated : obligations trainer recreated "trainer" [] = .ok listed := by
  decide +kernel

theorem obligations_exact_iff_recreated :
    (Listed listed "trainer" 0 ↔ Due recreated "trainer" 0) ↔ ¬ErasedFirst recreated "trainer" 0 :=
  (obligations_exact_iff obligations_recreated).1 "trainer" 0
    ⟨⟨⟨"trainer", true⟩, List.mem_cons_self, rfl, rfl⟩, .inr rfl⟩

/-- The subscriber is cut off for an erasure before its only delivery of the target. -/
theorem cut_off_by_earlier_erasure :
    (¬∀ result, obligations trainer recreated "trainer" [] = .ok result →
      ∀ place, Listed result "trainer" place ↔ Due recreated "trainer" place) ∧ listed.cutOff = true := by
  refine ⟨fun h ↦ ?_, rfl⟩
  obtain ⟨_, -, ⟨number, hbefore, -⟩, -⟩ := (h listed obligations_recreated 0).mp
    ⟨_, List.mem_singleton.mpr rfl, rfl, rfl⟩
  exact absurd hbefore (Nat.not_lt_zero number)

end Sample

end UniMem.ChangeStream
