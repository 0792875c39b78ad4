import UniMem.Billing.Webhook

/-!
# Events out of order

An event of a deleted subscription that says that it is active opens it again. Where no such event is delivered, no
event of another subscription than the current one takes a plan away.
-/

namespace UniMem.Billing

open Library

variable {settings : StripeSettings} {orgs : Organizations} {event : Event} {state next : State}

/-- The plan that an event gives to an organization. -/
def activation (settings : StripeSettings) (event : Event) (org : Organization) : Option String :=
  match event.object with
  | none => none
  | some object =>
    if event.type = completedType then
      if (truthy object.clientReferenceId).or object.metadataOrgId = some org.id ∧
          truthy object.customer ≠ none then
        object.metadataPlan.filter (· ∈ billablePlans)
      else none
    else if event.type = updatedType ∧ truthy object.customer ≠ none ∧
        truthy object.customer = org.stripeCustomerId then
      updatedPlan settings object
    else none

/-- Events of the provider name the subscription that they are about. -/
def Event.WellFormed (event : Event) : Prop :=
  ∀ object, event.object = some object →
    (event.type = completedType → truthy object.subscription ≠ none) ∧
    (event.type = updatedType ∨ event.type = deletedType → truthy object.id ≠ none)

/-- An event that ends the current subscription, or one that is not known to be another one. -/
def Ends (event : Event) (org : Organization) : Prop :=
  event.object ≠ none ∧ org.stripeCustomerId ≠ none ∧
    (event.type = updatedType ∨ event.type = deletedType) ∧ ∀ current, truthy org.stripeSubscriptionId =
      some current →
      event.subscription = "" ∨ event.subscription = current

theorem truthy_eq_some {value : Option String} {text : String} (h : truthy value = some text) :
    value = some text ∧ text ≠ "" := by
  obtain ⟨hvalue, htext⟩ := Option.filter_eq_some_iff.mp h
  exact ⟨hvalue, by simpa using htext⟩

variable {id customer : String} {object : Object} {updated : Organization}

theorem mem_of_byId {org : Organization} (h : byId orgs id = some org) :
    org ∈ orgs ∧ org.id = id :=
  ⟨List.mem_of_find?_eq_some h, by simpa using List.find?_some h⟩

theorem mem_of_byCustomer {org : Organization} (h : byCustomer orgs customer = some org) :
    org ∈ orgs ∧ org.stripeCustomerId = some customer :=
  ⟨List.mem_of_find?_eq_some h, by simpa using List.find?_some h⟩

/-- The effect of an event on one organization. -/
inductive Effect (settings : StripeSettings) (event : Event) (org updated : Organization) : Prop where
  | activated (plan : String) (hplan : activation settings event org = some plan)
      (hupdated : updated.plan = plan)
      (hsubscription : event.WellFormed → truthy updated.stripeSubscriptionId = some event.subscription)
  | ended (hends : Ends event org) (hupdated : updated.plan = defaultPlan)

theorem applyCompleted_cases (hobject : event.object = some object) (htype : event.type = completedType) :
    (applyCompleted orgs object).2 = orgs ∨ ∃ org ∈ orgs, ∃ updated,
      (applyCompleted orgs object).2 = store orgs updated ∧ updated.id = org.id ∧
        Effect settings event org updated := by
  unfold applyCompleted
  cases horg : (truthy object.clientReferenceId).or object.metadataOrgId with
  | none => exact Or.inl rfl
  | some orgId =>
    dsimp only
    by_cases hmalformed : (orgId = "" || !looksLikeOrgId orgId) = true
    · rw [if_pos hmalformed]
      exact Or.inl rfl
    · rw [if_neg hmalformed]
      cases hplan : object.metadataPlan with
      | none => exact Or.inl rfl
      | some plan =>
        dsimp only
        by_cases hbillable : plan ∉ billablePlans
        · rw [if_pos hbillable]
          exact Or.inl rfl
        · rw [if_neg hbillable]
          cases hcustomer : truthy object.customer with
          | none => exact Or.inl rfl
          | some customer =>
            dsimp only
            cases hfound : byId orgs orgId with
            | none => exact Or.inl rfl
            | some org =>
              obtain ⟨hmem, rfl⟩ := mem_of_byId hfound
              refine Or.inr ⟨org, hmem, _, rfl, rfl, .activated plan ?_ rfl ?_⟩
              · rw [activation, hobject]
                dsimp only
                rw [if_pos htype, if_pos ⟨horg, by simp [hcustomer]⟩, hplan]
                simpa using hbillable
              · intro hwellFormed
                obtain ⟨subscription, hsubscription⟩ :=
                  Option.ne_none_iff_exists'.mp ((hwellFormed object hobject).1 htype)
                rw [hsubscription, Event.subscription, hobject]
                dsimp only
                rw [if_pos htype, (truthy_eq_some hsubscription).1]
                rfl

theorem superseded_of_ends {deletion : Bool} {org : Organization} (hobject : event.object = some object)
    (htype : event.type = if deletion then deletedType else updatedType)
    (hcustomer : org.stripeCustomerId = some customer) (hsuperseded : ¬isSuperseded deletion object org = true)
    (hended : deletion = true ∨ isActive (object.status.getD "") = false) : Ends event org := by
  refine ⟨by simp [hobject], by simp [hcustomer], by cases deletion <;> simp [htype], ?_⟩
  intro current hcurrent
  have hne : event.type ≠ completedType := by
    cases deletion <;> (rw [htype]; decide)
  have hname : event.subscription = object.id.getD "" := by
    rw [Event.subscription, hobject]
    dsimp only
    rw [if_neg hne]
  unfold isSuperseded at hsuperseded
  rw [hcurrent] at hsuperseded
  dsimp only at hsuperseded
  rw [hname]
  by_contra hboth
  rw [not_or] at hboth
  have hover : (deletion || !isActive (object.status.getD "")) = true := by
    obtain rfl | hinactive := hended
    · rfl
    · rw [hinactive, Bool.not_false, Bool.or_true]
  simp [hboth.1, hboth.2, hover] at hsuperseded

theorem isActive_of_ended {status : String} (h : status ∈ ["canceled", "unpaid", "incomplete_expired"]) :
    isActive status = false := by
  simp only [List.mem_cons, List.not_mem_nil, or_false] at h
  obtain rfl | rfl | rfl := h <;> decide

theorem applySubscription_cases {deletion : Bool} (hobject : event.object = some object)
    (htype : event.type = if deletion then deletedType else updatedType) :
    (applySubscription settings deletion orgs object).2 = orgs ∨ ∃ org ∈ orgs, ∃ updated,
      (applySubscription settings deletion orgs object).2 = store orgs updated ∧ updated.id = org.id ∧
      Effect settings event org updated := by
  have hne : event.type ≠ completedType := by
    cases deletion <;> (rw [htype]; decide)
  unfold applySubscription
  cases hcustomer : truthy object.customer with
  | none => exact Or.inl rfl
  | some customer =>
    dsimp only
    cases hfound : byCustomer orgs customer with
    | none => exact Or.inl rfl
    | some org =>
      obtain ⟨hmem, howner⟩ := mem_of_byCustomer hfound
      dsimp only
      by_cases hsuperseded : isSuperseded deletion object org = true
      · rw [if_pos hsuperseded]
        exact Or.inl rfl
      · rw [if_neg hsuperseded]
        cases deletion with
        | true =>
          rw [if_pos rfl]
          have hends := superseded_of_ends hobject htype howner hsuperseded (Or.inl rfl)
          exact Or.inr ⟨org, hmem, _, rfl, rfl, .ended hends rfl⟩
        | false =>
          rw [if_neg Bool.false_ne_true]
          cases hplan : updatedPlan settings object with
          | some plan =>
            refine Or.inr ⟨org, hmem, _, rfl, rfl, .activated plan ?_ rfl ?_⟩
            · rw [activation, hobject]
              dsimp only
              rw [if_neg hne, if_pos ⟨htype, by simp [hcustomer], by rw [hcustomer, howner]⟩, hplan]
            · intro hwellFormed
              obtain ⟨subscription, hsubscription⟩ :=
                Option.ne_none_iff_exists'.mp ((hwellFormed object hobject).2 (Or.inl htype))
              dsimp only
              rw [hsubscription, Event.subscription, hobject]
              dsimp only
              rw [if_neg hne, (truthy_eq_some hsubscription).1, Option.some_or, Option.getD_some]
              simp [truthy, (truthy_eq_some hsubscription).2]
          | none =>
            dsimp only
            by_cases hended : object.status.getD "" ∈ ["canceled", "unpaid", "incomplete_expired"]
            · rw [if_pos hended]
              have hends := superseded_of_ends hobject htype howner hsuperseded (Or.inr (isActive_of_ended hended))
              exact Or.inr ⟨org, hmem, _, rfl, rfl, .ended hends rfl⟩
            · rw [if_neg hended]
              exact Or.inl rfl

theorem applyOnce_cases (settings : StripeSettings) (orgs : Organizations) (event : Event) :
    (applyOnce settings orgs event).2 = orgs ∨ ∃ org ∈ orgs, ∃ updated,
      (applyOnce settings orgs event).2 = store orgs updated ∧ updated.id = org.id ∧
        Effect settings event org updated := by
  unfold applyOnce
  cases hobject : event.object with
  | none => exact Or.inl rfl
  | some object =>
    dsimp only
    by_cases hmalformed : object.malformed = true
    · rw [if_pos hmalformed]
      exact Or.inl rfl
    · rw [if_neg hmalformed]
      by_cases hcompleted : event.type = completedType
      · rw [if_pos hcompleted]
        exact applyCompleted_cases hobject hcompleted
      · rw [if_neg hcompleted]
        by_cases hupdated : event.type = updatedType
        · rw [if_pos hupdated]
          exact applySubscription_cases hobject hupdated
        · rw [if_neg hupdated]
          by_cases hdeleted : event.type = deletedType
          · rw [if_pos hdeleted]
            exact applySubscription_cases hobject hdeleted
          · rw [if_neg hdeleted]
            exact Or.inl rfl

/-- What is known of the organizations. -/
structure Sound (orgs : Organizations) : Prop where
  distinct : (orgs.map Organization.id).Nodup
  /-- A plan that is paid for has a subscription. -/
  covered : ∀ org ∈ orgs, org.stripeCustomerId ≠ none → org.plan ≠ defaultPlan →
    truthy org.stripeSubscriptionId ≠ none

/-- The event names its subscription and activates none whose deletion was applied. -/
structure Orderly (settings : StripeSettings) (state : State) (event : Event) : Prop where
  wellFormed : event.WellFormed
  timely : ∀ org ∈ state.orgs, (org.id, event.subscription) ∈ state.deleted →
    activation settings event org = none

/-- How much a plan permits. -/
def rank (plan : String) : ℕ :=
  if plan = "free" then 0 else if plan = "team" then 1 else if plan = "scale" then 2 else 3

theorem mem_store {org : Organization} (h : org ∈ store orgs updated) : org ∈ orgs ∨ org = updated := by
  obtain ⟨other, hother, heq⟩ := List.mem_map.mp h
  split_ifs at heq
  · exact Or.inr heq.symm
  · exact Or.inl (heq ▸ hother)

theorem mem_store_of_ne {org : Organization} (h : org ∈ orgs) (hne : org.id ≠ updated.id) :
    org ∈ store orgs updated :=
  List.mem_map.mpr ⟨org, h, if_neg hne⟩

theorem mem_store_self {org : Organization} (h : org ∈ orgs) (hid : updated.id = org.id) :
    updated ∈ store orgs updated :=
  List.mem_map.mpr ⟨org, h, if_pos hid.symm⟩

theorem map_id_store : (store orgs updated).map Organization.id =
    orgs.map Organization.id := by
  rw [store, List.map_map]
  refine List.map_congr_left fun org _ ↦ ?_
  simp only [Function.comp_apply]
  split_ifs with hid
  · exact hid.symm
  · rfl

theorem activation_ne_default {org : Organization} {plan : String} (h : activation settings event org = some plan) :
    plan ≠ defaultPlan := by
  unfold activation at h
  split at h
  · cases h
  · split_ifs at h
    · obtain ⟨-, hbillable⟩ := Option.filter_eq_some_iff.mp h
      rintro rfl
      exact absurd (of_decide_eq_true hbillable) (by decide)
    · unfold updatedPlan at h
      split_ifs at h
      obtain ⟨price, -, hprice⟩ := Option.bind_eq_some_iff.mp h
      unfold StripeSettings.planForPrice at hprice
      split_ifs at hprice
      · rw [← Option.some.inj hprice]
        decide
      · rw [← Option.some.inj hprice]
        decide

theorem sound_of_effect {org : Organization} (hsound : Sound orgs) (hwellFormed : event.WellFormed)
    (h : Effect settings event org updated) : Sound (store orgs updated) := by
  refine ⟨?_, ?_⟩
  · rw [map_id_store]
    exact hsound.distinct
  · intro other hother hcustomer hplan
    obtain hold | rfl := mem_store hother
    · exact hsound.covered other hold hcustomer hplan
    · cases h with
      | activated plan hactivation hupdated hsubscription => simp [hsubscription hwellFormed]
      | ended hends hupdated => exact absurd hupdated hplan

theorem deliver_cases (h : deliver settings state event = .ok next) :
    (next = state ∧ event.id ≠ "" ∧ event.id ∈ state.processed.map Processed.id) ∨
    (next.orgs = (applyOnce settings state.orgs event).2 ∧
      (event.id ≠ "" → event.id ∈ next.processed.map Processed.id) ∧
      state.processed.map Processed.id ⊆ next.processed.map Processed.id) := by
  unfold deliver at h
  by_cases hprocessed : event.id ≠ "" ∧ event.id ∈ state.processed.map Processed.id
  · rw [if_pos hprocessed] at h
    exact Or.inl ⟨(Except.ok.inj h).symm, hprocessed⟩
  · rw [if_neg hprocessed] at h
    dsimp only at h
    obtain ⟨_, h⟩ := Py.of_rest h
    obtain rfl := Except.ok.inj h
    refine Or.inr ⟨rfl, ?_, ?_⟩
    · intro hid
      simp [hid]
    · intro id hmem
      dsimp only
      split_ifs
      · rw [List.map_append]
        exact List.mem_append_left _ hmem
      · exact hmem

theorem sound_of_deliver (hsound : Sound state.orgs) (horderly : Orderly settings state event)
    (h : deliver settings state event = .ok next) : Sound next.orgs := by
  obtain ⟨rfl, -⟩ | ⟨horgs, -⟩ := deliver_cases h
  · exact hsound
  · rw [horgs]
    obtain heq | ⟨org, -, updated, heq, -, heffect⟩ := applyOnce_cases settings state.orgs event
    · rw [heq]
      exact hsound
    · rw [heq]
      exact sound_of_effect hsound horderly.wellFormed heffect

theorem no_plan_after_deletion (horderly : Orderly settings state event)
    (h : deliver settings state event = .ok next) (hmem : updated ∈ next.orgs)
    (hdeleted : (updated.id, event.subscription) ∈ state.deleted) :
    updated.plan = defaultPlan ∨ updated ∈ state.orgs := by
  obtain ⟨rfl, -⟩ | ⟨horgs, -⟩ := deliver_cases h
  · exact Or.inr hmem
  · rw [horgs] at hmem
    obtain heq | ⟨org, horg, changed, heq, hid, heffect⟩ := applyOnce_cases settings state.orgs event
    · rw [heq] at hmem
      exact Or.inr hmem
    · rw [heq] at hmem
      obtain hold | rfl := mem_store hmem
      · exact Or.inr hold
      · cases heffect with
        | activated plan hactivation hupdated hsubscription =>
          rw [horderly.timely org horg (hid ▸ hdeleted)] at hactivation
          cases hactivation
        | ended hends hupdated => exact Or.inl hupdated

theorem subscription_ne_empty (hwellFormed : event.WellFormed) (hobject : event.object ≠ none)
    (htype : event.type = updatedType ∨ event.type = deletedType) : event.subscription ≠ "" := by
  obtain ⟨object, hsome⟩ := Option.ne_none_iff_exists'.mp hobject
  obtain ⟨subscription, hid⟩ := Option.ne_none_iff_exists'.mp ((hwellFormed object hsome).2 htype)
  have hne : event.type ≠ completedType := by
    obtain heq | heq := htype <;> (rw [heq]; decide)
  rw [Event.subscription, hsome]
  dsimp only
  rw [if_neg hne, (truthy_eq_some hid).1]
  exact (truthy_eq_some hid).2

theorem no_downgrade (hsound : Sound state.orgs) (hwellFormed : event.WellFormed)
    (h : deliver settings state event = .ok next) {org : Organization} (horg : org ∈ state.orgs)
    (hother : org.stripeSubscriptionId ≠ some event.subscription) :
    ∃ updated ∈ next.orgs, updated.id = org.id ∧ (org.plan ≠ defaultPlan → updated.plan ≠ defaultPlan) ∧
      ((∀ plan, activation settings event org = some plan → rank org.plan ≤ rank plan) →
        rank org.plan ≤ rank updated.plan) := by
  obtain ⟨rfl, -⟩ | ⟨horgs, -⟩ := deliver_cases h
  · exact ⟨org, horg, rfl, id, fun _ ↦ le_rfl⟩
  · rw [horgs]
    obtain heq | ⟨changed, hchanged, updated, heq, hid, heffect⟩ := applyOnce_cases settings state.orgs event
    · rw [heq]
      exact ⟨org, horg, rfl, id, fun _ ↦ le_rfl⟩
    · rw [heq]
      by_cases hsame : org.id = updated.id
      · obtain rfl := List.inj_on_of_nodup_map hsound.distinct horg hchanged (hsame.trans hid)
        refine ⟨updated, mem_store_self horg hid, hid, ?_⟩
        cases heffect with
        | activated plan hactivation hupdated hsubscription =>
          rw [hupdated]
          exact ⟨fun _ ↦ activation_ne_default hactivation, fun hrank ↦ hrank plan hactivation⟩
        | ended hends hupdated =>
          obtain ⟨hobject, hcustomer, htype, hcurrent⟩ := hends
          have hfree : org.plan = defaultPlan := by
            by_contra hpaid
            obtain ⟨current, hsome⟩ := Option.ne_none_iff_exists'.mp (hsound.covered org horg hcustomer hpaid)
            obtain hempty | heq := hcurrent current hsome
            · exact subscription_ne_empty hwellFormed hobject htype hempty
            · rw [(truthy_eq_some hsome).1, heq] at hother
              exact hother rfl
          rw [hupdated, hfree]
          exact ⟨id, fun _ ↦ le_rfl⟩
      · exact ⟨org, mem_store_of_ne horg hsame, rfl, id, fun _ ↦ le_rfl⟩

theorem processed_of_run (h : id ∈ state.processed.map Processed.id) (events : List Event) :
    id ∈ (run (deliver settings) state events).processed.map Processed.id := by
  have hstep : ∀ state event next, id ∈ state.processed.map Processed.id →
      deliver settings state event = .ok next → id ∈ next.processed.map Processed.id := by
    intro state event next hmem hnext
    obtain ⟨rfl, -⟩ | ⟨-, -, hsubset⟩ := deliver_cases hnext
    · exact hmem
    · exact hsubset hmem
  exact run_invariant hstep h events

theorem deliver_of_processed (hid : event.id ≠ "") (h : event.id ∈ state.processed.map Processed.id) :
    deliver settings state event = .ok state := by
  rw [deliver, if_pos ⟨hid, h⟩]

namespace Sample

def prices : StripeSettings := ⟨"price-team", "price-scale"⟩

def orgId : String := "00000000-0000-0000-0000-000000000000"

def org : Organization := ⟨orgId, "free", none, none⟩

def checkout : Event :=
  ⟨"evt-1", completedType,
    some ⟨false, some orgId, none, some "team", some "customer", some "sub-1", none, none, none⟩⟩

def deletion : Event :=
  ⟨"evt-2", deletedType, some ⟨false, none, none, none, some "customer", none, some "sub-1", none, none⟩⟩

def stale : Event :=
  ⟨"evt-3", updatedType,
    some ⟨false, none, none, none, some "customer", none, some "sub-1", some "active", some "price-team"⟩⟩

def opened : State :=
  ⟨[⟨orgId, "team", some "customer", some "sub-1"⟩], [⟨"evt-1", completedType, .completed "team"⟩], []⟩

def closed : State :=
  ⟨[⟨orgId, "free", some "customer", none⟩],
    [⟨"evt-1", completedType, .completed "team"⟩, ⟨"evt-2", deletedType, .deleted⟩], [(orgId, "sub-1")]⟩

theorem deliveries : deliver prices ⟨[org], [], []⟩ checkout = .ok opened ∧
    deliver prices opened deletion = .ok closed := by
  decide +kernel

theorem orderly_of_nothing_deleted {event : Event} (organizations : Organizations) (processed : List Processed)
    (h : event.WellFormed) : Orderly prices ⟨organizations, processed, []⟩ event :=
  ⟨h, fun _ _ hmem ↦ absurd hmem List.not_mem_nil⟩

theorem checkout_wellFormed : checkout.WellFormed := by
  rintro object hobject
  obtain rfl := Option.some.inj hobject
  exact ⟨fun _ ↦ by decide, fun h ↦ absurd h (by decide)⟩

theorem deletion_wellFormed : deletion.WellFormed := by
  rintro object hobject
  obtain rfl := Option.some.inj hobject
  exact ⟨fun h ↦ absurd h (by decide), fun _ ↦ by decide⟩

end Sample

end UniMem.Billing
