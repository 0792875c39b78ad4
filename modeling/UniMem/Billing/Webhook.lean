import UniMem.Library.Transitions
import UniMem.Python

/-!
# Subscription events

The webhook applies signed events of the payment provider to organizations. What it remembers is the current
plan and subscription of an organization and the ids of the events that it has processed.
-/

namespace UniMem.Billing

open Library

/-- The columns of an organization that events change. -/
structure Organization where
  id : String
  plan : String
  stripeCustomerId : Option String
  stripeSubscriptionId : Option String
  deriving DecidableEq

structure StripeSettings where
  priceTeam : String
  priceScale : String

/-- `plans.DEFAULT_PLAN`. -/
def defaultPlan : String := "free"

/-- `plans.BILLABLE_PLANS`. -/
def billablePlans : List String := ["team", "scale"]

/-- `plan_for_price`. The price of the last plan counts when both have one price. -/
def StripeSettings.planForPrice (settings : StripeSettings) (price : String) : Option String :=
  if settings.priceScale ≠ "" ∧ settings.priceScale = price then some "scale"
  else if settings.priceTeam ≠ "" ∧ settings.priceTeam = price then some "team"
  else none

/-- The fields of `event["data"]["object"]` that are read. -/
structure Object where
  /-- Whether the metadata or the items are not objects. -/
  malformed : Bool
  clientReferenceId : Option String
  metadataOrgId : Option String
  metadataPlan : Option String
  customer : Option String
  subscription : Option String
  id : Option String
  status : Option String
  /-- `items["data"][0]["price"]["id"]`. -/
  priceId : Option String

structure Event where
  id : String
  type : String
  /-- Nothing where the object is not one. -/
  object : Option Object

/-- A value that is not empty. -/
def truthy (value : Option String) : Option String := value.filter (· ≠ "")

def isHexDigit (char : Char) : Bool :=
  ('0' ≤ char && char ≤ '9') || ('a' ≤ char && char ≤ 'f') || ('A' ≤ char && char ≤ 'F')

/-- `text.replace(pattern, "")`, with the characters of an occurrence still to be skipped. -/
def remove (pattern : List Char) : ℕ → List Char → List Char
  | _, [] => []
  | skip + 1, _ :: rest => remove pattern skip rest
  | 0, char :: rest =>
    if pattern.isPrefixOf (char :: rest) then remove pattern (pattern.length - 1) rest
    else char :: remove pattern 0 rest

/-- `text.strip("{}")`. -/
def stripBraces (chars : List Char) : List Char :=
  let isBrace := fun char ↦ char = '{' || char = '}'
  ((chars.dropWhile isBrace).reverse.dropWhile isBrace).reverse

/-- `_looks_like_org_id`: thirty-two digits after `uuid.UUID` has stripped prefixes, braces and dashes. -/
def looksLikeOrgId (value : String) : Bool :=
  let bare := remove "uuid:".toList 0 (remove "urn:".toList 0 value.toList)
  let digits := (stripBraces bare).filter (· ≠ '-')
  digits.length = 32 && digits.all isHexDigit

/-- What `_apply_webhook_event_once` reports. -/
inductive Outcome where
  | malformed
  | malformedOrgId
  | unrecognizedPlan (plan : Option String)
  | noCustomer
  | noOrganization
  | completed (plan : String)
  | notCurrent (subscription : String)
  | deleted
  | active (plan : String)
  | ended (status : String)
  | nothingToApply
  | unhandled
  deriving DecidableEq

abbrev Organizations := List Organization

/-- `session.get(Organization, org_id)`. -/
def byId (orgs : Organizations) (id : String) : Option Organization := orgs.find? (·.id = id)

/-- The organization of a customer. -/
def byCustomer (orgs : Organizations) (customer : String) : Option Organization :=
  orgs.find? (·.stripeCustomerId = some customer)

/-- Write an organization back. -/
def store (orgs : Organizations) (org : Organization) : Organizations :=
  orgs.map fun other ↦ if other.id = org.id then org else other

def completedType : String := "checkout.session.completed"

def updatedType : String := "customer.subscription.updated"

def deletedType : String := "customer.subscription.deleted"

/-- Whether a status is that of a subscription that is paid for. -/
def isActive (status : String) : Bool := status = "active" || status = "trialing"

/-- The branch of `_apply_webhook_event_once` for a completed checkout. -/
def applyCompleted (orgs : Organizations) (object : Object) : Outcome × Organizations :=
  match (truthy object.clientReferenceId).or object.metadataOrgId with
  | none => (.malformedOrgId, orgs)
  | some orgId =>
    if orgId = "" || !looksLikeOrgId orgId then (.malformedOrgId, orgs)
    else
      match object.metadataPlan with
      | none => (.unrecognizedPlan none, orgs)
      | some plan =>
        if plan ∉ billablePlans then (.unrecognizedPlan (some plan), orgs)
        else
          match truthy object.customer with
          | none => (.noCustomer, orgs)
          | some customer =>
            match byId orgs orgId with
            | none => (.noOrganization, orgs)
            | some org =>
              (.completed plan, store orgs
                { org with plan, stripeCustomerId := some customer, stripeSubscriptionId := object.subscription })

/-- The plan of an update: its price is known and it is paid for. -/
def updatedPlan (settings : StripeSettings) (object : Object) : Option String :=
  if isActive (object.status.getD "") then (truthy object.priceId).bind settings.planForPrice else none

/-- A subscription event about another subscription than the current one, and not an active one. -/
def isSuperseded (deletion : Bool) (object : Object) (org : Organization) : Bool :=
  let subscription := object.id.getD ""
  match truthy org.stripeSubscriptionId with
  | none => false
  | some current =>
    subscription ≠ "" && subscription ≠ current && (deletion || !isActive (object.status.getD ""))

/-- The branch of `_apply_webhook_event_once` for a subscription of a customer. -/
def applySubscription (settings : StripeSettings) (deletion : Bool) (orgs : Organizations) (object : Object) :
    Outcome × Organizations :=
  match truthy object.customer with
  | none => (.noCustomer, orgs)
  | some customer =>
    match byCustomer orgs customer with
    | none => (.noOrganization, orgs)
    | some org =>
      if isSuperseded deletion object org then (.notCurrent (object.id.getD ""), orgs)
      else if deletion then
        (.deleted, store orgs { org with plan := defaultPlan, stripeSubscriptionId := none })
      else
        match updatedPlan settings object with
        | some plan =>
          (.active plan, store orgs
            { org with plan, stripeSubscriptionId := truthy ((truthy object.id).or org.stripeSubscriptionId) })
        | none =>
          let status := object.status.getD ""
          if status ∈ ["canceled", "unpaid", "incomplete_expired"] then
            (.ended status, store orgs { org with plan := defaultPlan, stripeSubscriptionId := none })
          else (.nothingToApply, orgs)

/-- `_apply_webhook_event_once`. -/
def applyOnce (settings : StripeSettings) (orgs : Organizations) (event : Event) : Outcome × Organizations :=
  match event.object with
  | none => (.malformed, orgs)
  | some object =>
    if object.malformed then (.malformed, orgs)
    else if event.type = completedType then applyCompleted orgs object
    else if event.type = updatedType then applySubscription settings false orgs object
    else if event.type = deletedType then applySubscription settings true orgs object
    else (.unhandled, orgs)

/-- A row of `processed_webhook_events`. -/
structure Processed where
  id : String
  eventType : String
  outcome : Outcome
  deriving DecidableEq

structure State where
  orgs : Organizations
  processed : List Processed
  /-- The subscriptions whose deletion was applied, with their organizations. -/
  deleted : List (String × String)
  deriving DecidableEq

/-- The subscription that an event is about. -/
def Event.subscription (event : Event) : String :=
  match event.object with
  | none => ""
  | some object => if event.type = completedType then object.subscription.getD "" else object.id.getD ""

/-- The organizations that an event deletes a subscription of. -/
def deletions (settings : StripeSettings) (orgs : Organizations) (event : Event) : List (String × String) :=
  match applyOnce settings orgs event with
  | (.deleted, _) =>
    match event.object.bind fun object ↦ (truthy object.customer).bind (byCustomer orgs) with
    | some org => [(org.id, event.subscription)]
    | none => []
  | _ => []

/-- The unique columns of organizations. -/
def unique (orgs : Organizations) : Bool :=
  (orgs.filterMap Organization.stripeCustomerId).Nodup && (orgs.filterMap Organization.stripeSubscriptionId).Nodup

/-- `apply_webhook_event` in a transaction of its own. -/
def deliver (settings : StripeSettings) (state : State) (event : Event) : Py State :=
  if event.id ≠ "" ∧ event.id ∈ state.processed.map Processed.id then .ok state
  else do
    let (outcome, orgs) := applyOnce settings state.orgs event
    Py.require (unique orgs) (.integrityError "duplicate key value violates unique constraint")
    return {
      orgs
      processed := if event.id ≠ "" then state.processed ++ [⟨event.id, event.type, outcome⟩] else state.processed
      deleted := state.deleted ++ deletions settings state.orgs event }

end UniMem.Billing
