import OpenMasu.Evaluate

/-!
# Fact rows

Every logical event of a kind that metrics read is projected to a row of that
kind's fact table.  The row takes its columns from the record the event
stands for; two of them come from elsewhere: the tracking link of a
redirector click from the control tables, the days since the last session
from the ledger, when the row is inserted.

* `FactTable`, `Fact` — the tables besides `install_facts`, and their rows;
* `installColumns` — the columns of an install that no lookup uses;
* `projection` — the row of a logical event.
-/

namespace OpenMasu

inductive FactTable where
  | click
  | session
  | deepLinkOpen
  | purchase
  | adRevenue
  | customEvent
  | applePostback
  deriving DecidableEq

/-- A row of a fact table: what lookups go by, and its own columns. -/
structure Fact where
  table : FactTable
  logicalEventId : String
  scope : Scope
  installationId : Option Identifier
  occurredAt : Timestamp
  columns : List (String × Option Json)

/-- The key a fact is inserted once under. -/
def Fact.key (f : Fact) : FactTable × String := (f.table, f.logicalEventId)

/-- A member of a payload that no rule reads. -/
def Payload.rest (p : Payload) (name : String) : Option Json :=
  (p.other.find? (fun m => m.1 = name)).map (·.2)

/-- Campaign, network and country, which an import may leave to its
provider. -/
def campaignColumns (p : Payload) : List (String × Option Json) := [
  optional "campaign_id" (p.campaignId <|> p.importContext.bind (·.providerCampaignRef)),
  optional "network" (p.network <|> p.importContext.bind (·.providerNetwork)),
  optional "country" (p.country <|> p.importContext.bind (·.providerCountry))]

def clickColumns (trackingLinkId : Option Identifier) (p : Payload) :
    List (String × Option Json) :=
  [optional "click_id" p.clickId, optional "redirector_click_at" p.redirectorClickAt] ++
  campaignColumns p ++ [
  ("site_id", p.rest "site_id"),
  optional "remote_click_ref" p.remoteClickRef,
  optional "tracking_link_id" trackingLinkId,
  member "bot_prefetch" (truthy p.botPrefetch),
  ("source_rate_class", p.rest "source_rate_class"),
  ("client_class", p.rest "client_class")]

def installColumns (p : Payload) : List (String × Option Json) :=
  [optional "prior_installation_id" p.priorInstallationId,
   optional "install_type" p.installType,
   optional "install_begin_at_server" p.installBeginAtServer] ++ campaignColumns p

/-- The link an open goes by is recorded while it is active. -/
def openColumns (resolution : Option DeepLinkResolution) (p : Payload) :
    List (String × Option Json) :=
  let active := resolution.filter (fun r => r.status = .active)
  [optional "tracking_link_id" (active.bind (·.trackingLinkId)),
   optional "campaign_id" (active.bind (·.campaignId)),
   optional "open_source" p.openSource]

def purchaseColumns (p : Payload) : List (String × Option Json) :=
  ("transaction_id", p.rest "transaction_id") :: p.money.elim [] Money.members

def adRevenueColumns (p : Payload) : List (String × Option Json) := [
  optional "anchor_source" p.anchorSource,
  ("impression_id", p.rest "impression_id"),
  ("ad_unit_id", p.rest "ad_unit_id"),
  optional "ad_network" p.adNetwork,
  ("revenue_source", p.rest "revenue_source"),
  optional "country" p.country] ++ p.money.elim [] Money.members

def postbackColumns (r : Record) : List (String × Option Json) := [
  member "event_name" r.eventName,
  member "signature_verified" (truthy r.payload.signatureVerified),
  member "did_win" (truthy r.payload.didWin),
  member "source_identifier_present" r.payload.sourceIdentifier.isSome,
  optional "conversion_bucket" (conversionBucket r.payload),
  member "received_at" r.receivedAt]

/-- `persistProjectionWithClient`, for the tables besides `install_facts`: the
table and the columns of an event's row. -/
def projectedColumns (trackingLink : Attempt → Option Identifier) (a : Attempt) :
    Option (FactTable × List (String × Option Json)) :=
  let p := a.record.payload
  match a.record.eventName with
  | .click =>
      some (.click, clickColumns (if a.record.producer = .redirector then trackingLink a else none) p)
  | .sessionStart => some (.session, [("session_id", p.rest "session_id")])
  | .deepLinkOpen => some (.deepLinkOpen, openColumns a.server.deepLinkResolution p)
  | .purchase => some (.purchase, purchaseColumns p)
  | .adRevenue => some (.adRevenue, adRevenueColumns p)
  | .customEvent => some (.customEvent, [("event_key", p.rest "event_key")])
  | .skanPostback | .adattributionkitPostback => some (.applePostback, postbackColumns a.record)
  | _ => none

/-- The fact row of a logical event. -/
def projection (trackingLink : Attempt → Option Identifier) (a : Attempt) (e : LogicalEvent) :
    Option Fact :=
  (projectedColumns trackingLink a).map (fun row => {
    table := row.1
    logicalEventId := e.logicalEventId
    scope := ⟨e.tenantId, e.appId⟩
    installationId := a.record.payload.installationId
    occurredAt := a.record.occurredAt
    columns := row.2 })

end OpenMasu
