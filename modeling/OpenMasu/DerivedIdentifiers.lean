import OpenMasu.JoinedText
import OpenMasu.Redirector
import OpenMasu.SourceDayWorker

/-!
# Identifiers joined from fields

The id of a logical event and the reference of a source join their fields with
colons, and a field may contain colons itself.  Two keys get one identifier
when their fields, cut at the colons, are the same parts in the same order.

* `logicalEventId`, `persistLogical` — the id, and the insertion under it;
* `SourceCell` — a source's day, and the columns it is stored with;
* `fraudAudit` — the report that joins decisions to aggregates;
* `derivedIdentifiers_iff` — when identifiers stay apart.
-/

namespace OpenMasu

/-- The parts of texts between their colons. -/
def colonParts (texts : List String) : List (List Char) :=
  texts.flatMap fun text => text.toList.splitOn ':'

/-- The parts of more texts come behind. -/
theorem colonParts_append (texts texts' : List String) :
    colonParts (texts ++ texts') = colonParts texts ++ colonParts texts' :=
  List.flatMap_append

/-- Joined by colons, texts are equal exactly where their parts are. -/
theorem join_toList_eq_iff {texts texts' : List String} (h : texts ≠ []) (h' : texts' ≠ []) :
    JoinedText.join ':' (texts.map String.toList) = JoinedText.join ':' (texts'.map String.toList) ↔
      colonParts texts = colonParts texts' := by
  rw [JoinedText.join_eq_iff (by simpa using h) (by simpa using h'), List.flatMap_map,
    List.flatMap_map]
  rfl

section LogicalEvents

/-- The `logical_event_id` of an event. -/
def logicalEventId (tenantId appId producer eventId : String) : String :=
  "logical:" ++ tenantId ++ ":" ++ appId ++ ":" ++ producer ++ ":" ++ eventId

/-- The evaluator derives the id of a logical event from its fields. -/
theorem logicalEvent_id (a : Attempt) : (logicalEvent a).logicalEventId =
    logicalEventId a.server.tenantId.text a.server.appId.text a.record.producer.text
      a.record.eventId.text := rfl

/-- A row of `logical_events`, by its key. -/
structure LogicalEventRow where
  tenantId : ControlIdentifier
  appId : ControlIdentifier
  producer : ControlIdentifier
  eventId : ControlIdentifier
  artifact : Json

namespace LogicalEventRow

/-- The texts of the logical key. -/
def key (r : LogicalEventRow) : List String :=
  [r.tenantId.text, r.appId.text, r.producer.text, r.eventId.text]

def id (r : LogicalEventRow) : String :=
  logicalEventId r.tenantId.text r.appId.text r.producer.text r.eventId.text

/-- The id is the key joined by colons, behind a fixed text. -/
theorem toList_id (r : LogicalEventRow) :
    r.id.toList = JoinedText.join ':' ((["logical"] ++ r.key).map String.toList) := by
  simp [id, logicalEventId, key, JoinedText.join, String.toList_append]

/-- Two rows have one id exactly when their keys have the same parts. -/
theorem id_eq_iff (r r' : LogicalEventRow) : r.id = r'.id ↔ colonParts r.key = colonParts r'.key := by
  rw [← String.toList_inj, toList_id, toList_id,
    join_toList_eq_iff (by simp) (by simp), colonParts_append, colonParts_append,
    List.append_cancel_left_eq]

end LogicalEventRow

/-- `persistLogicalWithClient`: the first row under an id stays, and the
artifact under the id is read back; none where the row is another tenant's,
which the row security hides. -/
def persistLogical (row : LogicalEventRow) (rows : List LogicalEventRow) :
    Option (List LogicalEventRow) :=
  let stored := AppendOnly.insertOnce LogicalEventRow.id row rows
  if stored.any fun r => r.id = row.id && r.tenantId.text = row.tenantId.text then some stored
  else none

/-- Where a row under the id is the tenant's, the insertion returns. -/
theorem persistLogical_of_mem {row r : LogicalEventRow} {rows : List LogicalEventRow}
    (hr : r ∈ AppendOnly.insertOnce LogicalEventRow.id row rows) (hid : r.id = row.id)
    (htenant : r.tenantId.text = row.tenantId.text) :
    persistLogical row rows = some (AppendOnly.insertOnce LogicalEventRow.id row rows) := by
  refine if_pos (List.any_eq_true.mpr ⟨r, hr, ?_⟩)
  rw [Bool.and_eq_true, decide_eq_true_eq, decide_eq_true_eq]
  exact ⟨hid, htenant⟩

/-- An insertion that returns has kept the first row under the id. -/
theorem persistLogical_eq_some {row : LogicalEventRow} {rows rows' : List LogicalEventRow}
    (h : persistLogical row rows = some rows') :
    AppendOnly.insertOnce LogicalEventRow.id row rows = rows' := by
  rw [persistLogical, Option.ite_none_right_eq_some] at h
  exact Option.some.inj h.2

/-- An event keeps its own id apart from those of other keys, and is stored;
what is stored stays. -/
structure LogicalKept (rows : List LogicalEventRow) (row : LogicalEventRow) : Prop where
  apart : ∀ r ∈ rows, r.id = row.id → r.key = row.key
  stored : ∃ rows', persistLogical row rows = some rows' ∧ ∃ r ∈ rows', r.key = row.key
  stays : ∀ rows', persistLogical row rows = some rows' → ∀ r ∈ rows, r ∈ rows'

/-- An event is kept apart and stored exactly where no other key of the table
has its parts. -/
theorem logicalKept_iff (rows : List LogicalEventRow) (row : LogicalEventRow) :
    LogicalKept rows row ↔
      ∀ r ∈ rows, r.key ≠ row.key → colonParts r.key ≠ colonParts row.key := by
  constructor
  · intro hkept r hr hne hparts
    exact hne (hkept.apart r hr ((LogicalEventRow.id_eq_iff r row).mpr hparts))
  · intro hparts
    have hapart : ∀ r ∈ rows, r.id = row.id → r.key = row.key := by
      intro r hr hid
      by_contra hne
      exact hparts r hr hne ((LogicalEventRow.id_eq_iff r row).mp hid)
    refine ⟨hapart, ?_, fun rows' hrows' r hr => ?_⟩
    · by_cases htaken : row.id ∈ rows.map LogicalEventRow.id
      · obtain ⟨r, hr, hid⟩ := List.mem_map.mp htaken
        have hkey := hapart r hr hid
        have hmem : r ∈ AppendOnly.insertOnce LogicalEventRow.id row rows :=
          AppendOnly.mem_insertOnce_of_mem hr
        exact ⟨_, persistLogical_of_mem hmem hid (List.cons.inj hkey).1, r, hmem, hkey⟩
      · have hmem := AppendOnly.mem_insertOnce_self htaken
        exact ⟨_, persistLogical_of_mem hmem rfl rfl, row, hmem, rfl⟩
    · exact persistLogical_eq_some hrows' ▸ AppendOnly.mem_insertOnce_of_mem hr

end LogicalEvents

section Audit

/-- A day before another. -/
def dayBefore (a b : CalendarDate) : Bool :=
  a.year < b.year || (a.year = b.year && (a.month < b.month || (a.month = b.month && a.day < b.day)))

/-- What the audit tells the aggregates of an app apart by. -/
def auditKey (a : StoredAggregate) : CalendarDate × String × String × String :=
  (a.row.metricDate, a.row.campaignId, a.row.network, a.row.siteId)

/-- `ORDER BY computed_at DESC,input_snapshot_id DESC`. -/
def laterAggregate (db : Database) (a b : StoredAggregate) : Bool :=
  b.computedAt.ms < a.computedAt.ms ||
    (b.computedAt.ms = a.computedAt.ms && db.sortsBefore b.inputSnapshotId a.inputSnapshotId)

/-- `latest_aggregate` -/
def FraudWorld.latestAggregates (db : Database) (w : FraudWorld) (scope : Scope)
    (start stop : CalendarDate) : List StoredAggregate :=
  (InsertionMap.group auditKey (w.aggregates.filter fun a => a.scope = scope &&
    !dayBefore a.row.metricDate start && dayBefore a.row.metricDate stop)).values.filterMap
      (AppendOnly.latest (laterAggregate db))

/-- The decisions of `latest_decision` that the audit joins to an aggregate. -/
def FraudWorld.auditedDecisions (w : FraudWorld) (scope : Scope) (row : SourceAggregate) :
    List StoredFraud :=
  w.ledger.fraudDecisions.filter fun d => d.scope = scope && d.decision.subjectScope = .source &&
    !(w.resolutions.any fun newer => newer.scope = scope &&
      newer.prior.fraudDecisionId = d.decision.fraudDecisionId) &&
    d.decision.subjectRef = sourceRef scope row

/-- The references of the clicks of an aggregate. -/
def FraudWorld.auditedRefs (db : Database) (w : FraudWorld) (scope : Scope)
    (row : SourceAggregate) : List String :=
  let clicks := (w.ledger.clicksOn scope row.metricDate).filter fun e =>
    (sourceKey e).1.getD "unattributed" = row.campaignId &&
      (sourceKey e).2.1.getD "unattributed" = row.network &&
      (sourceKey e).2.2.getD "unattributed" = row.siteId
  (clicks.filterMap fun e => columnText (e.attempt.record.payload.rest "remote_click_ref")).dedup
    |>.insertionSort fun a b => db.sortsBefore b a = false

structure FraudAuditRow where
  metricDate : CalendarDate
  campaignId : String
  network : String
  siteId : String
  remoteClickRefs : List String
  clicks : Nat
  installs : Nat
  suspected : Nat
  confirmed : Nat
  excluded : Nat
  quarantined : Nat

/-- `fraudAudit`, up to the order of its rows. -/
def fraudAudit (db : Database) (w : FraudWorld) (scope : Scope) (start stop : CalendarDate) :
    List FraudAuditRow :=
  (w.latestAggregates db scope start stop).map fun a =>
    let decisions := w.auditedDecisions scope a.row
    { metricDate := a.row.metricDate
      campaignId := a.row.campaignId
      network := a.row.network
      siteId := a.row.siteId
      remoteClickRefs := w.auditedRefs db scope a.row
      clicks := a.row.clicks
      installs := a.row.installs
      suspected := (decisions.filter fun d => d.decision.decision = .suspected).length
      confirmed := (decisions.filter fun d => d.decision.decision = .confirmed).length
      excluded := (decisions.filter fun d => d.decision.action = .exclude).length
      quarantined := (decisions.filter fun d => d.decision.action = .quarantine).length }

end Audit

section Cells

/-- A source's day: a date, and a campaign, a network and a site, each of which
may be absent. -/
structure SourceCell where
  metricDate : CalendarDate
  campaignId : Option String
  network : Option String
  siteId : Option String
  deriving DecidableEq

/-- The texts a cell is stored with. -/
def SourceCell.columns (cell : SourceCell) : List String :=
  [cell.metricDate.text, cell.campaignId.getD "unattributed", cell.network.getD "unattributed",
    cell.siteId.getD "unattributed"]

/-- A row of the worker's query is about a cell. -/
structure SourceCell.IsAbout (cell : SourceCell) (row : SourceAggregate) : Prop where
  metricDate : row.metricDate = cell.metricDate
  campaignId : row.campaignId = cell.campaignId.getD "unattributed"
  network : row.network = cell.network.getD "unattributed"
  siteId : row.siteId = cell.siteId.getD "unattributed"

/-- A group of clicks makes a row about its cell. -/
theorem sourceRow_isAbout (math : SourceDayMath) (l : Ledger) (scope : Scope) (date : CalendarDate)
    (medianCvr : String × Rat) (e : StoredEvent) (clicks : List StoredEvent) :
    SourceCell.IsAbout ⟨date, (sourceKey e).1, (sourceKey e).2.1, (sourceKey e).2.2⟩
      (l.sourceRow math scope date medianCvr (e :: clicks)) := by
  constructor
  all_goals simp only [Ledger.sourceRow, List.head?_cons, Option.map_some, Option.getD_some]

variable {scope : Scope} {cell cell' : SourceCell} {row row' : SourceAggregate}

/-- So is the reference of a source: its columns joined by colons. -/
theorem toList_sourceRef (h : cell.IsAbout row) : (sourceRef scope row).toList =
    JoinedText.join ':' ((["source", scope.tenantId.text, scope.appId.text] ++ cell.columns).map
      String.toList) := by
  unfold sourceRef
  simp [h.metricDate, h.campaignId, h.network, h.siteId, SourceCell.columns, JoinedText.join]

/-- Two cells of an app have one reference exactly when their columns have the
same parts. -/
theorem sourceRef_eq_iff (h : cell.IsAbout row) (h' : cell'.IsAbout row') :
    sourceRef scope row = sourceRef scope row' ↔
      colonParts cell.columns = colonParts cell'.columns := by
  rw [← String.toList_inj, toList_sourceRef h, toList_sourceRef h',
    join_toList_eq_iff (by simp) (by simp), colonParts_append, colonParts_append,
    List.append_cancel_left_eq]

/-- Two cells of an app stay apart: their rows have different references and
different keys, in the table and in the audit, and no decision about the one
is audited with the other. -/
structure CellsApart [Digest] (scope : Scope) (cell cell' : SourceCell) : Prop where
  reference : ∀ row row', cell.IsAbout row → cell'.IsAbout row' →
    sourceRef scope row ≠ sourceRef scope row'
  stored : ∀ row row' now now', cell.IsAbout row → cell'.IsAbout row' →
    (SourceAggregate.stored scope now row).key ≠ (SourceAggregate.stored scope now' row').key
  listed : ∀ row row' now now', cell.IsAbout row → cell'.IsAbout row' →
    auditKey (SourceAggregate.stored scope now row) ≠ auditKey (SourceAggregate.stored scope now' row')
  audited : ∀ row row' w revision now hit, cell.IsAbout row → cell'.IsAbout row' →
    hitDecision scope revision now row' hit ∉ FraudWorld.auditedDecisions w scope row

/-- Equal columns make equal references. -/
theorem sourceRef_congr (hdate : row.metricDate = row'.metricDate)
    (hcampaign : row.campaignId = row'.campaignId) (hnetwork : row.network = row'.network)
    (hsite : row.siteId = row'.siteId) : sourceRef scope row = sourceRef scope row' := by
  unfold sourceRef
  simp only [hdate, hcampaign, hnetwork, hsite]

/-- Cells stay apart exactly where their columns have different parts. -/
theorem cellsApart_iff [Digest] (scope : Scope) (cell cell' : SourceCell) :
    CellsApart scope cell cell' ↔ colonParts cell.columns ≠ colonParts cell'.columns := by
  constructor
  · intro hapart hparts
    have hrow : ∀ c : SourceCell, c.IsAbout ⟨c.metricDate, c.campaignId.getD "unattributed",
        c.network.getD "unattributed", c.siteId.getD "unattributed", 0, 0, none, none, none, 0,
        ("0", 0)⟩ := fun c => ⟨rfl, rfl, rfl, rfl⟩
    exact hapart.reference _ _ (hrow cell) (hrow cell')
      ((sourceRef_eq_iff (hrow cell) (hrow cell')).mpr hparts)
  · intro hparts
    have hreference : ∀ row row', cell.IsAbout row → cell'.IsAbout row' →
        sourceRef scope row ≠ sourceRef scope row' :=
      fun row row' h h' heq => hparts ((sourceRef_eq_iff h h').mp heq)
    constructor
    · exact hreference
    · intro row row' now now' h h' hkey
      injection hkey with _ hdate hcampaign hnetwork hsite _
      exact hreference row row' h h' (sourceRef_congr hdate hcampaign hnetwork hsite)
    · intro row row' now now' h h' hkey
      obtain ⟨hdate, hrest⟩ := Prod.mk.inj hkey
      obtain ⟨hcampaign, hrest⟩ := Prod.mk.inj hrest
      obtain ⟨hnetwork, hsite⟩ := Prod.mk.inj hrest
      exact hreference row row' h h' (sourceRef_congr hdate hcampaign hnetwork hsite)
    · intro row row' w revision now hit h h' hmem
      have hjoined := (List.mem_filter.mp hmem).2
      rw [Bool.and_eq_true, decide_eq_true_eq] at hjoined
      exact hreference row row' h h' hjoined.2.symm

end Cells

section Identifiers

/-- For all tables of logical events and events, and all pairs of cells of an
app: an event keeps its id apart from those of other keys and is stored, and
two different cells stay apart, exactly when neither the keys nor the columns
have the same parts between their colons. -/
theorem derivedIdentifiers_iff [Digest] (rows : List LogicalEventRow) (row : LogicalEventRow)
    (scope : Scope) (cell cell' : SourceCell) :
    (LogicalKept rows row ∧ (cell ≠ cell' → CellsApart scope cell cell')) ↔
      (∀ r ∈ rows, r.key ≠ row.key → colonParts r.key ≠ colonParts row.key) ∧
        (cell ≠ cell' → colonParts cell.columns ≠ colonParts cell'.columns) := by
  rw [logicalKept_iff, cellsApart_iff]

end Identifiers

section Examples

attribute [local instance] checksumDigest

/-- The tenant `shop`'s event of the app `eu:web` keeps the tenant `shop:eu`'s
of the app `web` from being stored; and the days of an absent and of a campaign
`unattributed` have one reference. -/
theorem shared_identifiers :
    ∃ first second : LogicalEventRow, first.tenantId.text ≠ second.tenantId.text ∧
      first.id = second.id ∧ persistLogical second [first] = none ∧
      ∃ cell cell' : SourceCell, cell ≠ cell' ∧ ∀ scope row row', cell.IsAbout row →
        cell'.IsAbout row' → sourceRef scope row = sourceRef scope row' := by
  let first : LogicalEventRow := ⟨⟨"shop", by decide⟩, ⟨"eu:web", by decide⟩,
    ⟨"sdk-android", by decide⟩, ⟨"event-1", by decide⟩, .null⟩
  let second : LogicalEventRow := ⟨⟨"shop:eu", by decide⟩, ⟨"web", by decide⟩,
    ⟨"sdk-android", by decide⟩, ⟨"event-1", by decide⟩, .null⟩
  have hid : first.id = second.id := by decide
  refine ⟨first, second, by decide, hid, ?_, ⟨⟨2026, 5, 1⟩, none, none, none⟩,
    ⟨⟨2026, 5, 1⟩, some "unattributed", none, none⟩, by decide, ?_⟩
  · have hkept : AppendOnly.insertOnce LogicalEventRow.id second [first] = [first] :=
      if_pos (hid ▸ List.mem_singleton_self _)
    unfold persistLogical
    rw [hkept]
    rfl
  · intro scope row row' h h'
    exact (sourceRef_eq_iff h h').mpr rfl

end Examples

end OpenMasu
