import SlugBase.Keyset.Names
import SlugBase.Lib.Keyset
import SlugBase.Lib.JsString

/-!
# The pages of the audit log

A page of the events of a workspace that the filters admit, newest first.

* `AUDIT_ACTIONS`, `admittedActions`: the catalog, and the actions that the filters of a request admit;
* `listAuditEventsStatement`: the statement of a page; `auditCursorScope`, `listAuditEvents`: the operation;
* **`listAuditEvents_resumes`**: the cursor of an event asks for the events after it.
-/

set_option linter.unusedSectionVars false

namespace SlugBase.Keyset

open Relational Bulk OrderDual

variable {κ : Type} [LinearOrder κ] (T : KeysetTexts κ) (rt : CursorRuntime)

/-! ## The catalog -/

inductive AuditCategory
  | workspace | member | invitation | team | bookmark | share | exported | imported
deriving DecidableEq, Repr

/-- The actions of the catalog with their categories. -/
def AUDIT_ACTIONS : List (String × AuditCategory) :=
  [("workspace.created", .workspace), ("workspace.renamed", .workspace), ("workspace.settings_changed", .workspace),
    ("workspace.deletion_requested", .workspace), ("workspace.ownership_transferred", .workspace),
    ("member.role_changed", .member), ("member.removed", .member), ("member.left", .member), ("member.joined", .member),
    ("member.instance_admin_joined", .member), ("invitation.created", .invitation), ("invitation.resent", .invitation),
    ("invitation.link_created", .invitation), ("invitation.revoked", .invitation), ("team.created", .team),
    ("team.updated", .team), ("team.deleted", .team), ("team.members_changed", .team), ("bookmark.archived", .bookmark),
    ("bookmark.restored", .bookmark), ("bookmark.bulk_deleted", .bookmark), ("share.granted", .share),
    ("share.revoked", .share), ("share.bulk_granted", .share), ("export.created", .exported), ("import.completed", .imported)]

/-- The order of `sort()`: by code units. -/
def unitsOf (text : String) : List ℕ := (JavaScript.js text).map UInt16.toNat

/-- `[...new Set(actions)].sort()`. -/
def namedActions (actions : List String) : List String := ranked unitsOf (unique actions)

/-- `admittedActions`; none when neither filter narrows the log. -/
def admittedActions (actions : Option (List String)) (categories : Option (List AuditCategory)) : Option (List String) :=
  let inCategories := categories.map fun categories =>
    (AUDIT_ACTIONS.filter fun entry => decide (entry.2 ∈ categories)).map Prod.fst
  match actions with
  | none => inCategories
  | some actions =>
    some (match inCategories with
      | none => namedActions actions
      | some members => (namedActions actions).filter fun name => decide (name ∈ members))

/-! ## The log -/

/-- A row of `audit_events`, without the network. -/
structure AuditEvent where
  id : Uuid
  workspaceId : Option Uuid
  createdAt : Timestamp
  actorType : String
  actorAccountId : Option Uuid
  actorLabel : String
  action : String
  entityType : Option String
  entityId : Option Uuid
  metadata : List (String × String)
deriving DecidableEq, Repr

/-- `POSITION_TIME`: digits where the pattern has a zero, and the other characters as they stand. -/
def isPositionTime (text : String) : Bool :=
  let pattern := "0000-00-00T00:00:00.000000Z".toList
  decide (text.toList.length = pattern.length) &&
    (text.toList.zip pattern).all fun (c, p) => if p = '0' then c.isDigit else c == p

/-- The log of a deployment: the time of each event has a year of four digits. -/
structure AuditLog where
  events : Table AuditEvent AuditEvent.id
  times : ∀ e ∈ events.rows, isPositionTime (T.utcText e.createdAt) = true

/-- `AuditEventRecord`. -/
structure AuditEventRecord where
  event : AuditEvent
  createdAt : String
deriving DecidableEq, Repr

structure AuditEventPosition where
  createdAt : String
  id : String
deriving DecidableEq, Repr

structure AuditListAsk where
  workspaceId : Uuid
  actorAccountId : Option Uuid
  actions : Option (List String)
  categories : Option (List AuditCategory)
  entityType : Option String
  entityId : Option Uuid
  notBefore : Option String
  before : Option String
  limit : PageSize
  cursor : Option String
deriving DecidableEq, Repr

/-- The conditions of the statement on an event; `IN ()` of no action is never asked. -/
def auditConditions (ask : AuditListAsk) (actions : Option (List String)) (e : AuditEvent) : Bool :=
  sqlEq e.workspaceId (some ask.workspaceId) && ask.actorAccountId.all (fun id => sqlEq e.actorAccountId (some id)) &&
    actions.all (fun actions => decide (e.action ∈ actions)) && ask.entityType.all (fun type => decide (e.entityType = some type)) &&
    ask.entityId.all (fun id => sqlEq e.entityId (some id)) &&
    ask.notBefore.all (fun text => decide (T.readTimestamp text ≤ e.createdAt)) &&
    ask.before.all (fun text => decide (e.createdAt < T.readTimestamp text))

variable {T} (log : AuditLog T)

variable (T) in
def auditRecordOf (e : AuditEvent) : AuditEventRecord := ⟨e, T.utcText e.createdAt⟩

/-- The events that the filters of a request admit. -/
def auditRows (ask : AuditListAsk) (actions : Option (List String)) : List AuditEventRecord :=
  (log.events.rows.filter (auditConditions T ask actions)).map (auditRecordOf T)

/-- `ORDER BY created_at DESC, id DESC`. -/
def auditRank (record : AuditEventRecord) : (ℕ ×ₗ ℕ)ᵒᵈ := toDual (toLex (record.event.createdAt, record.event.id))

variable (T) in
/-- `(created_at, id) < (after.createdAt, after.id)`. -/
def afterEvent (after : AuditEventPosition) (record : AuditEventRecord) : Bool :=
  decide (record.event.createdAt < T.readTimestamp after.createdAt ∨
    record.event.createdAt = T.readTimestamp after.createdAt ∧ record.event.id < T.readUuid after.id)

/-- `listAuditEventsStatement`. -/
def listAuditEventsStatement (ask : AuditListAsk) (actions : Option (List String)) (after : Option AuditEventPosition)
    (limit : ℕ) : List AuditEventRecord :=
  top auditRank limit ((auditRows log ask actions).filter fun record => after.all fun position => afterEvent T position record)

variable (T) in
/-- `cursorScope` of the log. -/
def auditCursorScope (ask : AuditListAsk) : String :=
  rt.stringify (.list [textPart (T.uuidText ask.workspaceId), (ask.actorAccountId.map T.uuidText).map .inl,
    (admittedActions ask.actions ask.categories).map .inr, ask.entityType.map .inl, (ask.entityId.map T.uuidText).map .inl,
    ask.notBefore.map .inl, ask.before.map .inl])

/-- `auditCursors`. -/
def sealEvent (position : AuditEventPosition) (scope : String) : String :=
  encodeKey rt "audit-events" [some position.createdAt, some position.id] scope

variable (T) in
def eventPositionOf : List (Option String) → Option AuditEventPosition
  | [some createdAt, some id] => if isPositionTime createdAt && T.isUuid id then some ⟨createdAt, id⟩ else none
  | _ => none

variable (T) in
def openEvent (cursor scope : String) : Option AuditEventPosition :=
  (decodeKey rt "audit-events" cursor scope).bind (eventPositionOf T)

variable (T) in
/-- The position of the last event of a page. -/
def auditPosition (record : AuditEventRecord) : AuditEventPosition := ⟨record.createdAt, T.uuidText record.event.id⟩

variable (T) in
/-- The position a cursor resumes from: of no cursor none; refused when it is of another list. -/
def auditAfter (ask : AuditListAsk) : Option (Option AuditEventPosition) :=
  match ask.cursor with
  | none => some none
  | some cursor => (openEvent T rt cursor (auditCursorScope T rt ask)).map some

/-- `listAuditEvents`; none for a cursor that is refused. -/
def listAuditEvents (ask : AuditListAsk) : Option (KeysetPage AuditEventRecord String) :=
  (auditAfter T rt ask).map fun after =>
    let actions := admittedActions ask.actions ask.categories
    if actions = some [] then ⟨[], none⟩
    else cut (fun record => sealEvent rt (auditPosition T record) (auditCursorScope T rt ask)) ask.limit.val
      (listAuditEventsStatement log ask actions after (ask.limit.val + 1))

/-! ## The pages of the log -/

section

variable {rt log} {x y : AuditEventRecord} {scope : String} {ask : AuditListAsk} {actions : Option (List String)}

theorem openEvent_sealEvent (h : isPositionTime x.createdAt = true) :
    openEvent T rt (sealEvent rt (auditPosition T x) scope) scope = some (auditPosition T x) := by
  rw [openEvent, sealEvent, decodeKey_encodeKey, Option.bind_some, auditPosition, eventPositionOf, h, T.isUuid_text]
  rfl

/-- **The position of an event selects the events after it.** -/
theorem afterEvent_iff (hx : x.createdAt = T.utcText x.event.createdAt) :
    afterEvent T (auditPosition T x) y = decide (auditRank x < auditRank y) := by
  rw [Bool.eq_iff_iff, decide_eq_true_eq, auditRank, auditRank, toDual_lt_toDual, Prod.Lex.toLex_lt_toLex]
  simp only [afterEvent, auditPosition, decide_eq_true_eq, hx, T.readTimestamp_utc, T.readUuid_text]

theorem mem_auditRows (h : x ∈ auditRows log ask actions) : x.event ∈ log.events.rows ∧ x = auditRecordOf T x.event := by
  obtain ⟨e, he, rfl⟩ := List.mem_map.mp h
  exact ⟨List.mem_of_mem_filter he, rfl⟩

theorem separates_auditRows : Separates auditRank (auditRows log ask actions) := by
  intro x hx y hy h
  obtain ⟨hxmem, hxrow⟩ := mem_auditRows hx
  obtain ⟨hymem, hyrow⟩ := mem_auditRows hy
  have hid := (Prod.mk.inj (toLex_inj.mp (toDual_inj.mp h))).2
  rw [hxrow, hyrow, Table.eq_of_key hxmem hymem hid]

theorem auditRows_nodup : (auditRows log ask actions).Nodup := by
  refine ((List.Nodup.of_map _ log.events.keyed).filter _).map fun e f h => ?_
  exact congrArg AuditEventRecord.event h

theorem auditRows_none : auditRows log ask (some []) = [] := by
  rw [auditRows, List.map_eq_nil_iff, List.filter_eq_nil_iff]
  intro e _
  simp [auditConditions]

/-- **The cursor of an event asks for the events after it.** -/
theorem listAuditEvents_resumes (ask : AuditListAsk) :
    Resumes auditRank (fun record => sealEvent rt (auditPosition T record) (auditCursorScope T rt ask)) ask.limit.val
      (auditRows log ask (admittedActions ask.actions ask.categories))
      fun cursor => listAuditEvents rt log { ask with cursor := cursor } where
  first := by
    rw [listAuditEvents, auditAfter, Option.map_some]
    dsimp only
    by_cases hnone : admittedActions ask.actions ask.categories = some []
    · rw [if_pos hnone, hnone, auditRows_none, top_nil, cut_nil]
    · rw [if_neg hnone, listAuditEventsStatement]
      simp only [Option.all_none, List.filter_true]
      rfl
  after := by
    intro x hx
    obtain ⟨hmem, hrow⟩ := mem_auditRows hx
    have hkey : x.createdAt = T.utcText x.event.createdAt := by rw [hrow]; rfl
    have htime : isPositionTime x.createdAt = true := by rw [hkey]; exact log.times _ hmem
    have hsome : ¬admittedActions ask.actions ask.categories = some [] := by
      intro hnone
      rw [hnone, auditRows_none] at hx
      cases hx
    have hafter : auditAfter T rt { ask with
        cursor := some (sealEvent rt (auditPosition T x) (auditCursorScope T rt ask)) } = some (some (auditPosition T x)) := by
      have hscope : auditCursorScope T rt { ask with
          cursor := some (sealEvent rt (auditPosition T x) (auditCursorScope T rt ask)) } = auditCursorScope T rt ask := rfl
      rw [auditAfter]
      dsimp only
      rw [hscope, openEvent_sealEvent htime, Option.map_some]
    rw [listAuditEvents, hafter, Option.map_some]
    dsimp only
    rw [if_neg hsome, listAuditEventsStatement, rowsAfter]
    simp only [Option.all_some, afterEvent_iff hkey]
    rfl

end

end SlugBase.Keyset
