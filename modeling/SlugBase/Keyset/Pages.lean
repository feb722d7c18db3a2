import SlugBase.Keyset.Tags
import SlugBase.Keyset.Audit

/-!
# Three lists in pages

The folders, the tags and the audit log, followed from cursor to cursor.

* `folderCursorScope_eq_iff`, `tagCursorScope_eq_iff`, `auditCursorScope_eq_iff`: which requests share a scope;
* **`keysetPages`**: the pages of each list are the whole list, and a cursor opens for no other list.
-/

set_option linter.unusedSectionVars false

namespace SlugBase.Keyset

open Relational Bulk OrderDual

/-- A store whose counts fit their column type. -/
structure CountedContent where
  content : Content
  folders : FolderCountsFit content
  tags : TagCountsFit content

section

variable {κ : Type} [LinearOrder κ] {T : KeysetTexts κ} {rt : CursorRuntime}

/-! ## Scopes -/

theorem uuidText_injective {a b : Uuid} (h : T.uuidText a = T.uuidText b) : a = b := by
  rw [← T.readUuid_text a, h, T.readUuid_text]

theorem textPart_inj {a b : String} : textPart a = textPart b ↔ a = b := by
  rw [textPart, textPart, Option.some_inj, Sum.inl.injEq]

theorem optionalText_inj {a b : Option String} :
    (a.map .inl : Option (String ⊕ List String)) = b.map .inl ↔ a = b :=
  (Option.map_injective Sum.inl_injective).eq_iff

theorem optionalUuid_inj {a b : Option Uuid} : a.map T.uuidText = b.map T.uuidText ↔ a = b :=
  (Option.map_injective fun _ _ => uuidText_injective).eq_iff

theorem scopeText_inj {a b : FolderScope} : a.text = b.text ↔ a = b := by
  cases a <;> cases b <;> decide

theorem sortText_inj {a b : FolderSort} : a.text = b.text ↔ a = b := by
  cases a <;> cases b <;> decide

theorem tagSortText_inj {a b : TagSort} : a.text = b.text ↔ a = b := by
  cases a <;> cases b <;> decide

theorem stringify_list_inj {a b : List (Option (String ⊕ List String))} :
    rt.stringify (.list a) = rt.stringify (.list b) ↔ a = b := by
  constructor
  · exact fun h => Json.list.inj (stringify_injective h)
  · exact fun h => congrArg _ (congrArg _ h)

theorem folderCursorScope_eq_iff {ask ask' : FolderListAsk} : folderCursorScope T rt ask = folderCursorScope T rt ask' ↔
    ask.workspaceId = ask'.workspaceId ∧ ask.accountId = ask'.accountId ∧ ask.scope = ask'.scope ∧
      ask.search = ask'.search ∧ ask.sort = ask'.sort := by
  rw [folderCursorScope, folderCursorScope, stringify_list_inj]
  simp only [List.cons.injEq, and_true, textPart_inj, optionalText_inj, scopeText_inj, sortText_inj]
  exact and_congr ⟨uuidText_injective, congrArg _⟩ (and_congr ⟨uuidText_injective, congrArg _⟩ Iff.rfl)

theorem tagCursorScope_eq_iff {ask ask' : TagListAsk} : tagCursorScope T rt ask = tagCursorScope T rt ask' ↔
    ask.workspaceId = ask'.workspaceId ∧ ask.accountId = ask'.accountId ∧ ask.sort = ask'.sort := by
  rw [tagCursorScope, tagCursorScope, stringify_list_inj]
  simp only [List.cons.injEq, and_true, textPart_inj, tagSortText_inj]
  exact and_congr ⟨uuidText_injective, congrArg _⟩ (and_congr ⟨uuidText_injective, congrArg _⟩ Iff.rfl)

theorem auditCursorScope_eq_iff {ask ask' : AuditListAsk} : auditCursorScope T rt ask = auditCursorScope T rt ask' ↔
    ask.workspaceId = ask'.workspaceId ∧ ask.actorAccountId = ask'.actorAccountId ∧
      admittedActions ask.actions ask.categories = admittedActions ask'.actions ask'.categories ∧
      ask.entityType = ask'.entityType ∧ ask.entityId = ask'.entityId ∧ ask.notBefore = ask'.notBefore ∧
      ask.before = ask'.before := by
  rw [auditCursorScope, auditCursorScope, stringify_list_inj]
  simp only [List.cons.injEq, and_true, textPart_inj, optionalText_inj, optionalUuid_inj,
    (Option.map_injective Sum.inr_injective).eq_iff]
  exact and_congr ⟨uuidText_injective, congrArg _⟩ Iff.rfl

end

/-! ## The lists -/

/-- **Keyset pages of folders, tags and audit events.** For every store, request and page size the pages obtained by
following the cursors end and are the whole list in the order of its sort; a position that is sealed opens as it was, for
its own list alone; and two requests share a scope only when they ask for one list. -/
theorem keysetPages {κ : Type} [LinearOrder κ] (T : KeysetTexts κ) (rt : CursorRuntime) (c : CountedContent) (log : AuditLog T) :
    (∀ ask : FolderListAsk, WalksAll (folderRank T ask.sort)
      (folderRows T c.content ask.workspaceId ask.accountId ask.scope ask.search)
      fun cursor => (listFolders T rt c.content { ask with cursor := cursor }).map Counted.toKeysetPage) ∧
    (∀ ask : TagListAsk, WalksAll (tagRank T ask.sort) (tagRows c.content ask.workspaceId ask.accountId)
      fun cursor => (listTags T rt c.content { ask with cursor := cursor }).map Counted.toKeysetPage) ∧
    (∀ ask : AuditListAsk, WalksAll auditRank (auditRows log ask (admittedActions ask.actions ask.categories))
      fun cursor => listAuditEvents rt log { ask with cursor := cursor }) ∧
    (∀ purpose purpose' key scope scope', decodeKey rt purpose' (encodeKey rt purpose key scope) scope' =
      if purpose = purpose' ∧ scope = scope' then some key else none) ∧
    (∀ (ask : FolderListAsk) (row : { row // row ∈ folderRows T c.content ask.workspaceId ask.accountId ask.scope ask.search })
      (scope : String), openFolder rt (sealFolder rt (folderPosition T ask.sort row.val) scope) scope =
        some (folderPosition T ask.sort row.val)) ∧
    (∀ (ask : TagListAsk) (row : { row // row ∈ tagRows c.content ask.workspaceId ask.accountId }) (scope : String),
      openTag rt (sealTag rt (tagPosition T ask.sort row.val) scope) scope = some (tagPosition T ask.sort row.val)) ∧
    (∀ (ask : AuditListAsk) (row : { row // row ∈ auditRows log ask (admittedActions ask.actions ask.categories) })
      (scope : String), openEvent T rt (sealEvent rt (auditPosition T row.val) scope) scope =
        some (auditPosition T row.val)) ∧
    (∀ ask ask' : FolderListAsk, folderCursorScope T rt ask = folderCursorScope T rt ask' ↔
      ask.workspaceId = ask'.workspaceId ∧ ask.accountId = ask'.accountId ∧ ask.scope = ask'.scope ∧
        ask.search = ask'.search ∧ ask.sort = ask'.sort) ∧
    (∀ ask ask' : TagListAsk, tagCursorScope T rt ask = tagCursorScope T rt ask' ↔
      ask.workspaceId = ask'.workspaceId ∧ ask.accountId = ask'.accountId ∧ ask.sort = ask'.sort) ∧
    (∀ ask ask' : AuditListAsk, auditCursorScope T rt ask = auditCursorScope T rt ask' ↔
      ask.workspaceId = ask'.workspaceId ∧ ask.actorAccountId = ask'.actorAccountId ∧
        admittedActions ask.actions ask.categories = admittedActions ask'.actions ask'.categories ∧
        ask.entityType = ask'.entityType ∧ ask.entityId = ask'.entityId ∧ ask.notBefore = ask'.notBefore ∧
        ask.before = ask'.before) := by
  refine ⟨fun ask => ?_, fun ask => ?_, fun ask => ?_, fun _ _ _ _ _ => decodeKey_encodeKey_eq, fun ask row scope => ?_,
    fun ask row scope => ?_, fun ask row scope => ?_, fun _ _ => folderCursorScope_eq_iff, fun _ _ => tagCursorScope_eq_iff,
    fun _ _ => auditCursorScope_eq_iff⟩
  · exact (listFolders_resumes c.folders ask).walksAll ask.limit.property separates_folderRows folderRows_nodup
  · exact (listTags_resumes c.tags ask).walksAll ask.limit.property separates_tagRows tagRows_nodup
  · exact (listAuditEvents_resumes ask).walksAll ask.limit.property separates_auditRows auditRows_nodup
  · exact openFolder_sealFolder fun count h => folderPosition_count c.folders row.property h
  · exact openTag_sealTag fun count h => tagPosition_count c.tags row.property h
  · obtain ⟨hmem, hrow⟩ := mem_auditRows row.property
    exact openEvent_sealEvent (by rw [hrow]; exact log.times _ hmem)

/-- Two folders of account 7, and a tag. -/
def twoFolders : CountedContent where
  content := {
    folders := ⟨[⟨20, 1, some 7, none, none, "News", "folder", 1, 1, 0, 0⟩,
      ⟨21, 1, some 7, none, none, "Docs", "folder", 1, 1, 0, 0⟩], by decide⟩
    tags := ⟨[⟨30, 1, 7, "read"⟩], by decide⟩ }
  folders := by unfold FolderCountsFit; decide
  tags := by unfold TagCountsFit; decide

/-- One event, at the time 0. -/
def oneEvent : AuditLog plainTexts where
  events := ⟨[⟨40, some 1, 0, "account", some 7, "Account", "share.granted", none, none, []⟩], by decide⟩
  times := by decide

/-- The folders by name, one to a page. -/
def byName : FolderListAsk := ⟨1, 7, .mine, none, .name, ⟨1, by decide⟩, none⟩

/-- The granted shares of a workspace, with the action named once. -/
def askOnce : AuditListAsk := ⟨1, none, some ["share.granted"], none, none, none, none, none, ⟨10, by decide⟩, none⟩

/-- The same events, with the action named twice. -/
def askTwice : AuditListAsk := { askOnce with actions := some ["share.granted", "share.granted"] }

theorem keysetPages_few : ∃ rt : CursorRuntime,
    (WalksAll (folderRank plainTexts byName.sort) (folderRows plainTexts twoFolders.content 1 7 .mine none) fun cursor =>
      (listFolders plainTexts rt twoFolders.content { byName with cursor := cursor }).map Counted.toKeysetPage) ∧
    (folderRows plainTexts twoFolders.content 1 7 .mine none).length = 2 ∧
    (WalksAll auditRank (auditRows oneEvent askOnce (admittedActions askOnce.actions askOnce.categories)) fun cursor =>
      listAuditEvents rt oneEvent { askOnce with cursor := cursor }) ∧
    (auditRows oneEvent askOnce (admittedActions askOnce.actions askOnce.categories)).length = 1 := by
  obtain ⟨rt⟩ := cursorRuntime_nonempty
  have hpages := keysetPages plainTexts rt twoFolders oneEvent
  exact ⟨rt, hpages.1 byName, by decide, hpages.2.2.1 askOnce, by decide⟩

theorem auditCursorScope_twice : askOnce.actions ≠ askTwice.actions ∧
    ∀ (T : KeysetTexts ℕ) (rt : CursorRuntime), auditCursorScope T rt askOnce = auditCursorScope T rt askTwice := by
  refine ⟨by decide, fun T rt => auditCursorScope_eq_iff.mpr ⟨rfl, rfl, ?_, rfl, rfl, rfl, rfl⟩⟩
  decide +kernel

end SlugBase.Keyset
