import SlugBase.Editing.Runs

/-!
# Versions of bookmarks

What every answer of a change has done, in every run of changes and of whatever else writes to the rows.

* `Deed.Succeeded`: what an answer that is no refusal stands for; `Deed.moved`: it changed a column;
* `Valid`, **`valid_of_reachable`**: the invariant; a row that was changed is past the version it was changed from;
* **`update_atomic`**: refusals write nothing, the version moves by one exactly when a column does, and two
  changes of one version do not both move it.
-/

namespace SlugBase.Editing

open Relational Transition

/-! ## What an answer stands for -/

/-- **A change that was not refused**: it judged the committed row, of an accepted version; it answers `unchanged`
exactly when the patch leaves everything as it is, and else it has written the patch. -/
structure Deed.Succeeded (names : Names) (checks : TextChecks) (d : Deed) (changes : BookmarkChanges)
    (current : Bookmark) (filed carried : List Uuid) (made : List BookmarkTagName) (wantedTags : Option (List Uuid)) :
    Prop where
  judged : d.stage = some (.tagsNamed current filed carried made wantedTags)
  asked : changesOf checks d.ask.patch = .ok changes
  committed : current ∈ d.before.bookmarks
  fits : Fits (d.ask.request changes) current
  links : LinksRead (d.ask.request changes) d.seen filed carried
  wanted : TagsWanted names (d.ask.request changes) d.seen made wantedTags
  unchanged_iff : (∃ bookmark, d.answer = .unchanged bookmark) ↔ LeavesAll changes d.now current filed carried wantedTags
  unchanged : ∀ bookmark, d.answer = .unchanged bookmark → bookmark.row = current ∧ d.after = d.before
  updated : ∀ bookmark, d.answer = .updated bookmark → bookmark.row ∈ d.after.bookmarks ∧ bookmark.row.id = current.id ∧
    bookmark.row.visible = (patched changes d.now current).visible ∧
    (bookmark.row.version = if bookmark.row.visible = current.visible then current.version else current.version + 1) ∧
    ∀ b, b.id ≠ current.id → (b ∈ d.after.bookmarks ↔ b ∈ d.before.bookmarks)

/-- What the answer of a change stands for. -/
structure Deed.Answered (names : Names) (checks : TextChecks) (d : Deed) : Prop where
  refused : ∀ why, d.answer = .refused why → d.after = d.before
  succeeded : (∀ why, d.answer ≠ .refused why) → ∃ changes current filed carried made wantedTags,
    d.Succeeded names checks changes current filed carried made wantedTags

/-- The row a change was judged by. -/
def Deed.current (d : Deed) : Option Bookmark := d.stage.bind Stage.row

/-- The answer says that a column of the row has changed. -/
def Deed.moved (d : Deed) : Bool :=
  match d.answer, d.current with
  | .updated bookmark, some current => decide (bookmark.row.visible ≠ current.visible)
  | _, _ => false

/-! ## The invariant -/

/-- What holds of a change in flight, the `i`-th. -/
structure Txn.Valid (names : Names) (checks : TextChecks) (s : State) (i : ℕ) (t : Txn) : Prop where
  asked : changesOf checks t.ask.patch = .ok t.changes
  held : ∀ current, t.stage.row = some current →
    current ∈ s.content.bookmarks ∧ s.locks current.id = some i ∧ Fits t.request current
  sound : t.stage.Sound names t.request s.known t.seen

/-- **The invariant of the runs.** -/
structure Valid (names : Names) (checks : TextChecks) (s : State) : Prop where
  checked : ∀ b ∈ s.content.bookmarks, b.forwarding = true → b.slug ≠ none
  known : givenIds s.content ⊆ s.known
  running : ∀ i t, s.running i = some t → t.Valid names checks s i
  history : ∀ d ∈ s.history, d.Answered names checks
  past : ∀ d ∈ s.history, d.moved = true → ∀ current, d.current = some current →
    current.id ∈ s.known ∧ ∀ b ∈ s.content.bookmarks, b.id = current.id → current.version < b.version
  apart : s.history.Pairwise fun d d' => d.moved = true → d'.moved = true → ∀ current current',
    d.current = some current → d'.current = some current' → current.id = current'.id → current.version ≠ current'.version

section

variable {names : Names} {checks : TextChecks} {s s' : State} {i : ℕ} {t : Txn}

theorem mem_givenIds {b : Bookmark} (h : b ∈ s.content.bookmarks) : b.id ∈ givenIds s.content :=
  List.mem_append_left _ (List.mem_map.mpr ⟨b, h, rfl⟩)

/-- A request that arrives leaves the invariant. -/
theorem Valid.asked (hs : Valid names checks s) {ask : BookmarkUpdateAsk} {session : Session}
    (h : s.asked checks i ask session = some s') : Valid names checks s' := by
  unfold State.asked at h
  split_ifs at h
  cases hchanges : changesOf checks ask.patch with
  | error why =>
    rw [hchanges] at h
    obtain rfl := Option.some.inj h
    have hanswer : (ask.turnedAway session s.content why).Answered names checks :=
      ⟨fun _ _ => rfl, fun hno => absurd rfl (hno why)⟩
    have hstill : (ask.turnedAway session s.content why).moved = false := rfl
    refine ⟨hs.checked, hs.known, fun j u hu => ⟨(hs.running j u hu).asked, (hs.running j u hu).held,
      (hs.running j u hu).sound⟩, List.forall_mem_cons.mpr ⟨hanswer, hs.history⟩,
      List.forall_mem_cons.mpr ⟨fun hm => ?_, hs.past⟩, List.pairwise_cons.mpr ⟨fun d hd hm => ?_, hs.apart⟩⟩
    · rw [hstill] at hm
      cases hm
    · rw [hstill] at hm
      cases hm
  | ok changes =>
    rw [hchanges] at h
    obtain rfl := Option.some.inj h
    refine ⟨hs.checked, hs.known, fun j u hu => ?_, hs.history, hs.past, hs.apart⟩
    by_cases hj : j = i
    · subst hj
      dsimp only at hu
      rw [Function.update_self] at hu
      obtain rfl := Option.some.inj hu
      exact ⟨hchanges, fun current hrow => (by cases hrow), trivial⟩
    · dsimp only at hu
      rw [Function.update_of_ne hj] at hu
      exact ⟨(hs.running j u hu).asked, (hs.running j u hu).held, (hs.running j u hu).sound⟩

/-- A change that goes on leaves the invariant. -/
theorem Valid.goOn (hs : Valid names checks s) (ht : s.running i = some t) {stage : Stage}
    (hgoes : Goes names s.content t.request t.stage stage) (hwaits : s.waits t = false)
    (hfresh : ∀ tag ∈ stage.makes, tag.newId ∉ s.known) : Valid names checks (s.goOn i t stage) := by
  have hgrow : s.known ⊆ (s.goOn i t stage).known := List.subset_append_right _ _
  have hvalid := hs.running i t ht
  have hsound : stage.Sound names t.request (s.goOn i t stage).known (s.content :: t.seen) :=
    (hgoes.sound hs.known hvalid.sound hfresh).mono hgrow (fun _ h => h)
  refine ⟨hs.checked, fun id hid => hgrow (hs.known hid), fun j u hu => ?_, hs.history,
    fun d hd hm current hc => ⟨hgrow (hs.past d hd hm current hc).1, (hs.past d hd hm current hc).2⟩, hs.apart⟩
  rcases hgoes.row with ⟨hrow, hno⟩ | ⟨current, howner, rfl, hlocked, hfits⟩
  · have hlocks : (s.goOn i t stage).locks = s.locks := by
      unfold State.goOn
      cases stage with
      | held current => exact absurd rfl (hno current)
      | _ => rfl
    by_cases hj : j = i
    · subst hj
      obtain rfl : { t with stage := stage, seen := s.content :: t.seen } = u := by
        simpa [State.goOn] using hu
      refine ⟨hvalid.asked, fun current hc => ?_, hsound⟩
      rw [hlocks]
      exact hvalid.held current (hrow ▸ hc)
    · have hold : s.running j = some u := by simpa [State.goOn, Function.update_of_ne hj] using hu
      refine ⟨(hs.running j u hold).asked, fun current hc => ?_, (hs.running j u hold).sound.mono hgrow fun _ h => h⟩
      rw [hlocks]
      exact (hs.running j u hold).held current hc
  -- the row is locked: nobody else holds it
  · obtain ⟨hmem, hid, -⟩ := lockedRow_some hlocked
    have hfree : s.locks current.id = none := by
      simpa [State.waits, howner, hlocked] using hwaits
    by_cases hj : j = i
    · subst hj
      obtain rfl : { t with stage := .held current, seen := s.content :: t.seen } = u := by
        simpa [State.goOn] using hu
      refine ⟨hvalid.asked, fun row hc => ?_, hsound⟩
      obtain rfl := Option.some.inj hc
      exact ⟨hmem, Function.update_self .., hfits⟩
    · have hold : s.running j = some u := by simpa [State.goOn, Function.update_of_ne hj] using hu
      refine ⟨(hs.running j u hold).asked, fun row hc => ?_, (hs.running j u hold).sound.mono hgrow fun _ h => h⟩
      obtain ⟨hrow, hlock, hrowFits⟩ := (hs.running j u hold).held row hc
      have hne : row.id ≠ current.id := by
        intro heq
        rw [heq, hfree] at hlock
        cases hlock
      exact ⟨hrow, (Function.update_of_ne hne ..).trans hlock, hrowFits⟩

/-- **An answer leaves the invariant**, when its commit keeps the rows that others hold and takes no version back. -/
theorem Valid.ended (hs : Valid names checks s) (ht : s.running i = some t) {now : Timestamp}
    {answer : BookmarkUpdateResult} {after : Content}
    (hchecked : ∀ b ∈ after.bookmarks, b.forwarding = true → b.slug ≠ none)
    (hkept : ∀ b ∈ s.content.bookmarks, s.locks b.id ≠ some i → b ∈ after.bookmarks)
    (hback : ∀ b ∈ after.bookmarks, ∃ b₀ ∈ s.content.bookmarks, b₀.id = b.id ∧ b₀.version ≤ b.version)
    (hanswered : (t.deed s.content now answer after).Answered names checks)
    (hmoved : (t.deed s.content now answer after).moved = true → ∀ current, t.stage.row = some current →
      ∀ b ∈ after.bookmarks, b.id = current.id → current.version < b.version) :
    Valid names checks (s.ended i t now answer after) := by
  have hgrow : s.known ⊆ (s.ended i t now answer after).known := List.subset_append_right _ _
  have hheld := (hs.running i t ht).held
  refine ⟨hchecked, List.subset_append_left _ _, fun j u hu => ?_, List.forall_mem_cons.mpr ⟨hanswered, hs.history⟩,
    List.forall_mem_cons.mpr ⟨fun hm current hc => ?_, fun d hd hm current hc => ?_⟩,
    List.pairwise_cons.mpr ⟨fun d hd hm hm' current current' hc hc' hid => ?_, hs.apart⟩⟩
  · have hj : j ≠ i := by
      rintro rfl
      simp [State.ended] at hu
    have hold : s.running j = some u := by simpa [State.ended, Function.update_of_ne hj] using hu
    refine ⟨(hs.running j u hold).asked, fun row hc => ?_, (hs.running j u hold).sound.mono hgrow fun _ h => h⟩
    obtain ⟨hrow, hlock, hfits⟩ := (hs.running j u hold).held row hc
    have hother : s.locks row.id ≠ some i := by
      rw [hlock]
      exact fun h => hj (Option.some.inj h)
    exact ⟨hkept row hrow hother, (if_neg hother).trans hlock, hfits⟩
  · exact ⟨hgrow (hs.known (mem_givenIds (hheld current hc).1)), hmoved hm current hc⟩
  · obtain ⟨hknown, hpast⟩ := hs.past d hd hm current hc
    refine ⟨hgrow hknown, fun b hb hid => ?_⟩
    obtain ⟨b₀, hb₀, hid₀, hle⟩ := hback b hb
    have hlt := hpast b₀ hb₀ (hid₀.trans hid)
    omega
  · have hlt := (hs.past d hd hm' current' hc').2 current (hheld current hc).1 hid
    omega

/-- What others commit leaves the invariant. -/
theorem Valid.others (hs : Valid names checks s) {content : Content} (h : Others s content) :
    Valid names checks { s with content := content, known := givenIds content ++ s.known } := by
  have hgrow : s.known ⊆ givenIds content ++ s.known := List.subset_append_right _ _
  refine ⟨h.checked, List.subset_append_left _ _, fun j u hu => ?_, hs.history, fun d hd hm current hc => ?_, hs.apart⟩
  · refine ⟨(hs.running j u hu).asked, fun row hc => ?_, (hs.running j u hu).sound.mono hgrow fun _ h => h⟩
    obtain ⟨hrow, hlock, hfits⟩ := (hs.running j u hu).held row hc
    exact ⟨h.held row hrow (by rw [hlock]; rfl), hlock, hfits⟩
  · obtain ⟨hknown, hpast⟩ := hs.past d hd hm current hc
    refine ⟨hgrow hknown, fun b hb hid => ?_⟩
    -- a row of this identifier is not new
    by_cases hold : ∃ b' ∈ s.content.bookmarks, b'.id = b.id
    · obtain ⟨b', hb', hid'⟩ := hold
      have hle := h.kept b' hb' b hb hid'.symm
      have hlt := hpast b' hb' (hid'.trans hid)
      omega
    · exact absurd (hid ▸ hknown) (h.fresh b hb fun b' hb' hid' => hold ⟨b', hb', hid'⟩)

theorem Valid.refused (hs : Valid names checks s) (ht : s.running i = some t) (now : Timestamp) (why : Refusal) :
    Valid names checks (s.ended i t now (.refused why) s.content) := by
  refine hs.ended ht hs.checked (fun b hb _ => hb) (fun b hb => ⟨b, hb, rfl, le_rfl⟩)
    ⟨fun _ _ => rfl, fun hno => absurd rfl (hno why)⟩ fun hm => ?_
  have hstill : (t.deed s.content now (.refused why) s.content).moved = false := rfl
  rw [hstill] at hm
  cases hm

section

variable {now : Timestamp} {current : Bookmark} {filed carried : List Uuid} {made : List BookmarkTagName}
  {wantedTags : Option (List Uuid)}

/-- **What leaves a bookmark as it is makes no tag either.** -/
theorem LeavesAll.made_nil {known : List Uuid} {seen : List Content} {r : BookmarkUpdateRequest}
    (h : LeavesAll r.changes now current filed carried wantedTags)
    (hsound : (Stage.tagsNamed current filed carried made wantedTags).Sound names r known seen) : made = [] := by
  by_contra hmade
  obtain ⟨wanted, hwanted, id, hid, hnot⟩ := hsound.2.2 hmade
  exact hnot ((h.2.2 wanted hwanted id).mp hid)

/-- An answer `unchanged` leaves the invariant, and the rows. -/
theorem Valid.unchanged (hs : Valid names checks s) (ht : s.running i = some t)
    (hstage : t.stage = .tagsNamed current filed carried made wantedTags)
    (hnothing : (decided t.request current filed carried made wantedTags now).nothing = true) :
    Valid names checks (s.ended i t now (.unchanged ⟨current, filed, carried⟩)
      (applyWrites s.content t.request t.session (decided t.request current filed carried made wantedTags now))) := by
  have hvalid := hs.running i t ht
  have hleaves : LeavesAll t.changes now current filed carried wantedTags := nothing_decided.mp hnothing
  have hsound : (Stage.tagsNamed current filed carried made wantedTags).Sound names t.request s.known t.seen :=
    hstage ▸ hvalid.sound
  have hmade : made = [] := LeavesAll.made_nil (r := t.request) hleaves hsound
  rw [applyWrites_nothing hnothing hmade]
  have hrow : t.stage.row = some current := by rw [hstage]; rfl
  refine hs.ended ht hs.checked (fun b hb _ => hb) (fun b hb => ⟨b, hb, rfl, le_rfl⟩) ⟨fun _ _ => rfl, fun _ => ?_⟩
    fun hm => ?_
  · have hseen := hsound.mono (fun _ h => h) (List.subset_cons_self s.content t.seen)
    refine ⟨t.changes, current, filed, carried, made, wantedTags, congrArg some hstage, hvalid.asked,
      (hvalid.held current hrow).1, (hvalid.held current hrow).2.2, hseen.1, hseen.2.1,
      ⟨fun _ => hleaves, fun _ => ⟨_, rfl⟩⟩, ?_, fun _ hanswer => (by cases hanswer)⟩
    intro bookmark hanswer
    cases hanswer
    exact ⟨rfl, rfl⟩
  · have hstill : (t.deed s.content now (.unchanged ⟨current, filed, carried⟩) s.content).moved = false := rfl
    rw [hstill] at hm
    cases hm

/-- **An answer `updated` leaves the invariant**: the row it held is written as the patch says. -/
theorem Valid.updated (hs : Valid names checks s) (ht : s.running i = some t)
    (hstage : t.stage = .tagsNamed current filed carried made wantedTags) {bookmark : BookmarkRecord}
    (hwrites : (decided t.request current filed carried made wantedTags now).nothing = false)
    (hrecord : bookmark.row =
      ((applyWrites s.content t.request t.session (decided t.request current filed carried made wantedTags now)).bookmarks.find?
        fun b => decide (b.id = t.request.bookmarkId)).getD current) :
    Valid names checks (s.ended i t now (.updated bookmark)
      (applyWrites s.content t.request t.session (decided t.request current filed carried made wantedTags now))) := by
  have hvalid := hs.running i t ht
  have hrow : t.stage.row = some current := by rw [hstage]; rfl
  obtain ⟨hmem, hlock, hfits⟩ := hvalid.held current hrow
  set writes := decided t.request current filed carried made wantedTags now with hw
  have hafter : bookmark.row = rowAfter t.session writes current := by
    rw [hrecord, find_rowAfter hmem hfits.id, Option.getD_some]
  have hrowAfter : rowAfter t.session (decided t.request current filed carried made wantedTags now) current =
      bookmark.row := hafter.symm
  obtain ⟨hvisible, hversion⟩ := rowAfter_decided hrowAfter
  have hid : bookmark.row.id = current.id := hafter ▸ rowAfter_id
  have hin : bookmark.row ∈ (applyWrites s.content t.request t.session writes).bookmarks :=
    hafter ▸ rowAfter_mem_applyWrites hmem hfits.id
  have hrows {b : Bookmark} (hb : b ∈ (applyWrites s.content t.request t.session writes).bookmarks) :
      b = bookmark.row ∨ b.id ≠ current.id ∧ b ∈ s.content.bookmarks := hafter ▸ mem_applyWrites hmem hfits.id hb
  have hle : current.version ≤ bookmark.row.version := by
    rw [hversion]
    split_ifs
    · exact le_rfl
    · omega
  have hothers {b : Bookmark} (hb : b.id ≠ current.id) :
      b ∈ (applyWrites s.content t.request t.session writes).bookmarks ↔ b ∈ s.content.bookmarks :=
    mem_applyWrites_of_ne (hfits.id ▸ hb)
  refine hs.ended ht (fun b hb => ?_) (fun b hb hfree => ?_) (fun b hb => ?_) ⟨fun _ hr => (by cases hr), fun _ => ?_⟩
    fun hm row hc b hb hbid => ?_
  · rcases hrows hb with rfl | ⟨-, hold⟩
    · rw [hafter]
      exact rowAfter_forwarding rfl hfits.forwarding
    · exact hs.checked b hold
  · refine (hothers fun hbid => hfree ?_).mpr hb
    rw [hbid, hlock]
  · rcases hrows hb with rfl | ⟨-, hold⟩
    · exact ⟨current, hmem, hid.symm, hle⟩
    · exact ⟨b, hold, rfl, le_rfl⟩
  · have hseen := (hstage ▸ hvalid.sound : (Stage.tagsNamed current filed carried made wantedTags).Sound names t.request
      s.known t.seen).mono (fun _ h => h) (List.subset_cons_self s.content t.seen)
    have hleaves : ¬LeavesAll t.changes now current filed carried wantedTags := by
      intro h
      have hnothing : (decided t.request current filed carried made wantedTags now).nothing = true :=
        nothing_decided.mpr h
      rw [← hw, hwrites] at hnothing
      cases hnothing
    refine ⟨t.changes, current, filed, carried, made, wantedTags, congrArg some hstage, hvalid.asked, hmem, hfits,
      hseen.1, hseen.2.1, ⟨fun h => ?_, fun h => absurd h hleaves⟩, fun _ h => (by cases h), ?_⟩
    · obtain ⟨_, hanswer⟩ := h
      cases hanswer
    · intro record hanswer
      cases hanswer
      exact ⟨hin, hid, hvisible, hversion, fun b hb => hothers hb⟩
  · obtain rfl : current = row := Option.some.inj (hrow.symm.trans hc)
    have hchanged : bookmark.row.visible ≠ current.visible := by
      have hcurrent : (t.deed s.content now (.updated bookmark)
        (applyWrites s.content t.request t.session writes)).current = some current := hrow
      unfold Deed.moved at hm
      rw [hcurrent] at hm
      exact of_decide_eq_true hm
    rcases hrows hb with rfl | ⟨hne, -⟩
    · rw [hversion, if_neg hchanged]
      omega
    · exact absurd hbid hne

end

/-- **A statement leaves the invariant.** -/
theorem Valid.run (hs : Valid names checks s) {now : Timestamp} (h : s.run names i now = some s') :
    Valid names checks s' := by
  unfold State.run at h
  cases ht : s.running i with
  | none =>
    rw [ht] at h
    cases h
  | some t =>
    rw [ht] at h
    dsimp only at h
    split_ifs at h with hwaits
    have hends := statement_ends names s.content t.request t.session now t.stage
    generalize hstage : t.stage = stage at h hends
    generalize statement names s.content t.request t.session now stage = outcome at h hends
    cases hends with
    | goes hgoes =>
      dsimp only at h
      split_ifs at h with hfresh
      obtain rfl := Option.some.inj h
      refine hs.goOn ht (hstage ▸ hgoes) (Bool.eq_false_iff.mpr hwaits) fun tag htag hknown => hfresh ?_
      exact List.any_eq_true.mpr ⟨tag, htag, List.contains_iff_mem.mpr hknown⟩
    | refuse =>
      obtain rfl := Option.some.inj h
      exact hs.refused ht now _
    | taken =>
      obtain rfl := Option.some.inj h
      exact hs.refused ht now _
    | unchanged hnothing =>
      obtain rfl := Option.some.inj h
      exact hs.unchanged ht hstage hnothing
    | updated hwrites hrecord =>
      obtain rfl := Option.some.inj h
      exact hs.updated ht hstage hwrites hrecord

end

/-! ## Every run -/

section

variable {names : Names} {checks : TextChecks} {s : State}

/-- **The invariant holds in every run.** -/
theorem valid_of_reachable (h : (system names checks).Reachable s) : Valid names checks s := by
  refine System.Reachable.invariant (I := Valid names checks) ?_ ?_ h
  · rintro s ⟨hchecked, hknown, hrunning, -, hhistory⟩
    refine ⟨hchecked, fun id hid => hknown id hid, fun i t ht => ?_, ?_, ?_, ?_⟩
    · rw [hrunning] at ht
      cases ht
    · rw [hhistory]
      exact fun d hd => absurd hd List.not_mem_nil
    · rw [hhistory]
      exact fun d hd => absurd hd List.not_mem_nil
    · rw [hhistory]
      exact List.Pairwise.nil
  · rintro s label s' hs (hstep | ⟨content, -, hothers, rfl⟩)
    · cases label with
      | ask i ask session => exact hs.asked hstep
      | run i now => exact hs.run hstep
      | others content => cases hstep
    · exact hs.others hothers

theorem Deed.Answered.version_of_moved {d : Deed} (h : d.Answered names checks) (hmoved : d.moved = true) {version : ℤ}
    (hversion : d.ask.expectedVersions = some [version]) :
    ∃ current, d.current = some current ∧ current.id = d.ask.bookmarkId ∧ current.version = version := by
  have hno : ∀ why, d.answer ≠ .refused why := by
    intro why hanswer
    unfold Deed.moved at hmoved
    rw [hanswer] at hmoved
    cases hmoved
  obtain ⟨changes, current, filed, carried, made, wantedTags, hsucceeded⟩ := h.succeeded hno
  refine ⟨current, ?_, hsucceeded.fits.id, List.mem_singleton.mp (hsucceeded.fits.expected _ hversion)⟩
  rw [Deed.current, hsucceeded.judged]
  rfl

/-- **A change of a bookmark is atomic and versioned.** In every run of changes, between one another's statements
and with whatever else is committed: no bookmark forwards without a slug; a refusal has written nothing; any other
answer is `unchanged` exactly when the patch leaves the columns, the folders and the tags as they are, and else the
row has the values of the patch and its version has moved by one exactly when a column has; and of two changes of a
bookmark with the same expected version at most one has changed a column. -/
theorem update_atomic (h : (system names checks).Reachable s) :
    (∀ b ∈ s.content.bookmarks, b.forwarding = true → b.slug ≠ none) ∧
    (∀ d ∈ s.history, d.Answered names checks) ∧
    s.history.Pairwise fun d d' => ∀ version, d.ask.bookmarkId = d'.ask.bookmarkId →
      d.ask.expectedVersions = some [version] → d'.ask.expectedVersions = some [version] →
      ¬(d.moved = true ∧ d'.moved = true) := by
  have hvalid := valid_of_reachable h
  refine ⟨hvalid.checked, hvalid.history, ?_⟩
  refine List.Pairwise.imp_of_mem ?_ hvalid.apart
  rintro d d' hd hd' hapart version hbookmark hversion hversion' ⟨hmoved, hmoved'⟩
  obtain ⟨current, hc, hid, hv⟩ := (hvalid.history d hd).version_of_moved hmoved hversion
  obtain ⟨current', hc', hid', hv'⟩ := (hvalid.history d' hd').version_of_moved hmoved' hversion'
  exact hapart hmoved hmoved' current current' hc hc' (by rw [hid, hid', hbookmark]) (hv.trans hv'.symm)

end

/-! ## Two changes of one version -/

/-- One bookmark of account 7, which has a folder. -/
def filedOnce : Content where
  bookmarks := ⟨[{ id := 1, workspaceId := 1, ownerId := some 7, departureId := none, departureSlug := none
                   departureForwarding := none, url := "https://a.example/", urlCanonical := "https://a.example/"
                   host := "a.example", title := "A", description := none, slug := none, forwarding := false
                   pinnedAt := none, planArchivedAt := none, openCount := 0, lastOpenedAt := none, version := 1
                   createdAt := 0, updatedAt := 0 }], by decide⟩
  folders := ⟨[{ id := 10, workspaceId := 1, ownerId := some 7, departureId := none, departureName := none
                 name := "F", icon := "folder", color := 0, version := 1, createdAt := 0, updatedAt := 0 }], by decide⟩

/-- Names as they are written, and texts as they are given. -/
def plainNames : Names := ⟨id, fun _ _ => true⟩

def plainChecks : TextChecks := ⟨fun url => some ⟨url, url, url⟩, some⟩

/-- Nothing runs yet. -/
def quietState : State := ⟨filedOnce, fun _ => none, fun _ => none, [1], []⟩

/-- Account 7 puts the bookmark in the folders of version 1. -/
def fileInto (folderIds : List Uuid) : BookmarkUpdateAsk where
  workspaceId := 1
  bookmarkId := 1
  accountId := 7
  patch := { folderIds := some folderIds }
  expectedVersions := some [1]

/-- Both requests arrive; the first runs to its end, then the second. -/
def twoFilings : List Label :=
  [.ask 0 (fileInto [10]) ⟨some 7, some 1, none, 5⟩, .ask 1 (fileInto []) ⟨some 7, some 1, none, 6⟩] ++
    List.replicate 9 (.run 0 7) ++ List.replicate 9 (.run 1 8)

/-- The answer is `updated`. -/
def BookmarkUpdateResult.isUpdated : BookmarkUpdateResult → Bool
  | .updated _ => true
  | _ => false

/-- The state after both filings. -/
def filedTwice : State := (System.follow (State.step? plainNames plainChecks) quietState twoFilings).getD quietState

theorem filedTwice_reachable : (system plainNames plainChecks).Reachable filedTwice := by
  have hstart : (system plainNames plainChecks).Reachable quietState :=
    .init ⟨by decide, by decide, rfl, rfl, rfl⟩
  exact hstart.follow (fun _ _ _ h => Or.inl h) twoFilings quietState (by decide +kernel)

theorem update_atomic_filedTwice :
    filedTwice.history.length = 2 ∧ (filedTwice.content.bookmarks.rows.map (·.version)) = [1] ∧
      ∀ d ∈ filedTwice.history, d.Answered plainNames plainChecks :=
  ⟨by decide +kernel, by decide +kernel, (update_atomic filedTwice_reachable).2.1⟩

/-- **Two changes of one expected version are both written** when they move folders only: the version stays. -/
theorem one_version_two_updates :
    ∃ s, (system plainNames plainChecks).Reachable s ∧
      s.history.map (fun d => (d.ask.bookmarkId, d.ask.expectedVersions, d.answer.isUpdated)) =
        [(1, some [1], true), (1, some [1], true)] :=
  ⟨filedTwice, filedTwice_reachable, by decide +kernel⟩

end SlugBase.Editing
