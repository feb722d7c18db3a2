import SlugBase.Invitation.Tokens

/-!
# The flag of an invitation's link and its token go together

* `Kept`: a row that still holds its token; `Tracked`: the invariant;
* `Tracked.keep`, `Tracked.renew`: the two kinds of step, of those that write no token and those that write one;
* **`link_issued_tracks_token`**: what holds in every run;
* `late_job_ends_later_token`: a job that runs twice ends the token of its own first run.
-/

namespace SlugBase.Invitation.Issuing

open Relational Auth Transition

/-- The token of a live invitation. -/
def Live (s : Deployment) (id : Uuid) (tokenHash : TokenHash) (now : Timestamp) : Prop :=
  ∃ row, (id, row) ∈ s.invitations ∧ row.tokenHash = tokenHash ∧ row.live now = true

/-- The token's value was given to an administrator. -/
def HandedOver (s : Deployment) (tokenHash : TokenHash) : Prop := ∃ a, (tokenHash, Recipient.administrator a) ∈ s.given

/-- The token's value was given to this mailbox and to nobody else. -/
def OnlyMailedTo (s : Deployment) (tokenHash : TokenHash) (email : Address) : Prop :=
  (tokenHash, Recipient.mailbox email) ∈ s.given ∧ ∀ r, (tokenHash, r) ∈ s.given → r = .mailbox email

/-- A token is no later than the request a job serves, or another run of the job wrote it. -/
def Issue.Due (issue : Issue) (job : MailJob) : Prop := issue.issuedAt ≤ job.requestedAt ∨ issue.writer = .job job.mailTicket

/-! ## The invariant -/

/-- **The flag and the token**: the flag of a row says that an administrator was given its token, what was given or is on its
way to a mailbox goes to the row's address, and the job of the row's ticket finds only tokens that are due. The rest says that
what was drawn is drawn once. -/
structure Tracked (s : Deployment) : Prop where
  rows : ∀ r ∈ s.invitations, r.2.tokenHash ∈ s.drawn
  tickets : ∀ r ∈ s.invitations, ∀ t, r.2.mailTicket = some t → t ∈ s.ids
  jobs : ∀ j ∈ s.jobs, j.mailTicket ∈ s.ids
  outbox : ∀ m ∈ s.outbox, m.tokenHash ∈ s.drawn
  given : ∀ g ∈ s.given, g.1 ∈ s.drawn
  issues : ∀ e ∈ s.issues, e.tokenHash ∈ s.drawn
  once : ∀ e ∈ s.issues, ∀ e' ∈ s.issues, e.tokenHash = e'.tokenHash → e = e'
  written : ∀ r ∈ s.invitations, ∃ e ∈ s.issues, e.tokenHash = r.2.tokenHash
  distinct : ∀ r ∈ s.invitations, ∀ r' ∈ s.invitations, r.2.tokenHash = r'.2.tokenHash → r.1 = r'.1
  flagged : ∀ r ∈ s.invitations, r.2.linkIssued = true ↔ HandedOver s r.2.tokenHash
  mailed : ∀ r ∈ s.invitations, ∀ email, (r.2.tokenHash, Recipient.mailbox email) ∈ s.given → email = r.2.email
  mailing : ∀ r ∈ s.invitations, ∀ m ∈ s.outbox, m.tokenHash = r.2.tokenHash → m.email = r.2.email
  due : ∀ r ∈ s.invitations, ∀ j ∈ s.jobs, r.2.mailTicket = some j.mailTicket → ∀ e ∈ s.issues,
    e.tokenHash = r.2.tokenHash → e.Due j
  accounts : ∀ a ∈ s.accounts, a.tokenHash ∈ s.drawn ∧ (a.emailVerified = true → a.hasPassword = true →
    OnlyMailedTo s a.tokenHash a.email ∧ ∀ m ∈ s.outbox, m.tokenHash = a.tokenHash → m.email = a.email)

/-- A row that still holds the token of a row before, for the same address; its mail ticket is the same or a new one. -/
structure Kept (ids : List Uuid) (r₀ r : Uuid × InvitationRow) : Prop where
  id : r.1 = r₀.1
  tokenHash : r.2.tokenHash = r₀.2.tokenHash
  linkIssued : r.2.linkIssued = r₀.2.linkIssued
  email : r.2.email = r₀.2.email
  mailTicket : r.2.mailTicket = r₀.2.mailTicket ∨ ∀ t, r.2.mailTicket = some t → t ∉ ids

theorem Kept.refl {ids : List Uuid} (r : Uuid × InvitationRow) : Kept ids r r := ⟨rfl, rfl, rfl, rfl, .inl rfl⟩

/-- Every row of the second is a row of the first that still holds its token. -/
def AllKept (s s' : Deployment) : Prop := ∀ r ∈ s'.invitations, ∃ r₀ ∈ s.invitations, Kept s.ids r₀ r

/-- A step writes a new token into a row: every other row holds its own and its ticket, the token is given to an
administrator where it is a link's, a mail of it goes to the row's address, and a new job has a new ticket. -/
structure Renews (s s' : Deployment) (i : Uuid) (row : InvitationRow) (w : Writer) : Prop where
  fresh : row.tokenHash ∉ s.drawn
  drawn : row.tokenHash :: s.drawn ⊆ s'.drawn
  ids : s.ids ⊆ s'.ids
  rows : ∀ r ∈ s'.invitations, r = (i, row) ∨ ∃ r₀ ∈ s.invitations, Kept s.ids r₀ r ∧ r.2.mailTicket = r₀.2.mailTicket
  ticket : ∀ t, row.mailTicket = some t → t ∈ s'.ids
  issues : s'.issues = ⟨row.tokenHash, w, s.steps⟩ :: s.issues
  outbox : ∀ m ∈ s'.outbox, m ∈ s.outbox ∨ m = ⟨row.email, row.tokenHash⟩
  given : row.linkIssued = false ∧ s'.given = s.given ∨
    row.linkIssued = true ∧ ∃ a, s'.given = (row.tokenHash, .administrator a) :: s.given
  jobs : ∀ j ∈ s'.jobs, j ∈ s.jobs ∨ j.mailTicket ∉ s.ids ∧ j.mailTicket ∈ s'.ids
  due : ∀ j ∈ s'.jobs, row.mailTicket = some j.mailTicket → s.steps ≤ j.requestedAt ∨ w = .job j.mailTicket
  accounts : s'.accounts = s.accounts

namespace Tracked

variable {s s' : Deployment}

/-! ## Steps that write no token -/

/-- **No token is written**: the rows hold theirs, and the mails, the jobs and what was given are as they were. -/
theorem keep (h : Tracked s) (hrows : AllKept s s') (hdrawn : s.drawn ⊆ s'.drawn) (hids : s.ids ⊆ s'.ids)
    (htickets : ∀ r ∈ s'.invitations, ∀ t, r.2.mailTicket = some t → t ∈ s'.ids) (hjobs : s'.jobs = s.jobs)
    (houtbox : s'.outbox = s.outbox) (hgiven : s'.given = s.given) (hissues : s'.issues = s.issues)
    (haccounts : s'.accounts = s.accounts) : Tracked s' where
  rows r hr := by
    obtain ⟨r₀, hr₀, hkept⟩ := hrows r hr
    rw [hkept.tokenHash]
    exact hdrawn (h.rows r₀ hr₀)
  tickets := htickets
  jobs j hj := hids (h.jobs j (hjobs ▸ hj))
  outbox m hm := hdrawn (h.outbox m (houtbox ▸ hm))
  given g hg := hdrawn (h.given g (hgiven ▸ hg))
  issues e he := hdrawn (h.issues e (hissues ▸ he))
  once e he e' he' heq := h.once e (hissues ▸ he) e' (hissues ▸ he') heq
  written r hr := by
    obtain ⟨r₀, hr₀, hkept⟩ := hrows r hr
    rw [hissues, hkept.tokenHash]
    exact h.written r₀ hr₀
  distinct r hr r' hr' heq := by
    obtain ⟨r₀, hr₀, hkept⟩ := hrows r hr
    obtain ⟨r₁, hr₁, hkept'⟩ := hrows r' hr'
    rw [hkept.id, hkept'.id]
    refine h.distinct r₀ hr₀ r₁ hr₁ ?_
    rw [← hkept.tokenHash, ← hkept'.tokenHash, heq]
  flagged r hr := by
    obtain ⟨r₀, hr₀, hkept⟩ := hrows r hr
    rw [hkept.linkIssued, hkept.tokenHash, HandedOver, hgiven]
    exact h.flagged r₀ hr₀
  mailed r hr email hmem := by
    obtain ⟨r₀, hr₀, hkept⟩ := hrows r hr
    rw [hkept.tokenHash, hgiven] at hmem
    rw [hkept.email]
    exact h.mailed r₀ hr₀ email hmem
  mailing r hr m hm heq := by
    obtain ⟨r₀, hr₀, hkept⟩ := hrows r hr
    rw [hkept.email]
    exact h.mailing r₀ hr₀ m (houtbox ▸ hm) (heq.trans hkept.tokenHash)
  due r hr j hj hticket e he heq := by
    obtain ⟨r₀, hr₀, hkept⟩ := hrows r hr
    have hj₀ : j ∈ s.jobs := hjobs ▸ hj
    rcases hkept.mailTicket with hsame | hnew
    · exact h.due r₀ hr₀ j hj₀ (hsame ▸ hticket) e (hissues ▸ he) (heq.trans hkept.tokenHash)
    · exact absurd (h.jobs j hj₀) (hnew _ hticket)
  accounts a ha := by
    obtain ⟨hdrawn₀, honly⟩ := h.accounts a (haccounts ▸ ha)
    refine ⟨hdrawn hdrawn₀, fun hverified hpassword => ?_⟩
    rw [OnlyMailedTo, hgiven, houtbox]
    exact honly hverified hpassword

/-! ## Steps that write a token -/

section

variable {i : Uuid} {row : InvitationRow} {w : Writer}

theorem given_of_renews (hnew : Renews s s' i row w) {tokenHash : TokenHash} (hdrawn : tokenHash ∈ s.drawn) (r : Recipient) :
    (tokenHash, r) ∈ s'.given ↔ (tokenHash, r) ∈ s.given := by
  have hne : tokenHash ≠ row.tokenHash := fun heq => hnew.fresh (heq ▸ hdrawn)
  rcases hnew.given with ⟨-, hgiven⟩ | ⟨-, a, hgiven⟩
  · rw [hgiven]
  · simp [hgiven, hne]

/-- **A token is written.** -/
theorem renew (h : Tracked s) (hnew : Renews s s' i row w) : Tracked s' := by
  have hmono : s.drawn ⊆ s'.drawn := fun x hx => hnew.drawn (List.mem_cons_of_mem _ hx)
  have hrow : row.tokenHash ∈ s'.drawn := hnew.drawn List.mem_cons_self
  have hne {r₀ : Uuid × InvitationRow} (hr₀ : r₀ ∈ s.invitations) : r₀.2.tokenHash ≠ row.tokenHash :=
    fun heq => hnew.fresh (heq ▸ h.rows r₀ hr₀)
  have hother (e : Issue) (he : e ∈ s.issues) : e.tokenHash ≠ row.tokenHash := fun heq => hnew.fresh (heq ▸ h.issues e he)
  have hunsent : ∀ r, (row.tokenHash, r) ∉ s.given := fun r hr => hnew.fresh (h.given _ hr)
  constructor
  case rows =>
    intro r hr
    rcases hnew.rows r hr with rfl | ⟨r₀, hr₀, hkept, -⟩
    · exact hrow
    · rw [hkept.tokenHash]
      exact hmono (h.rows r₀ hr₀)
  case tickets =>
    intro r hr t ht
    rcases hnew.rows r hr with rfl | ⟨r₀, hr₀, -, hticket⟩
    · exact hnew.ticket t ht
    · exact hnew.ids (h.tickets r₀ hr₀ t (hticket ▸ ht))
  case jobs =>
    intro j hj
    rcases hnew.jobs j hj with hj | ⟨-, hj⟩
    · exact hnew.ids (h.jobs j hj)
    · exact hj
  case outbox =>
    intro m hm
    rcases hnew.outbox m hm with hm | rfl
    · exact hmono (h.outbox m hm)
    · exact hrow
  case given =>
    intro g hg
    rcases hnew.given with ⟨-, hgiven⟩ | ⟨-, a, hgiven⟩
    · exact hmono (h.given g (hgiven ▸ hg))
    · rcases List.mem_cons.mp (hgiven ▸ hg) with rfl | hg
      · exact hrow
      · exact hmono (h.given g hg)
  case issues =>
    intro e he
    rw [hnew.issues] at he
    rcases List.mem_cons.mp he with rfl | he
    · exact hrow
    · exact hmono (h.issues e he)
  case once =>
    intro e he e' he' heq
    rw [hnew.issues] at he he'
    rcases List.mem_cons.mp he with rfl | he <;> rcases List.mem_cons.mp he' with rfl | he'
    · rfl
    · exact absurd heq.symm (hother e' he')
    · exact absurd heq (hother e he)
    · exact h.once e he e' he' heq
  case written =>
    intro r hr
    rw [hnew.issues]
    rcases hnew.rows r hr with rfl | ⟨r₀, hr₀, hkept, -⟩
    · exact ⟨_, List.mem_cons_self, rfl⟩
    · obtain ⟨e, he, htoken⟩ := h.written r₀ hr₀
      exact ⟨e, List.mem_cons_of_mem _ he, htoken.trans hkept.tokenHash.symm⟩
  case distinct =>
    intro r hr r' hr' heq
    rcases hnew.rows r hr with rfl | ⟨r₀, hr₀, hkept, -⟩ <;> rcases hnew.rows r' hr' with rfl | ⟨r₁, hr₁, hkept', -⟩
    · rfl
    · exact absurd (hkept'.tokenHash.symm.trans heq.symm) (hne hr₁)
    · exact absurd (hkept.tokenHash.symm.trans heq) (hne hr₀)
    · rw [hkept.id, hkept'.id]
      refine h.distinct r₀ hr₀ r₁ hr₁ ?_
      rw [← hkept.tokenHash, ← hkept'.tokenHash, heq]
  case flagged =>
    intro r hr
    rcases hnew.rows r hr with rfl | ⟨r₀, hr₀, hkept, -⟩
    · rcases hnew.given with ⟨hflag, hgiven⟩ | ⟨hflag, a, hgiven⟩
      · simp [HandedOver, hflag, hgiven, hunsent]
      · simp only [HandedOver, hflag, hgiven, true_iff]
        exact ⟨a, List.mem_cons_self⟩
    · rw [hkept.linkIssued, hkept.tokenHash, h.flagged r₀ hr₀]
      exact exists_congr fun a => (given_of_renews hnew (h.rows r₀ hr₀) _).symm
  case mailed =>
    intro r hr email hmem
    rcases hnew.rows r hr with rfl | ⟨r₀, hr₀, hkept, -⟩
    · rcases hnew.given with ⟨-, hgiven⟩ | ⟨-, a, hgiven⟩
      · exact absurd (hgiven ▸ hmem) (hunsent _)
      · rcases List.mem_cons.mp (hgiven ▸ hmem) with heq | hmem
        · cases heq
        · exact absurd hmem (hunsent _)
    · rw [hkept.tokenHash, given_of_renews hnew (h.rows r₀ hr₀)] at hmem
      rw [hkept.email]
      exact h.mailed r₀ hr₀ email hmem
  case mailing =>
    intro r hr m hm heq
    rcases hnew.rows r hr with rfl | ⟨r₀, hr₀, hkept, -⟩ <;> rcases hnew.outbox m hm with hm | rfl
    · exact absurd (heq ▸ h.outbox m hm) hnew.fresh
    · rfl
    · rw [hkept.email]
      exact h.mailing r₀ hr₀ m hm (heq.trans hkept.tokenHash)
    · exact absurd (hkept.tokenHash.symm.trans heq.symm) (hne hr₀)
  case due =>
    intro r hr j hj hticket e he heq
    rw [hnew.issues] at he
    rcases hnew.rows r hr with rfl | ⟨r₀, hr₀, hkept, hsame⟩
    · rcases List.mem_cons.mp he with rfl | he
      · exact hnew.due j hj hticket
      · exact absurd (heq ▸ h.issues e he) hnew.fresh
    · rw [hsame] at hticket
      have hj₀ : j ∈ s.jobs := (hnew.jobs j hj).resolve_right fun hno => hno.1 (h.tickets r₀ hr₀ _ hticket)
      rcases List.mem_cons.mp he with rfl | he
      · exact absurd (heq.trans hkept.tokenHash).symm (hne hr₀)
      · exact h.due r₀ hr₀ j hj₀ hticket e he (heq.trans hkept.tokenHash)
  case accounts =>
    intro a ha
    obtain ⟨hdrawn, honly⟩ := h.accounts a (hnew.accounts ▸ ha)
    refine ⟨hmono hdrawn, fun hverified hpassword => ?_⟩
    obtain ⟨⟨hsent, hothers⟩, hmails⟩ := honly hverified hpassword
    have hgiven := given_of_renews hnew hdrawn
    refine ⟨⟨(hgiven _).mpr hsent, fun r hr => hothers r ((hgiven r).mp hr)⟩, fun m hm heq => ?_⟩
    rcases hnew.outbox m hm with hm | rfl
    · exact hmails m hm heq
    · exact absurd hdrawn (heq ▸ hnew.fresh)

end

end Tracked

/-! ## What each step writes -/

section

variable {s u : Deployment} {i : Uuid} {row : InvitationRow} {set : InvitationSet} {p : Uuid × InvitationRow → Bool}

theorem mem_update {r : Uuid × InvitationRow} : r ∈ (s.update p set).invitations ↔
    ∃ r' ∈ s.invitations, (if p r' && set.finds r'.2 then (r'.1, r'.2.update set) else r') = r :=
  Table.mem_updateWhere (f := fun r : Uuid × InvitationRow => (r.1, r.2.update set)) (h := fun _ => rfl)

theorem mem_insert (h : s.insert i row = some u) : u = { s with invitations := u.invitations } ∧
    ∀ r ∈ u.invitations, r = (i, row) ∨ r ∈ s.invitations := by
  obtain ⟨t, ht, rfl⟩ := Option.map_eq_some_iff.mp h
  exact ⟨rfl, fun r hr => ((Table.mem_insert? ht).mp hr).symm⟩

/-- The update of one row. -/
theorem updateOne_eq_some (h : s.updateOne i set = some (row, u)) : (i, row) ∈ s.invitations ∧ set.finds row = true ∧
    u = s.update (fun r => decide (r.1 = i)) set ∧ ∀ r ∈ u.invitations, r = (i, row.update set) ∨ r ∈ s.invitations := by
  obtain ⟨r, hfind, heq⟩ := Option.map_eq_some_iff.mp h
  obtain ⟨hmem, hp⟩ := Table.find?_some hfind
  obtain ⟨hid, hfinds⟩ := Bool.and_eq_true_iff.mp hp
  obtain ⟨rfl, rfl⟩ := Prod.ext_iff.mp heq
  have hr : r = (i, r.2) := Prod.ext (of_decide_eq_true hid) rfl
  refine ⟨hr ▸ hmem, hfinds, rfl, fun r' hr' => ?_⟩
  obtain ⟨r₀, hr₀, rfl⟩ := mem_update.mp hr'
  split
  · rename_i hp
    have hkey : r₀.1 = i := of_decide_eq_true (Bool.and_eq_true_iff.mp hp).1
    have hsame : r₀ = r := Table.eq_of_key hr₀ hmem (hkey.trans (of_decide_eq_true hid).symm)
    rw [hsame, of_decide_eq_true hid]
    exact .inl rfl
  · exact .inr hr₀

/-- Of the updates, those of an acceptance, a revocation and a deletion set neither a token hash nor a mail ticket. -/
def keepsToken : InvitationSet → Bool
  | .revoked .. | .accepted .. | .inviterDeleted _ | .accepterDeleted _ => true
  | _ => false

theorem kept_of_keepsToken (h : keepsToken set = true) (ids : List Uuid) (r : Uuid × InvitationRow) :
    Kept ids r (r.1, r.2.update set) := by
  cases set with
  | revoked | accepted | inviterDeleted | accepterDeleted =>
    exact ⟨rfl, rfl, by simp [InvitationRow.update, trackLinkIssued, InvitationSet.apply], rfl, .inl rfl⟩
  | rewritten | renewed | issued => cases h

theorem mailTicket_of_keepsToken (h : keepsToken set = true) (row : InvitationRow) :
    (row.update set).mailTicket = row.mailTicket := by
  cases set with
  | revoked | accepted | inviterDeleted | accepterDeleted => rfl
  | rewritten | renewed | issued => cases h

theorem kept_of_update (h : keepsToken set = true) {r : Uuid × InvitationRow} (hr : r ∈ (s.update p set).invitations) :
    ∃ r₀ ∈ s.invitations, Kept s.ids r₀ r ∧ r.2.mailTicket = r₀.2.mailTicket := by
  obtain ⟨r₀, hr₀, rfl⟩ := mem_update.mp hr
  refine ⟨r₀, hr₀, ?_⟩
  split
  · exact ⟨kept_of_keepsToken h s.ids r₀, mailTicket_of_keepsToken h r₀.2⟩
  · exact ⟨.refl r₀, rfl⟩

theorem linkIssued_update (h : (set.apply row).tokenHash ≠ row.tokenHash) :
    (row.update set).linkIssued = (set.apply row).mailTicket.isNone := by
  rw [InvitationRow.update, trackLinkIssued]
  exact if_neg h

end

/-- A request writes a token: a link's is given to the administrator, and another row's has a new ticket, with a job or none. -/
theorem Renews.request {s s' : Deployment} {i : Uuid} {row : InvitationRow} {ids : List Uuid} (hfresh : row.tokenHash ∉ s.drawn)
    (hrows : ∀ r ∈ s'.invitations, r = (i, row) ∨ ∃ r₀ ∈ s.invitations, Kept s.ids r₀ r ∧ r.2.mailTicket = r₀.2.mailTicket)
    (hdrawn : s'.drawn = row.tokenHash :: s.drawn) (hids : s'.ids = ids ++ s.ids)
    (hissues : s'.issues = ⟨row.tokenHash, .request, s.steps⟩ :: s.issues) (houtbox : s'.outbox = s.outbox)
    (haccounts : s'.accounts = s.accounts)
    (hgiven : (row.linkIssued = true ∧ row.mailTicket = none ∧ s'.jobs = s.jobs ∧
        ∃ a, s'.given = (row.tokenHash, .administrator a) :: s.given) ∨
      (row.linkIssued = false ∧ s'.given = s.given ∧ ∃ t ∈ ids, t ∉ s.ids ∧ row.mailTicket = some t ∧
        (s'.jobs = s.jobs ∨ ∃ j, j.mailTicket = t ∧ j.requestedAt = s.steps ∧ s'.jobs = j :: s.jobs)))
    (hjobs : ∀ j ∈ s.jobs, j.mailTicket ∈ s.ids) : Renews s s' i row .request := by
  refine ⟨hfresh, hdrawn ▸ List.Subset.refl _, hids ▸ List.subset_append_right _ _, hrows, fun t ht => ?_, hissues,
    fun m hm => .inl (houtbox ▸ hm), ?_, fun j hj => ?_, fun j hj ht => ?_, haccounts⟩
  · rcases hgiven with ⟨-, hnone, -⟩ | ⟨-, -, t', ht', -, hsome, -⟩
    · rw [hnone] at ht
      cases ht
    · rw [hsome] at ht
      rw [hids, ← Option.some.inj ht]
      exact List.mem_append_left _ ht'
  · rcases hgiven with ⟨hflag, -, -, hgiven⟩ | ⟨hflag, hgiven, -⟩
    · exact .inr ⟨hflag, hgiven⟩
    · exact .inl ⟨hflag, hgiven⟩
  · rcases hgiven with ⟨-, -, hsame, -⟩ | ⟨-, -, t, ht, hfresh, -, hsame | ⟨j', rfl, -, hjobs'⟩⟩
    · exact .inl (hsame ▸ hj)
    · exact .inl (hsame ▸ hj)
    · rcases List.mem_cons.mp (hjobs' ▸ hj) with rfl | hj
      · exact .inr ⟨hfresh, hids ▸ List.mem_append_left _ ht⟩
      · exact .inl hj
  · rcases hgiven with ⟨-, hnone, -⟩ | ⟨-, -, t, ht', hfresh, hsome, hcase⟩
    · rw [hnone] at ht
      cases ht
    · rw [hsome] at ht
      obtain rfl := Option.some.inj ht
      rcases hcase with hsame | ⟨j', -, hat, hjobs'⟩
      · exact absurd (hjobs j (hsame ▸ hj)) hfresh
      · rcases List.mem_cons.mp (hjobs' ▸ hj) with rfl | hj
        · exact .inl hat.ge
        · exact absurd (hjobs j hj) hfresh

/-! ## The steps that write a token -/

section

variable {s u : Deployment} {i : Uuid} {row : InvitationRow} {r : Uuid × InvitationRow}

theorem kept_or_inserted (hu : s.insert i row = some u) (hr : r ∈ u.invitations) :
    r = (i, row) ∨ ∃ r₀ ∈ s.invitations, Kept s.ids r₀ r ∧ r.2.mailTicket = r₀.2.mailTicket :=
  ((mem_insert hu).2 r hr).imp_right fun hr => ⟨r, hr, .refl r, rfl⟩

theorem kept_or_updated {set : InvitationSet} (hu : s.updateOne i set = some (row, u)) (hr : r ∈ u.invitations) :
    r = (i, row.update set) ∨ ∃ r₀ ∈ s.invitations, Kept s.ids r₀ r ∧ r.2.mailTicket = r₀.2.mailTicket :=
  ((updateOne_eq_some hu).2.2.2 r hr).imp_right fun hr => ⟨r, hr, .refl r, rfl⟩

end

namespace Tracked

variable {s u : Deployment}

theorem inviteMember (h : Tracked s) {ask : InvitationAsk} {id mailTicket : Uuid} {tokenHash : TokenHash}
    {expiresAt : Timestamp} (hhash : tokenHash ∉ s.drawn) (hticket : mailTicket ∉ s.ids)
    (hu : Issuing.inviteMember s ask id mailTicket tokenHash expiresAt = some u) :
    Tracked { u with drawn := tokenHash :: s.drawn, ids := [id, mailTicket] ++ s.ids, steps := s.steps + 1 } := by
  have hmem : mailTicket ∈ [id, mailTicket] := List.mem_cons_of_mem _ List.mem_cons_self
  rw [Issuing.inviteMember] at hu
  split at hu
  · rename_i r hpending
    obtain ⟨⟨row, v⟩, hv, rfl⟩ := Option.map_eq_some_iff.mp hu
    obtain ⟨hrow, -, rfl, -⟩ := updateOne_eq_some hv
    have hne : tokenHash ≠ row.tokenHash := fun heq => hhash (heq ▸ h.rows _ hrow)
    cases hmailed : ask.mailed with
    | true =>
      rw [hmailed] at hv
      refine h.renew (Renews.request hhash (fun r' hr' => kept_or_updated hv hr') rfl rfl rfl rfl rfl
        (.inr ⟨?_, rfl, mailTicket, hmem, hticket, rfl, .inr ⟨_, rfl, rfl, rfl⟩⟩) h.jobs)
      exact linkIssued_update hne
    | false =>
      -- the hash stays, and the ticket is one that no job has
      rw [hmailed] at hv
      have hkept : Kept s.ids (r.1, row) (r.1, row.update (.rewritten ask.role ask.teamIds tokenHash true mailTicket
          ask.accountId expiresAt)) := by
        refine ⟨rfl, rfl, ?_, rfl, .inr fun t ht => ?_⟩
        · simp [InvitationRow.update, trackLinkIssued, InvitationSet.apply]
        · cases ht
          exact hticket
      refine h.keep (fun r' hr' => ?_) (List.subset_cons_self _ _) (List.subset_append_right _ _) (fun r' hr' t ht => ?_)
        rfl rfl rfl rfl rfl
      · rcases (updateOne_eq_some hv).2.2.2 r' hr' with rfl | hr'
        · exact ⟨_, hrow, hkept⟩
        · exact ⟨r', hr', .refl r'⟩
      · rcases (updateOne_eq_some hv).2.2.2 r' hr' with rfl | hr'
        · cases ht
          exact List.mem_append_left _ hmem
        · exact List.mem_append_right _ (h.tickets r' hr' t ht)
  · obtain ⟨v, hv, rfl⟩ := Option.map_eq_some_iff.mp hu
    obtain ⟨hv', -⟩ := mem_insert hv
    cases hmailed : ask.mailed with
    | true =>
      refine h.renew (Renews.request hhash (fun r' hr' => kept_or_inserted hv hr') rfl rfl ?_ ?_ ?_
        (.inr ⟨rfl, ?_, mailTicket, hmem, hticket, rfl, .inr ⟨⟨id, ask.workspaceId, ask.accountId, mailTicket, s.steps⟩, rfl, rfl, ?_⟩⟩)
        h.jobs)
      all_goals rw [hv']; rfl
    | false =>
      refine h.renew (Renews.request hhash (fun r' hr' => kept_or_inserted hv hr') rfl rfl ?_ ?_ ?_
        (.inr ⟨rfl, ?_, mailTicket, hmem, hticket, rfl, .inl ?_⟩) h.jobs)
      all_goals rw [hv']; rfl

theorem resendInvitation (h : Tracked s) {w a i mailTicket : Uuid} {tokenHash : TokenHash} {expiresAt : Timestamp}
    (hhash : tokenHash ∉ s.drawn) (hticket : mailTicket ∉ s.ids)
    (hu : Issuing.resendInvitation s w a i mailTicket tokenHash expiresAt = some u) :
    Tracked { u with drawn := tokenHash :: s.drawn, ids := [mailTicket] ++ s.ids, steps := s.steps + 1 } := by
  obtain ⟨⟨row, v⟩, hv, rfl⟩ := Option.map_eq_some_iff.mp hu
  obtain ⟨hrow, -, rfl, -⟩ := updateOne_eq_some hv
  have hne : tokenHash ≠ row.tokenHash := fun heq => hhash (heq ▸ h.rows _ hrow)
  refine h.renew (Renews.request hhash (fun r' hr' => kept_or_updated hv hr') rfl rfl rfl rfl rfl
    (.inr ⟨?_, rfl, mailTicket, List.mem_cons_self, hticket, rfl, .inr ⟨_, rfl, rfl, rfl⟩⟩) h.jobs)
  exact linkIssued_update hne

theorem createInvitationLink (h : Tracked s) {w a i : Uuid} {tokenHash : TokenHash} {expiresAt : Timestamp}
    (hhash : tokenHash ∉ s.drawn) (hu : Issuing.createInvitationLink s w a i tokenHash expiresAt = some u) :
    Tracked { u with drawn := tokenHash :: s.drawn, ids := [] ++ s.ids, steps := s.steps + 1 } := by
  obtain ⟨⟨row, v⟩, hv, rfl⟩ := Option.map_eq_some_iff.mp hu
  obtain ⟨hrow, -, rfl, -⟩ := updateOne_eq_some hv
  have hne : tokenHash ≠ row.tokenHash := fun heq => hhash (heq ▸ h.rows _ hrow)
  refine h.renew (Renews.request hhash (fun r' hr' => kept_or_updated hv hr') rfl rfl rfl rfl rfl
    (.inl ⟨?_, rfl, rfl, a, rfl⟩) h.jobs)
  exact linkIssued_update hne

/-- A run of a job writes a token into the row of its ticket. -/
theorem invitationSend (h : Tracked s) {job : MailJob} {tokenHash : TokenHash} {now : Timestamp}
    (hhash : tokenHash ∉ s.drawn) (hu : Issuing.invitationSend s job tokenHash now = some u) :
    Tracked { u with drawn := tokenHash :: s.drawn, ids := [] ++ s.ids, steps := s.steps + 1 } := by
  obtain ⟨⟨row, v⟩, hv, rfl⟩ := Option.map_eq_some_iff.mp hu
  obtain ⟨hrow, hfinds, rfl, -⟩ := updateOne_eq_some hv
  have hne : tokenHash ≠ row.tokenHash := fun heq => hhash (heq ▸ h.rows _ hrow)
  have hticket : row.mailTicket = some job.mailTicket := (of_decide_eq_true (Bool.and_eq_true_iff.mp hfinds).1).2
  have hflag : (row.update (.issued job.workspaceId job.mailTicket tokenHash now)).linkIssued = false := by
    refine (linkIssued_update ?_).trans ?_
    · exact hne
    · show row.mailTicket.isNone = false
      rw [hticket]
      rfl
  have hown (j : MailJob) (ht : row.mailTicket = some j.mailTicket) : Writer.job job.mailTicket = .job j.mailTicket := by
    rw [Option.some.inj (hticket.symm.trans ht)]
  dsimp only
  split
  · exact h.renew ⟨hhash, List.Subset.refl _, List.subset_append_right _ _, fun r' hr' => kept_or_updated hv hr',
      fun t ht => h.tickets _ hrow t ht, rfl, fun m hm => .inl hm, .inl ⟨hflag, rfl⟩, fun j hj => .inl hj,
      fun j _ ht => .inr (hown j ht), rfl⟩
  · exact h.renew ⟨hhash, List.Subset.refl _, List.subset_append_right _ _, fun r' hr' => kept_or_updated hv hr',
      fun t ht => h.tickets _ hrow t ht, rfl, fun m hm => (List.mem_cons.mp hm).symm, .inl ⟨hflag, rfl⟩, fun j hj => .inl hj,
      fun j _ ht => .inr (hown j ht), rfl⟩

/-- An owner invitation is inserted, after updates that keep the rows' tokens. -/
theorem insertOwnerInvitation {s₁ : Deployment} (h : Tracked s) {o : OwnerInvitation} {mailLocale : Option String}
    (hhash : o.tokenHash ∉ s.drawn) (hticket : o.id ∉ s.ids) (hs₁ : s₁ = { s with invitations := s₁.invitations })
    (hrows : ∀ r ∈ s₁.invitations, ∃ r₀ ∈ s.invitations, Kept s.ids r₀ r ∧ r.2.mailTicket = r₀.2.mailTicket)
    (hu : Issuing.insertOwnerInvitation s₁ o mailLocale = some u) :
    Tracked { u with drawn := o.tokenHash :: s.drawn, ids := [o.id] ++ s.ids, steps := s.steps + 1 } := by
  obtain ⟨v, hv, rfl⟩ := Option.map_eq_some_iff.mp hu
  obtain ⟨hv', hmem⟩ := mem_insert hv
  have hkept : ∀ r ∈ v.invitations, r = (o.id, o.row mailLocale.isNone) ∨
      ∃ r₀ ∈ s.invitations, Kept s.ids r₀ r ∧ r.2.mailTicket = r₀.2.mailTicket :=
    fun r hr => (hmem r hr).imp_right (hrows r)
  cases mailLocale with
  | some locale =>
    have hfresh : (o.row false).tokenHash ∉ s.drawn := hhash
    refine h.renew (Renews.request hfresh hkept rfl rfl ?_ ?_ ?_ (.inr ⟨rfl, ?_, o.id, List.mem_cons_self,
      hticket, rfl, .inr ⟨⟨o.id, o.workspaceId, o.accountId, o.id, s.steps⟩, rfl, rfl, ?_⟩⟩) h.jobs)
    all_goals rw [hv', hs₁]; rfl
  | none =>
    have hfresh : (o.row true).tokenHash ∉ s.drawn := hhash
    refine h.renew (Renews.request hfresh hkept rfl rfl ?_ ?_ ?_ (.inl ⟨rfl, rfl, ?_, o.accountId, ?_⟩) h.jobs)
    all_goals rw [hv', hs₁]; rfl

/-! ## The steps that write none -/

theorem update {p : Uuid × InvitationRow → Bool} {set : InvitationSet} (h : Tracked s) (hset : keepsToken set = true) :
    Tracked (s.update p set) := by
  have hkept {r : Uuid × InvitationRow} (hr : r ∈ (s.update p set).invitations) :
      ∃ r₀ ∈ s.invitations, Kept s.ids r₀ r ∧ r.2.mailTicket = r₀.2.mailTicket := kept_of_update hset hr
  refine h.keep (fun r hr => ?_) (List.Subset.refl _) (List.Subset.refl _) (fun r hr t ht => ?_) rfl rfl rfl rfl rfl
  · obtain ⟨r₀, hr₀, hkept, -⟩ := hkept hr
    exact ⟨r₀, hr₀, hkept⟩
  · obtain ⟨r₀, hr₀, -, hticket⟩ := hkept hr
    exact h.tickets r₀ hr₀ t (hticket ▸ ht)

theorem advance (h : Tracked s) (drawn : List TokenHash) (ids : List Uuid) (steps : ℕ) :
    Tracked { s with drawn := drawn ++ s.drawn, ids := ids ++ s.ids, steps := steps } :=
  h.keep (fun r hr => ⟨r, hr, .refl r⟩) (List.subset_append_right _ _) (List.subset_append_right _ _)
    (fun r hr t ht => List.mem_append_right _ (h.tickets r hr t ht)) rfl rfl rfl rfl rfl

theorem deleteInvitations (h : Tracked s) (p : Uuid × InvitationRow → Bool) :
    Tracked { s with invitations := s.invitations.deleteWhere p } := by
  have hsub (r : Uuid × InvitationRow) (hr : r ∈ s.invitations.deleteWhere p) : r ∈ s.invitations :=
    (Table.mem_deleteWhere.mp hr).1
  exact h.keep (fun r hr => ⟨r, hsub r hr, .refl r⟩) (List.Subset.refl _) (List.Subset.refl _)
    (fun r hr t ht => h.tickets r (hsub r hr) t ht) rfl rfl rfl rfl rfl

/-- A mail arrives: it goes where the row of its token, and the account made with it, is. -/
theorem deliver {mail : InvitationMail} (h : Tracked s) (hu : Issuing.deliver s mail = some u) : Tracked u := by
  obtain ⟨hmail, heq⟩ := Option.ite_none_right_eq_some.mp hu
  cases heq
  have hadmin (tokenHash : TokenHash) : HandedOver (Deployment.give { s with outbox := s.outbox.erase mail } mail.tokenHash
      (.mailbox mail.email)) tokenHash ↔ HandedOver s tokenHash := by
    refine exists_congr fun a => ?_
    simp [Deployment.give]
  refine { h with outbox := ?_, given := ?_, flagged := ?_, mailed := ?_, mailing := ?_, accounts := ?_ }
  · exact fun m hm => h.outbox m (List.mem_of_mem_erase hm)
  · intro g hg
    rcases List.mem_cons.mp hg with rfl | hg
    · exact h.outbox mail hmail
    · exact h.given g hg
  · intro r hr
    rw [hadmin]
    exact h.flagged r hr
  · intro r hr email hmem
    rcases List.mem_cons.mp hmem with heq | hmem
    · obtain ⟨htoken, hmailbox⟩ := Prod.ext_iff.mp heq
      cases hmailbox
      exact h.mailing r hr mail hmail htoken.symm
    · exact h.mailed r hr email hmem
  · exact fun r hr m hm heq => h.mailing r hr m (List.mem_of_mem_erase hm) heq
  · intro a ha
    obtain ⟨hdrawn, honly⟩ := h.accounts a ha
    refine ⟨hdrawn, fun hverified hpassword => ?_⟩
    obtain ⟨⟨hsent, hothers⟩, hmails⟩ := honly hverified hpassword
    refine ⟨⟨List.mem_cons_of_mem _ hsent, fun r hr => ?_⟩, fun m hm heq => hmails m (List.mem_of_mem_erase hm) heq⟩
    rcases List.mem_cons.mp hr with heq | hr
    · obtain ⟨htoken, rfl⟩ := Prod.ext_iff.mp heq
      rw [hmails mail hmail htoken.symm]
    · exact hothers r hr

theorem acceptedBy_eq_some {tokenHash : TokenHash} {a : Uuid} {now : Timestamp} {r : Uuid × InvitationRow}
    (hu : s.acceptedBy tokenHash a now = some (r, u)) : u = s.update (fun r' => decide (r'.1 = r.1)) (.accepted a now) ∧
      r ∈ s.invitations ∧ r.2.tokenHash = tokenHash ∧ ∃ recipient, (tokenHash, recipient) ∈ s.given := by
  obtain ⟨r', hfound, heq⟩ := Option.map_eq_some_iff.mp hu
  obtain ⟨rfl, rfl⟩ := Prod.ext_iff.mp heq
  obtain ⟨hany, hfind⟩ := Option.ite_none_right_eq_some.mp hfound
  obtain ⟨hmem, hp⟩ := Table.find?_some hfind
  obtain ⟨g, hg, htoken⟩ := List.any_eq_true.mp hany
  refine ⟨rfl, hmem, of_decide_eq_true (Bool.and_eq_true_iff.mp hp).1, g.2, ?_⟩
  rw [← of_decide_eq_true htoken]
  exact hg

theorem addAccount (h : Tracked s) {made : NewAccount} (hdrawn : made.tokenHash ∈ s.drawn)
    (honly : made.emailVerified = true → made.hasPassword = true →
      OnlyMailedTo s made.tokenHash made.email ∧ ∀ m ∈ s.outbox, m.tokenHash = made.tokenHash → m.email = made.email) :
    Tracked { s with accounts := made :: s.accounts } := by
  refine { h with accounts := fun a ha => ?_ }
  rcases List.mem_cons.mp ha with rfl | ha
  · exact ⟨hdrawn, honly⟩
  · exact h.accounts a ha

theorem onlyMailedTo (h : Tracked s) {r : Uuid × InvitationRow} (hr : r ∈ s.invitations) (hflag : r.2.linkIssued = false)
    (hgiven : ∃ recipient, (r.2.tokenHash, recipient) ∈ s.given) : OnlyMailedTo s r.2.tokenHash r.2.email := by
  have hmailbox (recipient : Recipient) (hmem : (r.2.tokenHash, recipient) ∈ s.given) : recipient = .mailbox r.2.email := by
    cases recipient with
    | mailbox email => rw [h.mailed r hr email hmem]
    | administrator a =>
      have htrue : r.2.linkIssued = true := (h.flagged r hr).mpr ⟨a, hmem⟩
      rw [hflag] at htrue
      cases htrue
  obtain ⟨recipient, hmem⟩ := hgiven
  exact ⟨hmailbox recipient hmem ▸ hmem, hmailbox⟩

theorem acceptNewAccount {tokenHash : TokenHash} {a : Uuid} {now : Timestamp} (h : Tracked s)
    (hu : Issuing.acceptNewAccount s tokenHash a now = some u) : Tracked u ∧ u.drawn = s.drawn ∧ u.ids = s.ids := by
  obtain ⟨⟨r, v⟩, hv, rfl⟩ := Option.map_eq_some_iff.mp hu
  obtain ⟨rfl, hr, rfl, hpresented⟩ := acceptedBy_eq_some hv
  refine ⟨(h.update rfl).addAccount (h.rows r hr) fun hverified _ => ?_, rfl, rfl⟩
  exact ⟨h.onlyMailedTo hr (Bool.not_eq_true' _ ▸ hverified) hpresented, h.mailing r hr⟩

theorem acceptWithIdentity {tokenHash : TokenHash} {a : Uuid} {now : Timestamp} (h : Tracked s)
    (hu : Issuing.acceptWithIdentity s tokenHash a now = some u) : Tracked u ∧ u.drawn = s.drawn ∧ u.ids = s.ids := by
  obtain ⟨⟨r, v⟩, hv, rfl⟩ := Option.map_eq_some_iff.mp hu
  obtain ⟨rfl, hr, rfl, -⟩ := acceptedBy_eq_some hv
  exact ⟨(h.update rfl).addAccount (h.rows r hr) fun _ hpassword => (by cases hpassword), rfl, rfl⟩

/-- **Every step keeps the flag and the token together.** -/
theorem step {e : IssueEvent} (h : Tracked s) (hstep : s.step e = some u) : Tracked u := by
  obtain ⟨⟨hhash, hids⟩, hperform⟩ := Option.ite_none_right_eq_some.mp hstep
  obtain ⟨v, hv, rfl⟩ := Option.map_eq_some_iff.mp hperform
  have hadvance {v : Deployment} (hv : Tracked v) (hdrawn : v.drawn = s.drawn) (hids : v.ids = s.ids) :
      Tracked { v with drawn := [] ++ s.drawn, ids := [] ++ s.ids, steps := s.steps + 1 } := by
    rw [← hdrawn, ← hids]
    exact hv.advance [] [] _
  cases e with
  | inviteMember ask id mailTicket tokenHash expiresAt =>
    exact h.inviteMember (hhash _ rfl) (hids mailTicket (List.mem_cons_of_mem _ List.mem_cons_self)) hv
  | resendInvitation w a i mailTicket tokenHash expiresAt =>
    exact h.resendInvitation (hhash _ rfl) (hids _ List.mem_cons_self) hv
  | createInvitationLink w a i tokenHash expiresAt => exact h.createInvitationLink (hhash _ rfl) hv
  | invitationSend job tokenHash now =>
    obtain ⟨-, hv⟩ := Option.ite_none_right_eq_some.mp hv
    exact h.invitationSend (hhash _ rfl) hv
  | createInstanceWorkspace o mailLocale =>
    refine h.insertOwnerInvitation (hhash _ rfl) (hids _ List.mem_cons_self) rfl (fun r hr => ?_) hv
    exact ⟨r, hr, .refl r, rfl⟩
  | reissueOwnerInvitation o mailLocale now =>
    exact h.insertOwnerInvitation (hhash _ rfl) (hids _ List.mem_cons_self) rfl (fun r hr => kept_of_update rfl hr) hv
  | revokeInvitation w i now =>
    obtain ⟨⟨row, v'⟩, hone, rfl⟩ := Option.map_eq_some_iff.mp hv
    obtain ⟨-, -, rfl, -⟩ := updateOne_eq_some hone
    exact hadvance (h.update rfl) rfl rfl
  | deliver mail =>
    have hmore := h.deliver hv
    obtain ⟨-, heq⟩ := Option.ite_none_right_eq_some.mp hv
    cases heq
    exact hadvance hmore rfl rfl
  | accept tokenHash a now =>
    obtain ⟨⟨r, v'⟩, haccepted, rfl⟩ := Option.map_eq_some_iff.mp hv
    obtain ⟨rfl, -⟩ := acceptedBy_eq_some haccepted
    exact hadvance (h.update rfl) rfl rfl
  | acceptNewAccount tokenHash a now =>
    obtain ⟨htracked, hdrawn, hids⟩ := h.acceptNewAccount hv
    exact hadvance htracked hdrawn hids
  | acceptWithIdentity tokenHash a now =>
    obtain ⟨htracked, hdrawn, hids⟩ := h.acceptWithIdentity hv
    exact hadvance htracked hdrawn hids
  | deleteAccount a =>
    cases hv
    exact hadvance ((h.update rfl).update rfl) rfl rfl
  | deleteInvitations ids =>
    cases hv
    exact hadvance (h.deleteInvitations _) rfl rfl

theorem empty : Tracked {} := by
  have hnone (r : Uuid × InvitationRow) (hr : r ∈ (∅ : Table (Uuid × InvitationRow) Prod.fst)) : False :=
    Table.not_mem_empty r hr
  constructor
  case rows | tickets | distinct | flagged | mailed | mailing | due | written => exact fun r hr => (hnone r hr).elim
  case jobs | outbox | given | issues | once | accounts => exact fun x hx => absurd hx List.not_mem_nil

theorem of_reachable (h : issuing.Reachable s) : Tracked s :=
  h.invariant (fun _ hs => hs ▸ empty) fun _ _ _ hs hstep => hs.step hstep

/-- A run of a job ends only a token that is due. -/
theorem due_of_ended {job : MailJob} {tokenHash : TokenHash} {now : Timestamp} (h : Tracked s)
    (hstep : s.step (.invitationSend job tokenHash now) = some u) {i : Uuid} {old : TokenHash} {at_ : Timestamp}
    (hlive : Live s i old at_) (hended : ¬ Live u i old at_) {e : Issue} (he : e ∈ s.issues) (htoken : e.tokenHash = old) :
    e.Due job := by
  obtain ⟨-, hperform⟩ := Option.ite_none_right_eq_some.mp hstep
  obtain ⟨v, hv, rfl⟩ := Option.map_eq_some_iff.mp hperform
  obtain ⟨hjob, hv⟩ := Option.ite_none_right_eq_some.mp hv
  obtain ⟨⟨row, v'⟩, hone, rfl⟩ := Option.map_eq_some_iff.mp hv
  obtain ⟨hrow, hfinds, rfl, -⟩ := updateOne_eq_some hone
  obtain ⟨row', hrow', rfl, hlive⟩ := hlive
  by_cases hi : i = job.invitationId
  · subst hi
    obtain rfl : row' = row := congrArg Prod.snd (Table.eq_of_key hrow' hrow rfl)
    have hticket : row'.mailTicket = some job.mailTicket := (of_decide_eq_true (Bool.and_eq_true_iff.mp hfinds).1).2
    exact h.due _ hrow' job hjob hticket e he htoken
  · -- another row is as it was
    refine absurd ⟨row', ?_, rfl, hlive⟩ hended
    have hsame : (i, row') ∈ (s.update (fun r => decide (r.1 = job.invitationId))
        (.issued job.workspaceId job.mailTicket tokenHash now)).invitations :=
      mem_update.mpr ⟨_, hrow', if_neg (by simp [hi])⟩
    dsimp only
    split <;> exact hsame

end Tracked

/-! ## Every run -/

/-- **The flag of an invitation says who was given its token**: an invitation has one live token, issued once and no other
invitation's; its flag says that the token was given to an administrator; a run of a mail job ends a token only if that was
issued no later than the request the job serves or by another run of the job; and an account that an acceptance with a
password made verified was made with a token that was mailed to the invited address and given to nobody else. -/
theorem link_issued_tracks_token {s : Deployment} (h : issuing.Reachable s) :
    (∀ i t t' now now', Live s i t now → Live s i t' now' → t = t') ∧
    (∀ i i' t now now', Live s i t now → Live s i' t now' → i = i') ∧
    (∀ i t now, Live s i t now → ∃! e, e ∈ s.issues ∧ e.tokenHash = t) ∧
    (∀ i row, (i, row) ∈ s.invitations → (row.linkIssued = true ↔ HandedOver s row.tokenHash)) ∧
    (∀ job tokenHash now s', s.step (.invitationSend job tokenHash now) = some s' → ∀ i old t, Live s i old t →
      ¬ Live s' i old t → ∀ e ∈ s.issues, e.tokenHash = old → e.Due job) ∧
    ∀ a ∈ s.accounts, a.emailVerified = true → a.hasPassword = true → OnlyMailedTo s a.tokenHash a.email := by
  have htracked := Tracked.of_reachable h
  refine ⟨?_, ?_, ?_, fun i row hr => htracked.flagged _ hr, fun job tokenHash now s' hstep i old t hlive hended e he htoken =>
    htracked.due_of_ended hstep hlive hended he htoken, fun a ha hverified hpassword =>
    ((htracked.accounts a ha).2 hverified hpassword).1⟩
  · rintro i t t' now now' ⟨row, hr, rfl, -⟩ ⟨row', hr', rfl, -⟩
    obtain rfl : row = row' := congrArg Prod.snd (Table.eq_of_key hr hr' rfl)
    rfl
  · rintro i i' t now now' ⟨row, hr, rfl, -⟩ ⟨row', hr', heq, -⟩
    exact htracked.distinct _ hr _ hr' heq.symm
  · rintro i t now ⟨row, hr, rfl, -⟩
    obtain ⟨e, he, htoken⟩ := htracked.written _ hr
    exact ⟨e, ⟨he, htoken⟩, fun e' he' => htracked.once _ he'.1 _ he (he'.2.trans htoken.symm)⟩

/-- The job of an invitation that was mailed. -/
def firstJob : MailJob := ⟨5, 1, 10, 6, 0⟩

/-- An address is invited, and the mail of the job arrives. -/
def mailedRun : List IssueEvent :=
  [.inviteMember ⟨1, 10, true, "b", .member, []⟩ 5 6 90 100, .invitationSend firstJob 91 10, .deliver ⟨"b", 91⟩]

/-- The deployment after these steps. -/
def after (run : List IssueEvent) : Deployment := (System.follow Deployment.step {} run).getD {}

theorem reachable_after {run : List IssueEvent} (h : (System.follow Deployment.step {} run).isSome = true) :
    issuing.Reachable (after run) :=
  System.Reachable.follow (fun _ _ _ hstep => hstep) (.init rfl) run {} h

theorem link_issued_tracks_token_played :
    ∃ a ∈ (after (mailedRun ++ [.acceptNewAccount 91 11 20])).accounts, a.emailVerified = true ∧ a.hasPassword = true ∧
      OnlyMailedTo (after (mailedRun ++ [.acceptNewAccount 91 11 20])) a.tokenHash a.email := by
  have hmade : (⟨11, 5, "b", 91, true, true⟩ : NewAccount) ∈ (after (mailedRun ++ [.acceptNewAccount 91 11 20])).accounts := by
    decide +kernel
  exact ⟨_, hmade, rfl, rfl,
    (link_issued_tracks_token (reachable_after (by decide +kernel))).2.2.2.2.2 _ hmade rfl rfl⟩

/-- **A job that is retried ends a token issued after the request it serves**: the one of its own first run. -/
theorem late_job_ends_later_token :
    ∃ s job tokenHash now s', issuing.Reachable s ∧ s.step (.invitationSend job tokenHash now) = some s' ∧
      ∃ i old t, Live s i old t ∧ ¬ Live s' i old t ∧ ∃ e ∈ s.issues, e.tokenHash = old ∧ job.requestedAt < e.issuedAt := by
  have hreach : issuing.Reachable (after mailedRun) := reachable_after (by decide +kernel)
  have hrow : ((5, ⟨1, "b", .member, false, [], 91, some 6, false, some 10, .pending, 100, none, none⟩) : Uuid × InvitationRow) ∈
      (after mailedRun).invitations.rows := by
    decide +kernel
  have hissue : (⟨91, .job 6, 1⟩ : Issue) ∈ (after mailedRun).issues := by decide +kernel
  have hended : ((after mailedRun).step (.invitationSend firstJob 92 15)).map
      (fun s => s.invitations.rows.all fun r => decide (r.2.tokenHash ≠ 91)) = some true := by
    decide +kernel
  obtain ⟨s', hstep, hnone⟩ := Option.map_eq_some_iff.mp hended
  refine ⟨_, firstJob, 92, 15, s', hreach, hstep, 5, 91, 15, ⟨_, hrow, rfl, rfl⟩, ?_, _, hissue, rfl, Nat.zero_lt_one⟩
  rintro ⟨row, hr, htoken, -⟩
  exact of_decide_eq_true (List.all_eq_true.mp hnone _ hr) htoken

end SlugBase.Invitation.Issuing
