import SlugBase.Egress.Chain
import Mathlib.Data.List.Nodup
import Mathlib.Logic.Basic

/-!
# Redirect chains stay safe

* `validated`: the answers that are connected to were all checked;
* `LogSafe`: what holds of the connections of a request, in their order; `Carried`: what the request on its way carries;
* `Carried.connect`, `Carried.follow`: the two steps of the loop; `Carried.chain`: the loop;
* **`request_safe`**: every request, whatever the resolvers and the servers answer.
-/

namespace SlugBase.Egress

variable (runtime : Runtime) (egress : HttpEgress) (world : Surroundings) (request : EgressRequest)

/-! ## Checked addresses -/

/-- Every answer of a host may be connected to. -/
def AllPermitted (target : Target) (answers : List ParsedAddress) : Prop :=
  ∀ a ∈ answers, egress.allowNonPublic = true ∨ permitted egress target a = true

/-- The answers are the literal of the target, or all that the resolver gave. -/
def AnswersOf (target : Target) (answers : List ParsedAddress) : Prop :=
  (∃ a, target.literal = some a ∧ answers = [a]) ∨
    target.literal = none ∧ ∃ log texts, world.resolve log target.hostname = .ok texts ∧ texts.mapM parseAddress = some answers

variable {runtime egress world request}

theorem validated {log : List Connection} {target : Target} {answers : List ParsedAddress}
    (h : validatedAddresses egress world log target = .ok answers) :
    AnswersOf world target answers ∧ AllPermitted egress target answers := by
  unfold validatedAddresses at h
  have hallowed {found : List ParsedAddress} (hfound : (if (!egress.allowNonPublic && !found.all (permitted egress target)) = true then
      (.error .blocked : Except EgressErrorCode (List ParsedAddress)) else .ok found) = .ok answers) :
      found = answers ∧ AllPermitted egress target answers := by
    split at hfound
    · cases hfound
    · rename_i hpermitted
      cases hfound
      refine ⟨rfl, fun a ha => ?_⟩
      cases hall : egress.allowNonPublic with
      | true => exact .inl rfl
      | false =>
        rw [hall, Bool.not_false, Bool.true_and, Bool.not_eq_true', Bool.not_eq_false] at hpermitted
        exact .inr (List.all_eq_true.mp hpermitted a ha)
  cases hliteral : target.literal with
  | some literal =>
    rw [hliteral] at h
    obtain ⟨rfl, hpermitted⟩ := hallowed h
    exact ⟨.inl ⟨literal, hliteral, rfl⟩, hpermitted⟩
  | none =>
    rw [hliteral] at h
    cases hresolve : world.resolve log target.hostname with
    | error error =>
      rw [hresolve] at h
      cases h
    | ok texts =>
      rw [hresolve] at h
      cases hparse : texts.mapM parseAddress with
      | none =>
        simp only [bind, Except.bind, hparse] at h
        cases h
      | some found =>
        cases found with
        | nil =>
          simp only [bind, Except.bind, hparse] at h
          cases h
        | cons a rest =>
          simp only [bind, Except.bind, hparse] at h
          obtain ⟨rfl, hpermitted⟩ := hallowed h
          exact ⟨.inr ⟨hliteral, log, texts, hresolve, hparse⟩, hpermitted⟩

/-! ## The connections of a request -/

/-- The address that a connection requests. -/
def Connection.key (c : Connection) : String := c.target.url.withoutFragment

/-- The connections that were made. -/
def made (log : List Connection) : List Connection := log.filter Connection.established

variable (runtime) in
/-- Only the headers that follow a redirect to another origin. -/
def FewHeaders (headers : List (String × String)) : Prop :=
  ∀ h ∈ headers, runtime.toLowerCase h.1 ∈ CROSS_ORIGIN_HEADERS

/-- A connection went to one of the answers of its host, all of which were checked. -/
def Checked (egress : HttpEgress) (world : Surroundings) (c : Connection) : Prop :=
  (∃ a ∈ c.answers, c.address = formatAddress a) ∧ AnswersOf world c.target c.answers ∧ AllPermitted egress c.target c.answers

variable (runtime egress world request)

/-- **What holds of the connections of a request**, whose first target is of the origin `first`. -/
structure LogSafe (first : String) (log : List Connection) : Prop where
  checked : ∀ c ∈ log, Checked egress world c
  body : ∀ c ∈ log, c.body.isSome → c.target.url.origin = first
  headers : ∀ c ∈ log, c.target.url.origin ≠ first → FewHeaders runtime c.callerHeaders
  later : log.Pairwise fun d c => (d.target.url.origin ≠ first → FewHeaders runtime c.callerHeaders) ∧
    (request.refuseHttpDowngrade = true → d.target.url.protocol = "https:" → c.target.url.protocol = "https:")
  once : ((made log).map Connection.key).Nodup
  few : (made log).length ≤ MAX_REDIRECTS + 1

/-- What the request on its way carries, after these connections and `left` redirects before the last. -/
structure Carried (first : String) (left : ℕ) (c : Chain) (log : List Connection) : Prop where
  safe : LogSafe runtime egress world request first log
  room : (made log).length + left ≤ MAX_REDIRECTS
  seen : ∃ old, c.visited = c.target.url.withoutFragment :: old ∧ c.target.url.withoutFragment ∉ old ∧
    ∀ d ∈ made log, d.key ∈ old
  headers : (c.target.url.origin ≠ first ∨ ∃ d ∈ log, d.target.url.origin ≠ first) → FewHeaders runtime c.headers
  body : c.body.isSome → c.target.url.origin = first
  secure : request.refuseHttpDowngrade = true → (∃ d ∈ log, d.target.url.protocol = "https:") →
    c.target.url.protocol = "https:"

variable {runtime egress world request} {first : String} {left : ℕ} {c c' : Chain} {log log' : List Connection}

/-! ## One hop -/

variable (runtime world c) in
/-- **What `connect` tries**: connections of the one target, of which one is made at most. -/
theorem connect_log {answers : List ParsedAddress} (addresses : List ParsedAddress) (log : List Connection) :
    ∃ tries, (connect runtime world c answers log addresses).2 = log ++ tries ∧ (made tries).length ≤ 1 ∧
      ∀ d ∈ tries, d.target = c.target ∧ d.answers = answers ∧ d.body = c.body ∧
        d.callerHeaders = c.headers.filter (fun h => !hasReserved runtime h.1) ∧ ∃ a ∈ addresses, d.address = formatAddress a := by
  have hone {a : ParsedAddress} {rest : List ParsedAddress} (established : Bool) :
      (made [{ c.connection runtime answers a with established := established }]).length ≤ 1 ∧
      ∀ d ∈ [{ c.connection runtime answers a with established := established }], d.target = c.target ∧ d.answers = answers ∧
        d.body = c.body ∧ d.callerHeaders = c.headers.filter (fun h => !hasReserved runtime h.1) ∧
        ∃ b ∈ a :: rest, d.address = formatAddress b := by
    refine ⟨List.length_filter_le .., fun d hd => ?_⟩
    rw [List.mem_singleton.mp hd]
    exact ⟨rfl, rfl, rfl, rfl, a, List.mem_cons_self, rfl⟩
  induction addresses generalizing log with
  | nil => exact ⟨[], (List.append_nil log).symm, Nat.zero_le _, fun d hd => absurd hd List.not_mem_nil⟩
  | cons a rest ih =>
    rw [connect]
    split
    · obtain ⟨tries, hlog, hmade, htries⟩ := ih (log ++ [{ c.connection runtime answers a with established := false }])
      refine ⟨{ c.connection runtime answers a with established := false } :: tries, ?_, ?_, fun d hd => ?_⟩
      · rw [hlog, List.append_assoc, List.singleton_append]
      · exact hmade
      · rcases List.mem_cons.mp hd with rfl | hd
        · exact ⟨rfl, rfl, rfl, rfl, a, List.mem_cons_self, rfl⟩
        · obtain ⟨htarget, hanswers, hbody, hheaders, b, hb, haddress⟩ := htries d hd
          exact ⟨htarget, hanswers, hbody, hheaders, b, List.mem_cons_of_mem _ hb, haddress⟩
    · rename_i established error hserve
      exact ⟨_, rfl, hone established⟩
    · exact ⟨_, rfl, hone true⟩

theorem made_append (log tries : List Connection) : made (log ++ tries) = made log ++ made tries :=
  List.filter_append ..

namespace Carried

/-- **The connections of a hop keep the log safe.** -/
theorem connect (h : Carried runtime egress world request first left c log) {tries : List Connection}
    {answers : List ParsedAddress} (hanswers : AnswersOf world c.target answers ∧ AllPermitted egress c.target answers)
    (hmade : (made tries).length ≤ 1)
    (htries : ∀ d ∈ tries, d.target = c.target ∧ d.answers = answers ∧ d.body = c.body ∧
      d.callerHeaders = c.headers.filter (fun h => !hasReserved runtime h.1) ∧ ∃ a ∈ answers, d.address = formatAddress a) :
    LogSafe runtime egress world request first (log ++ tries) := by
  have hfew (hleft : c.target.url.origin ≠ first ∨ ∃ d ∈ log, d.target.url.origin ≠ first) {d : Connection} (hd : d ∈ tries) :
      FewHeaders runtime d.callerHeaders := by
    obtain ⟨-, -, -, hheaders, -⟩ := htries d hd
    intro header hheader
    rw [hheaders] at hheader
    exact h.headers hleft header (List.mem_filter.mp hheader).1
  have htarget {d : Connection} (hd : d ∈ tries) : d.target = c.target := (htries d hd).1
  refine ⟨fun d hd => ?_, fun d hd hbody => ?_, fun d hd hleft => ?_, ?_, ?_, ?_⟩
  · rcases List.mem_append.mp hd with hd | hd
    · exact h.safe.checked d hd
    · obtain ⟨htarget, hans, -, -, a, ha, haddress⟩ := htries d hd
      unfold Checked
      rw [htarget, hans]
      exact ⟨⟨a, ha, haddress⟩, hanswers⟩
  · rcases List.mem_append.mp hd with hd | hd
    · exact h.safe.body d hd hbody
    · obtain ⟨htarget, -, hsame, -⟩ := htries d hd
      rw [htarget]
      exact h.body (hsame ▸ hbody)
  · rcases List.mem_append.mp hd with hd | hd
    · exact h.safe.headers d hd hleft
    · exact hfew (.inl (htarget hd ▸ hleft)) hd
  · refine List.pairwise_append.mpr ⟨h.safe.later, ?_, fun d hd e he => ⟨fun hleft => ?_, fun hrefuse hsecure => ?_⟩⟩
    · refine List.Pairwise.imp_of_mem (R := fun _ _ => True) (fun {d e} hd he _ => ⟨fun hleft => ?_, fun _ hsecure => ?_⟩)
        (List.pairwise_of_forall fun _ _ => trivial)
      · exact hfew (.inl (htarget hd ▸ hleft)) he
      · rw [htarget he, ← htarget hd]
        exact hsecure
    · exact hfew (.inr ⟨d, hd, hleft⟩) he
    · rw [htarget he]
      exact h.secure hrefuse ⟨d, hd, hsecure⟩
  · obtain ⟨old, -, hnot, hold⟩ := h.seen
    rw [made_append, List.map_append]
    refine List.nodup_append.mpr ⟨h.safe.once, ?_, fun k hk k' hk' heq => ?_⟩
    · match hm : made tries, hmade with
      | [], _ => exact List.nodup_nil
      | [d], _ => exact List.nodup_singleton _
    · obtain ⟨d, hd, rfl⟩ := List.mem_map.mp hk
      obtain ⟨e, he, rfl⟩ := List.mem_map.mp hk'
      have htarget' : e.key = c.target.url.withoutFragment := by
        rw [Connection.key, htarget (List.mem_filter.mp he).1]
      exact hnot (htarget' ▸ heq ▸ hold d hd)
  · rw [made_append, List.length_append]
    have hroom := h.room
    omega

theorem isHttp_of_parseTarget {text : String} {next : Target} (h : parseTarget runtime text = .ok next) :
    next.url.protocol = "http:" ∨ next.url.protocol = "https:" := by
  unfold parseTarget at h
  split at h
  · cases h
  · split at h
    · cases h
    · rename_i hbad
      simp only at h
      split at h
      · cases h
      · split at h
        · cases h
        · cases h
          simp only [isHttp, Bool.or_eq_true, Bool.not_eq_true', decide_eq_false_iff_not, decide_eq_true_eq, not_or,
            not_not] at hbad
          exact (not_and_or.mp hbad.1.1).imp not_not.mp not_not.mp

theorem rewritten_target (c : Chain) (status : ℕ) : (c.rewritten runtime status).target = c.target := by
  unfold Chain.rewritten
  split <;> rfl

theorem rewritten_headers (c : Chain) (status : ℕ) {h : String × String} (hh : h ∈ (c.rewritten runtime status).headers) :
    h ∈ c.headers := by
  unfold Chain.rewritten at hh
  split at hh
  · exact (List.mem_filter.mp hh).1
  · exact hh

theorem rewritten_body (c : Chain) (status : ℕ) (h : (c.rewritten runtime status).body.isSome) : c.body.isSome := by
  unfold Chain.rewritten at h
  split at h
  · cases h
  · exact h

/-- **A redirect that is followed keeps what may be carried.** -/
theorem follow (h : Carried runtime egress world request first left c log)
    (hsafe : LogSafe runtime egress world request first (log ++ log'))
    (hlog' : ∀ d ∈ log', d.target = c.target) (hmade : (made log').length ≤ 1) {status : ℕ} {location : String}
    (hfollow : Egress.follow runtime request left c status location = .ok c') :
    left ≠ 0 ∧ Carried runtime egress world request first (left - 1) c' (log ++ log') := by
  unfold Egress.follow at hfollow
  split at hfollow
  · cases hfollow
  · split at hfollow
    · cases hfollow
    · rename_i next hnext
      have hhttp := isHttp_of_parseTarget hnext
      split at hfollow
      · cases hfollow
      · rename_i hdowngrade
        split at hfollow
        · cases hfollow
        · rename_i hvisited
          obtain ⟨hfresh, hleft⟩ := not_or.mp hvisited
          refine ⟨hleft, ?_⟩
          have hroom : (made (log ++ log')).length + (left - 1) ≤ MAX_REDIRECTS := by
            have := h.room
            rw [made_append, List.length_append]
            omega
          have hseen : ∀ d ∈ made (log ++ log'), d.key ∈ c.visited := by
            obtain ⟨old, hvisited, -, hold⟩ := h.seen
            intro d hd
            rw [made_append] at hd
            rw [hvisited]
            rcases List.mem_append.mp hd with hd | hd
            · exact List.mem_cons_of_mem _ (hold d hd)
            · rw [Connection.key, hlog' d (List.mem_filter.mp hd).1]
              exact List.mem_cons_self
          have hsecure : request.refuseHttpDowngrade = true → (∃ d ∈ log ++ log', d.target.url.protocol = "https:") →
              next.url.protocol = "https:" := by
            rintro hrefuse ⟨d, hd, hd'⟩
            have hcurrent : c.target.url.protocol = "https:" := by
              rcases List.mem_append.mp hd with hd | hd
              · exact h.secure hrefuse ⟨d, hd, hd'⟩
              · rw [← hlog' d hd]
                exact hd'
            exact hhttp.resolve_left fun hdown => hdowngrade ⟨hrefuse, hcurrent, hdown⟩
          have hstayed : (∃ d ∈ log ++ log', d.target.url.origin ≠ first) →
              c.target.url.origin ≠ first ∨ ∃ d ∈ log, d.target.url.origin ≠ first := by
            rintro ⟨d, hd, hne⟩
            rcases List.mem_append.mp hd with hd | hd
            · exact .inr ⟨d, hd, hne⟩
            · exact .inl (hlog' d hd ▸ hne)
          simp only at hfollow
          split at hfollow
          · split at hfollow
            · cases hfollow
            · rename_i hbody
              cases hfollow
              refine ⟨hsafe, hroom, ⟨c.visited, rfl, hfresh, hseen⟩, fun _ header hheader => ?_, fun hsome => ?_, hsecure⟩
              · have hkept := (List.mem_filter.mp hheader).2
                simpa using hkept
              · exact absurd hsome hbody
          · rename_i hsame
            rw [not_not] at hsame
            cases hfollow
            refine ⟨hsafe, hroom, ⟨c.visited, rfl, hfresh, hseen⟩, fun hleft header hheader => ?_, fun hsome => ?_, hsecure⟩
            · have hheader' := rewritten_headers c status hheader
              refine h.headers ?_ header hheader'
              rcases hleft with hleft | hleft
              · have hsame' : next.url.origin = c.target.url.origin := by
                  rw [hsame]
                  exact congrArg (fun t : Target => t.url.origin) (rewritten_target c status)
                exact .inl (hsame' ▸ hleft)
              · exact hstayed hleft
            · have hsame' : next.url.origin = c.target.url.origin := by
                rw [hsame]
                exact congrArg (fun t : Target => t.url.origin) (rewritten_target c status)
              exact hsame'.trans (h.body (rewritten_body c status hsome))

/-- **The loop keeps the log safe.** -/
theorem chain (h : Carried runtime egress world request first left c log) :
    LogSafe runtime egress world request first (Egress.chain runtime egress world request left c log).2 := by
  induction left generalizing c log with
  | zero =>
    rw [Egress.chain]
    split
    · exact h.safe
    · rename_i answers hanswers
      obtain ⟨tries, hlog, hmade, htries⟩ := connect_log runtime world c answers log
      have hsafe := h.connect (validated hanswers) hmade htries
      split
      · rename_i hop
        rw [hop] at hlog
        exact hlog ▸ hsafe
      · rename_i hop
        rw [hop] at hlog
        exact hlog ▸ hsafe
      · rename_i hop
        rw [hop] at hlog
        split
        · exact hlog ▸ hsafe
        · exact hlog ▸ hsafe
        · rename_i hzero hfollow
          cases hzero
  | succ left ih =>
    rw [Egress.chain]
    split
    · exact h.safe
    · rename_i answers hanswers
      obtain ⟨tries, hlog, hmade, htries⟩ := connect_log runtime world c answers log
      have hsafe := h.connect (validated hanswers) hmade htries
      split
      · rename_i hop
        rw [hop] at hlog
        exact hlog ▸ hsafe
      · rename_i hop
        rw [hop] at hlog
        exact hlog ▸ hsafe
      · rename_i status location log₁ hop
        rw [hop] at hlog
        split
        · exact hlog ▸ hsafe
        · rename_i hzero hfollow
          cases hzero
        · rename_i next hsucc hfollow
          cases hsucc
          have hlog₁ : log₁ = log ++ tries := hlog
          obtain ⟨-, hcarried⟩ := h.follow hsafe (fun d hd => (htries d hd).1) hmade hfollow
          rw [hlog₁]
          exact ih hcarried

end Carried

/-! ## Every request -/

theorem mem_of_mapM {α β : Type} {f : α → Option β} {b : β} : ∀ {l : List α} {r : List β}, l.mapM f = some r → b ∈ r →
    ∃ a ∈ l, f a = some b
  | [], _, h, hb => by
    cases h
    cases hb
  | a :: l, _, h, hb => by
    rw [List.mapM_cons] at h
    obtain ⟨first, hfirst, h⟩ := Option.bind_eq_some_iff.mp h
    obtain ⟨rest, hrest, h⟩ := Option.bind_eq_some_iff.mp h
    cases h
    rcases List.mem_cons.mp hb with rfl | hb
    · exact ⟨a, List.mem_cons_self, hfirst⟩
    · obtain ⟨a', ha', hf⟩ := mem_of_mapM hrest hb
      exact ⟨a', List.mem_cons_of_mem _ ha', hf⟩

/-- The allowances that the options make for tests name an address; no production instance has any. -/
def CreateEgressOptions.NamesInTests (options : CreateEgressOptions) (address : String) : Prop :=
  ∃ tests, options.testOnly = some tests ∧ options.nodeEnv ≠ "production" ∧
    (tests.allowNonPublicAddresses = true ∨ ∃ text ∈ tests.allowAddresses, (parseAddress text).map formatAddress = some address)

/-- The allowances of an instance are those of its options. -/
theorem allowances_of_create {options : CreateEgressOptions} (h : HttpEgress.create runtime options = some egress) :
    privateOriginOf runtime options.privateOrigin = some egress.privateOrigin ∧
      ∀ address, egress.allowNonPublic = true ∨ address ∈ egress.allowedAddresses → options.NamesInTests address := by
  unfold HttpEgress.create at h
  split at h
  · cases h
  · rename_i htests
    obtain ⟨allowed, hallowed, h⟩ := Option.bind_eq_some_iff.mp h
    obtain ⟨privateOrigin, hprivate, rfl⟩ := Option.map_eq_some_iff.mp h
    refine ⟨hprivate, fun address hnamed => ?_⟩
    cases hsome : options.testOnly with
    | none =>
      rw [hsome] at hnamed hallowed
      cases hallowed
      rcases hnamed with hall | hmem
      · cases hall
      · cases hmem
    | some tests =>
      rw [hsome] at hnamed hallowed
      refine ⟨tests, hsome, fun hproduction => htests ⟨by rw [hsome]; rfl, hproduction⟩, hnamed.imp_right fun hmem => ?_⟩
      exact mem_of_mapM hallowed hmem

variable (runtime egress world request) in
/-- The connections of a request, none when it is refused at once. -/
theorem request_log : (egress.request runtime world request).2 = [] ∨
    ∃ first, parseTarget runtime request.url = .ok first ∧
      LogSafe runtime egress world request first.url.origin (egress.request runtime world request).2 := by
  unfold HttpEgress.request
  simp only
  split
  · exact .inl rfl
  · split
    · exact .inl rfl
    · split
      · exact .inl rfl
      · split
        · exact .inl rfl
        · rename_i first hfirst
          refine .inr ⟨first, hfirst, Carried.chain ⟨?_, Nat.le_of_eq rfl, ?_, fun hleft => ?_, fun _ => rfl, fun _ hnone => ?_⟩⟩
          · exact ⟨fun c hc => absurd hc List.not_mem_nil, fun c hc => absurd hc List.not_mem_nil,
              fun c hc => absurd hc List.not_mem_nil, List.Pairwise.nil, List.nodup_nil, Nat.zero_le _⟩
          · exact ⟨[], rfl, List.not_mem_nil, fun d hd => absurd hd List.not_mem_nil⟩
          · rcases hleft with hne | ⟨d, hd, -⟩
            · exact absurd rfl hne
            · exact absurd hd List.not_mem_nil
          · obtain ⟨d, hd, -⟩ := hnone
            exact absurd hd List.not_mem_nil

/-- **Every request is safe**, whatever the resolvers and the servers answer: a connection goes to a checked answer of its
host, and the answers are all public, or private ones of the operator's origin, or named by the test allowances that no
production instance has; at most six connections are made, to different addresses; once one went to another origin than
the first, only the few headers are sent again; a body is sent to the first origin only; and where a downgrade is refused
no connection over http comes after one over https. -/
theorem request_safe (runtime : Runtime) (options : CreateEgressOptions) (egress : HttpEgress) (world : Surroundings)
    (request : EgressRequest) (hcreate : HttpEgress.create runtime options = some egress) :
    let log := (egress.request runtime world request).2
    (∀ c ∈ log, (∃ a ∈ c.answers, c.address = formatAddress a) ∧ AnswersOf world c.target c.answers ∧
      ∀ a ∈ c.answers, isPublicAddress a = true ∨
        (privateOriginOf runtime options.privateOrigin = some (some c.target.url.origin) ∧ isOperatorPrivateAddress a = true) ∨
        options.NamesInTests (formatAddress a)) ∧
    (made log).length ≤ 6 ∧
    ((made log).map Connection.key).Nodup ∧
    (∀ first, parseTarget runtime request.url = .ok first →
      (∀ c ∈ log, c.body.isSome → c.target.url.origin = first.url.origin) ∧
      (∀ before c rest, log = before ++ c :: rest →
        (∃ d ∈ before ++ [c], d.target.url.origin ≠ first.url.origin) → FewHeaders runtime c.callerHeaders)) ∧
    (request.refuseHttpDowngrade = true → log.Pairwise fun d c =>
      d.target.url.protocol = "https:" → c.target.url.protocol = "https:") := by
  obtain ⟨hprivateOrigin, hnamed⟩ := allowances_of_create hcreate
  have hsafe := request_log runtime egress world request
  simp only
  rcases hsafe with hnothing | ⟨first, hfirst, hsafe⟩
  · rw [hnothing]
    refine ⟨fun c hc => absurd hc List.not_mem_nil, Nat.zero_le _, List.nodup_nil, fun first _ => ⟨fun c hc => absurd hc List.not_mem_nil,
      fun before c rest hlog => ?_⟩, fun _ => List.Pairwise.nil⟩
    exact absurd hlog (List.append_ne_nil_of_right_ne_nil _ (List.cons_ne_nil _ _)).symm
  · refine ⟨fun c hc => ?_, hsafe.few, hsafe.once, fun first' hfirst' => ?_, fun hrefuse => ?_⟩
    · obtain ⟨haddress, hanswers, hpermitted⟩ := hsafe.checked c hc
      refine ⟨haddress, hanswers, fun a ha => ?_⟩
      rcases hpermitted a ha with hall | hallowed
      · exact .inr (.inr (hnamed _ (.inl hall)))
      · rcases Bool.or_eq_true_iff.mp hallowed with hpublic | hprivate
        · rcases Bool.or_eq_true_iff.mp hpublic with hpublic | hlisted
          · exact .inl hpublic
          · exact .inr (.inr (hnamed _ (.inr (List.contains_iff_mem.mp hlisted))))
        · obtain ⟨horigin, hoperator⟩ := Bool.and_eq_true_iff.mp hprivate
          exact .inr (.inl ⟨by rw [hprivateOrigin, of_decide_eq_true horigin], hoperator⟩)
    · obtain rfl : first' = first := Except.ok.inj (hfirst'.symm.trans hfirst)
      refine ⟨hsafe.body, fun before c rest hlog hleft => ?_⟩
      have hmem : c ∈ (egress.request runtime world request).2 := hlog ▸ List.mem_append_right _ List.mem_cons_self
      obtain ⟨d, hd, hne⟩ := hleft
      rcases List.mem_append.mp hd with hd | hd
      · have hlater := hsafe.later
        rw [hlog] at hlater
        exact ((List.pairwise_append.mp hlater).2.2 d hd c List.mem_cons_self).1 hne
      · rw [List.mem_singleton.mp hd] at hne
        exact hsafe.headers c hmem hne
    · exact hsafe.later.imp fun hlater hsecure => hlater.2 hrefuse hsecure

/-! ## A chain, and the allowances of tests -/

/-- The address of a host's front page, as the language parses it. -/
def frontPage (host : String) : Url :=
  ⟨"http:", "", "", host, host, "", "/", "", "", "http://" ++ host, "http://" ++ host ++ "/", "http://" ++ host ++ "/"⟩

/-- The language on the texts of three front pages. -/
def frontPages : Runtime where
  parseUrl text := ["8.8.8.8", "9.9.9.9", "127.0.0.1", "many.example"].findSome? fun host =>
    if text = (frontPage host).href then some (frontPage host) else none
  joinUrl location _ := some location
  toLowerCase name := name

/-- Servers that redirect the first page to the second; the name of many addresses has servers that do not answer. -/
def redirecting : Surroundings where
  resolve _ _ := .ok ["1.0.0.1", "1.0.0.2", "1.0.0.3", "1.0.0.4", "1.0.0.5", "1.0.0.6", "1.0.0.7"]
  serve _ c :=
    if c.target.hostname = "many.example" then .notConnected
    else if c.target.hostname = "8.8.8.8" then .answered 302 (some "http://9.9.9.9/") (.ok ())
    else .answered 200 none (.ok ())

def getRequest (url : String) : EgressRequest := ⟨url, none, [("accept", "text/html"), ("authorization", "key")], none, true, true⟩

def production : CreateEgressOptions := ⟨"production", none, none⟩

def strict : HttpEgress := ⟨false, [], none⟩

theorem request_safe_redirected :
    (made (strict.request frontPages redirecting (getRequest "http://8.8.8.8/")).2).length ≤ 6 ∧
      (strict.request frontPages redirecting (getRequest "http://8.8.8.8/")).2.map Connection.callerHeaders =
        [[("accept", "text/html"), ("authorization", "key")], [("accept", "text/html")]] :=
  ⟨(request_safe frontPages production strict redirecting (getRequest "http://8.8.8.8/") (by decide +kernel)).2.1,
    by decide +kernel⟩

/-- **The allowances of tests connect to addresses that are not public**, and a host of seven addresses whose servers do not
answer is tried seven times. -/
theorem private_in_tests :
    ((HttpEgress.create frontPages ⟨"test", none, some ⟨true, []⟩⟩).map fun egress =>
      (egress.request frontPages redirecting (getRequest "http://127.0.0.1/")).2.map fun c =>
        (c.address, c.established, c.answers.any isPublicAddress)) = some [("127.0.0.1", true, false)] ∧
    (strict.request frontPages redirecting (getRequest "http://many.example/")).2.length = 7 := by
  decide +kernel

end SlugBase.Egress
