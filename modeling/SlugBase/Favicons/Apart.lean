import SlugBase.Favicons.Cache
import Mathlib.Tactic.SplitIfs

/-!
# What a workspace learns of the others

The runs in which what the workspaces share tells a workspace nothing, and one in which it does.

* `Needs`: a workspace holds an unexpired row for a host, or is between its two reads of it;
* `Undisturbed`: no other workspace stores a fetch of a host the workspace needs, and the limiter answers it as it would
  without the others;
* `Alike`: two deployments that the workspace cannot tell apart;
* **`seenBy_alone`**: in an undisturbed run a workspace sees what it sees without the others.
-/

namespace SlugBase.Favicons

variable {Limits : Type} (consume : Limiter Limits) (w : Uuid)

/-! ## The condition -/

/-- Whether the workspace depends on the shared row of a host: it holds an unexpired row for the host, or a request or a job
of it has read one and reads the shared row next. -/
def Needs (s : Deployment Limits) (host : String) (now : Timestamp) : Prop :=
  holds s w host now = true ∨ (∃ request ∈ s.requests w, request.host = host ∧ request.stage = .looks .shared) ∨
    ∃ running ∈ s.running w, running.job.host = host ∧ running.stage = .looks .shared

/-- The host whose row a step of another workspace replaces. -/
def replaced (s : Deployment Limits) (other : Uuid) : Operation → Option String
  | .works i _ (some result) => (s.running other)[i]?.bind fun running =>
      if running.stage = .fetches ∧ isStorable running.job.host result = true then some running.job.host else none
  | _ => none

/-- The token that a step of the workspace takes. -/
def takenBy (s : Deployment Limits) : Operation → Option Take
  | .proceeds i _ => (s.requests w)[i]?.bind fun request =>
      match request.stage with
      | .takes bucket scope => some (request.take bucket scope)
      | _ => none
  | _ => none

/-- Whether a step leaves the workspace alone, with what the run without the others has come to: another workspace replaces no
row that the workspace needs, and the limiter answers the workspace as it does there. -/
def Undisturbing (s s' : Deployment Limits) (clock : Clock) : Event → Prop
  | .acts other operation =>
    if other = w then
      ∀ take ∈ takenBy w s operation, (consume s.limits take clock.reading).1 = (consume s'.limits take clock.reading).1
    else ∀ host ∈ replaced s other operation, ¬ Needs w s host clock.moment
  | .purges _ _ => True

/-- A run whose steps all leave the workspace alone, beside the run without the others. -/
def Undisturbed : Deployment Limits → Deployment Limits → List (Clock × Event) → Prop
  | _, _, [] => True
  | s, s', (clock, event) :: rest => Undisturbing consume w s s' clock event ∧
      Undisturbed (step s consume clock event).1 (if event.remainsFor w then (step s' consume clock event).1 else s') rest

/-- The steps are in the order of the clock, and a read reads it when it has started. -/
def Chronological (since : Timestamp) : List (Clock × Event) → Prop
  | [] => True
  | (clock, _) :: rest => since ≤ clock.moment ∧ clock.moment ≤ clock.reading ∧ Chronological clock.moment rest

instance (s : Deployment Limits) (host : String) (now : Timestamp) : Decidable (Needs w s host now) :=
  inferInstanceAs (Decidable (_ ∨ _))

instance (s s' : Deployment Limits) (clock : Clock) : (event : Event) → Decidable (Undisturbing consume w s s' clock event)
  | .acts _ _ => inferInstanceAs (Decidable (ite ..))
  | .purges _ _ => .isTrue trivial

instance decidableUndisturbed : (s s' : Deployment Limits) → (events : List (Clock × Event)) →
    Decidable (Undisturbed consume w s s' events)
  | _, _, [] => .isTrue trivial
  | s, s', (clock, event) :: rest =>
    have := decidableUndisturbed (step s consume clock event).1
      (if event.remainsFor w then (step s' consume clock event).1 else s') rest
    inferInstanceAs (Decidable (_ ∧ _))

instance decidableChronological : (since : Timestamp) → (events : List (Clock × Event)) →
    Decidable (Chronological since events)
  | _, [] => .isTrue trivial
  | _, (clock, _) :: rest =>
    have := decidableChronological clock.moment rest
    inferInstanceAs (Decidable (_ ∧ _))

/-! ## Two deployments -/

/-- **Two deployments that a workspace cannot tell apart**, at a time and from then on, but for the rate limits. -/
structure Alike (since : Timestamp) (s s' : Deployment Limits) : Prop where
  rows : s.workspaceFavicons w = s'.workspaceFavicons w
  requests : s.requests w = s'.requests w
  waiting : s.waiting w = s'.waiting w
  running : s.running w = s'.running w
  shared : ∀ host, Needs w s host since → s.favicons host = s'.favicons host

variable {consume} {w} {other : Uuid} {s s' : Deployment Limits} {clock : Clock} {since : Timestamp} {host : String}

theorem Alike.refl (s : Deployment Limits) : Alike w since s s := ⟨rfl, rfl, rfl, rfl, fun _ _ => rfl⟩

theorem holds_of_le {now : Timestamp} (h : since ≤ now) (hholds : holds s w host now = true) : holds s w host since = true := by
  rw [holds, Option.any_eq_true] at hholds ⊢
  obtain ⟨expiresAt, hrow, hlt⟩ := hholds
  exact ⟨expiresAt, hrow, decide_eq_true (lt_of_le_of_lt h (of_decide_eq_true hlt))⟩

theorem Alike.later {now : Timestamp} (h : Alike w since s s') (hle : since ≤ now) : Alike w now s s' :=
  ⟨h.rows, h.requests, h.waiting, h.running, fun host hneeds => h.shared host (hneeds.imp_left (holds_of_le hle))⟩

theorem Alike.holds (h : Alike w since s s') (host : String) (now : Timestamp) :
    Favicons.holds s w host now = Favicons.holds s' w host now := by
  rw [Favicons.holds, Favicons.holds, h.rows]

theorem Alike.trans {s'' : Deployment Limits} (h : Alike w since s s') (h' : Alike w since s' s'') : Alike w since s s'' := by
  refine ⟨h.rows.trans h'.rows, h.requests.trans h'.requests, h.waiting.trans h'.waiting, h.running.trans h'.running,
    fun host hneeds => (h.shared host hneeds).trans (h'.shared host ?_)⟩
  rwa [Needs, ← h.holds, ← h.requests, ← h.running]

theorem Alike.look (h : Alike w since s s') (size : FaviconSize) (readable : Bool) (now : Timestamp) {lookup : Lookup}
    (hshared : lookup = .shared → Needs w s host since) :
    look s w host size readable now lookup = look s' w host size readable now lookup := by
  cases lookup with
  | readable => rfl
  | requested => rw [Favicons.look, Favicons.look, h.holds]
  | shared => rw [Favicons.look, Favicons.look, sysFaviconGet, sysFaviconGet, h.shared host (hshared rfl)]

theorem holds_of_look {size : FaviconSize} {readable : Bool} {now : Timestamp} {lookup : Lookup}
    (h : look s w host size readable now lookup = .next .shared) : holds s w host now = true := by
  cases lookup with
  | readable => cases readable <;> cases h
  | requested =>
    rw [look] at h
    split_ifs at h with hholds
    exact hholds
  | shared =>
    rw [look] at h
    split at h <;> cases h

/-! ## Steps of the workspace -/

theorem mem_moved {α : Type} {items : List α} {i : ℕ} {next : Option α} {item : α} (h : item ∈ moved items i next) :
    item ∈ items ∨ next = some item := by
  cases next with
  | none => exact .inl (List.mem_of_mem_eraseIdx h)
  | some item' => exact (List.mem_or_eq_of_mem_set h).imp_right fun heq => congrArg some heq.symm

/-- The requests change; a new one that reads the shared row next has read a row of the workspace. -/
theorem Alike.setRequests (h : Alike w since s s') (before before' : Uuid → List Request) (requests : List Request)
    (hnew : ∀ request ∈ requests, request ∈ s.requests w ∨
      (request.stage = .looks .shared → Favicons.holds s w request.host since = true)) :
    Alike w since { s with requests := Function.update before w requests }
      { s' with requests := Function.update before' w requests } := by
  refine ⟨h.rows, ?_, h.waiting, h.running, fun host hneeds => h.shared host ?_⟩
  · simp only [Function.update_self]
  · rcases hneeds with hholds | ⟨request, hmem, rfl, hstage⟩ | hrunning
    · exact .inl hholds
    · simp only [Function.update_self] at hmem
      rcases hnew request hmem with hold | hholds
      · exact .inr (.inl ⟨request, hold, rfl, hstage⟩)
      · exact .inl (hholds hstage)
    · exact .inr (.inr hrunning)

/-- The jobs that run change likewise. -/
theorem Alike.setRunning (h : Alike w since s s') (before before' : Uuid → List RunningJob) (jobs : List RunningJob)
    (hnew : ∀ running ∈ jobs, running ∈ s.running w ∨
      (running.stage = .looks .shared → Favicons.holds s w running.job.host since = true)) :
    Alike w since { s with running := Function.update before w jobs }
      { s' with running := Function.update before' w jobs } := by
  refine ⟨h.rows, h.requests, h.waiting, ?_, fun host hneeds => h.shared host ?_⟩
  · simp only [Function.update_self]
  · rcases hneeds with hholds | hrequest | ⟨running, hmem, rfl, hstage⟩
    · exact .inl hholds
    · exact .inr (.inl hrequest)
    · simp only [Function.update_self] at hmem
      rcases hnew running hmem with hold | hholds
      · exact .inr (.inr ⟨running, hold, rfl, hstage⟩)
      · exact .inl (hholds hstage)

theorem Alike.setWaiting (h : Alike w since s s') (jobs : List FetchJob) :
    Alike w since { s with waiting := Function.update s.waiting w jobs }
      { s' with waiting := Function.update s'.waiting w jobs } :=
  ⟨h.rows, h.requests, by simp only [Function.update_self], h.running, h.shared⟩

theorem Alike.setLimits (h : Alike w since s s') (limits limits' : Limits) :
    Alike w since { s with limits := limits } { s' with limits := limits' } :=
  ⟨h.rows, h.requests, h.waiting, h.running, h.shared⟩

theorem Alike.isWaiting (h : Alike w since s s') (job : FetchJob) : isWaiting s w job = isWaiting s' w job := by
  rw [Favicons.isWaiting, Favicons.isWaiting, h.waiting]

theorem Alike.enqueue (h : Alike w since s s') (job : FetchJob) : Alike w since (enqueue s w job) (enqueue s' w job) := by
  rw [Favicons.enqueue, Favicons.enqueue, ← h.isWaiting, ← h.waiting]
  split_ifs
  · exact h
  · exact h.setWaiting _

theorem Alike.store (h : Alike w since s s') (host : String) (result : FaviconResult) :
    Alike w since (store s w host result clock) (store s' w host result clock) := by
  refine ⟨?_, h.requests, h.waiting, h.running, fun asked hneeds => ?_⟩
  · simp only [Favicons.store, Function.update_self, h.rows]
  · by_cases hsame : asked = host
    · simp only [Favicons.store, sysFaviconPut, hsame, Function.update_self]
    · simp only [Favicons.store, sysFaviconPut, Function.update_of_ne hsame]
      refine h.shared asked (hneeds.imp_left fun hholds => ?_)
      simpa only [Favicons.holds, Favicons.store, Function.update_self, Function.update_of_ne hsame] using hholds

variable (consume) (clock) in
/-- **A step of a request**: it finds the same, and leaves deployments that the workspace cannot tell apart. -/
theorem Alike.getFavicon (h : Alike w since s s') {request : Request} (hmem : request ∈ s.requests w) (readable : Bool)
    (htakes : ∀ bucket scope, request.stage = .takes bucket scope →
      (consume s.limits (request.take bucket scope) clock.reading).1 =
        (consume s'.limits (request.take bucket scope) clock.reading).1) :
    (getFavicon s w consume request readable clock).2 = (getFavicon s' w consume request readable clock).2 ∧
      Alike w since (getFavicon s w consume request readable clock).1 (getFavicon s' w consume request readable clock).1 := by
  rw [Favicons.getFavicon, Favicons.getFavicon]
  cases hstage : request.stage with
  | takes bucket scope =>
    dsimp only
    rw [htakes bucket scope hstage]
    exact ⟨rfl, h.setLimits _ _⟩
  | looks lookup =>
    dsimp only
    rw [h.look request.size readable clock.reading fun hshared => .inr (.inl ⟨request, hmem, rfl, hshared ▸ hstage⟩)]
    exact ⟨rfl, h⟩
  | enqueues =>
    dsimp only
    rw [h.isWaiting]
    exact ⟨rfl, h.enqueue _⟩

variable (clock) in
/-- **A step of a job**, likewise. -/
theorem Alike.fetchFaviconJob (h : Alike w since s s') {running : RunningJob} (hmem : running ∈ s.running w)
    (readable : Bool) (result : Option FaviconResult) :
    (fetchFaviconJob s w running readable result clock).2 = (fetchFaviconJob s' w running readable result clock).2 ∧
      Alike w since (fetchFaviconJob s w running readable result clock).1
        (fetchFaviconJob s' w running readable result clock).1 := by
  unfold Favicons.fetchFaviconJob
  cases hstage : running.stage with
  | looks lookup =>
    dsimp only
    rw [h.look .px64 readable clock.reading fun hshared => .inr (.inr ⟨running, hmem, rfl, hshared ▸ hstage⟩)]
    exact ⟨rfl, h⟩
  | fetches =>
    cases result with
    | none => exact ⟨rfl, h.enqueue _⟩
    | some result =>
      dsimp only
      split_ifs
      · exact ⟨rfl, h.store _ _⟩
      · exact ⟨rfl, h.enqueue _⟩

theorem requests_enqueue (s : Deployment Limits) (job : FetchJob) : (enqueue s w job).requests = s.requests := by
  rw [enqueue]
  split_ifs <;> rfl

theorem running_enqueue (s : Deployment Limits) (job : FetchJob) : (enqueue s w job).running = s.running := by
  rw [enqueue]
  split_ifs <;> rfl

theorem getFavicon_requests (s : Deployment Limits) (request : Request) (readable : Bool) :
    (getFavicon s w consume request readable clock).1.requests = s.requests := by
  rw [getFavicon]
  cases request.stage with
  | takes bucket scope => rfl
  | looks lookup => rfl
  | enqueues => exact requests_enqueue s _

theorem fetchFaviconJob_running (s : Deployment Limits) (running : RunningJob) (readable : Bool)
    (result : Option FaviconResult) : (fetchFaviconJob s w running readable result clock).1.running = s.running := by
  unfold fetchFaviconJob
  cases running.stage with
  | looks lookup => rfl
  | fetches =>
    cases result with
    | none => exact running_enqueue s _
    | some result =>
      dsimp only
      split_ifs
      · rfl
      · exact running_enqueue s _

/-- A request that reads the shared row next has read an unexpired row. -/
theorem holds_of_getFavicon {request : Request} {readable : Bool}
    (h : (getFavicon s w consume request readable clock).2.1 = some (.looks .shared)) :
    holds (getFavicon s w consume request readable clock).1 w request.host clock.reading = true := by
  rw [getFavicon] at h ⊢
  cases hstage : request.stage with
  | takes bucket scope =>
    rw [hstage] at h
    dsimp only at h
    split_ifs at h
    cases bucket <;> cases scope <;> cases h
  | looks lookup =>
    rw [hstage] at h
    dsimp only at h
    split at h <;> cases h
    exact holds_of_look ‹_›
  | enqueues =>
    rw [hstage] at h
    cases h

theorem holds_of_fetchFaviconJob {running : RunningJob} {readable : Bool} {result : Option FaviconResult}
    (h : (fetchFaviconJob s w running readable result clock).2.1 = some (.looks .shared)) :
    holds (fetchFaviconJob s w running readable result clock).1 w running.job.host clock.reading = true := by
  unfold fetchFaviconJob at h ⊢
  cases hstage : running.stage with
  | looks lookup =>
    rw [hstage] at h
    dsimp only at h
    split at h <;> cases h
    exact holds_of_look ‹_›
  | fetches =>
    rw [hstage] at h
    cases result with
    | none => cases h
    | some result =>
      dsimp only at h
      split_ifs at h

/-- **A step of the workspace: it sees the same, and cannot tell what follows apart.** -/
theorem Alike.act (h : Alike w since s s') (hclock : since ≤ clock.reading) (operation : Operation)
    (htakes : ∀ take ∈ takenBy w s operation,
      (consume s.limits take clock.reading).1 = (consume s'.limits take clock.reading).1) :
    (act s w consume operation clock).2 = (act s' w consume operation clock).2 ∧
      Alike w since (act s w consume operation clock).1 (act s' w consume operation clock).1 := by
  cases operation with
  | asks accountId address host size =>
    refine ⟨rfl, ?_⟩
    simp only [Favicons.act, ← h.requests]
    refine h.setRequests _ _ _ fun request hmem => (List.mem_append.mp hmem).imp_right fun hnew hstage => ?_
    rw [List.mem_singleton.mp hnew] at hstage
    cases hstage
  | proceeds i readable =>
    simp only [Favicons.act, ← h.requests]
    cases hrequest : (s.requests w)[i]? with
    | none => exact ⟨rfl, h⟩
    | some request =>
      obtain ⟨hseen, hafter⟩ := h.getFavicon consume clock (List.mem_of_getElem? hrequest) readable
        fun bucket scope hstage => htakes _ (by simp [takenBy, hrequest, hstage])
      dsimp only
      rw [← congrArg Prod.fst hseen, ← congrArg Prod.snd hseen]
      refine ⟨rfl, hafter.setRequests _ _ _ fun request' hmem => ?_⟩
      rw [getFavicon_requests]
      refine (mem_moved hmem).imp_right fun hnext hstage => ?_
      obtain ⟨stage, hstage', rfl⟩ := Option.map_eq_some_iff.mp hnext
      exact holds_of_le hclock (holds_of_getFavicon (hstage'.trans (congrArg some hstage)))
  | starts job =>
    simp only [Favicons.act, ← h.waiting, ← h.running]
    split_ifs with hwaiting
    · refine ⟨rfl, (h.setWaiting _).setRunning _ _ _ fun running hmem =>
        (List.mem_append.mp hmem).imp_right fun hnew hstage => ?_⟩
      rw [List.mem_singleton.mp hnew] at hstage
      cases hstage
    · exact ⟨rfl, h⟩
  | works i readable result =>
    simp only [Favicons.act, ← h.running]
    cases hrunning : (s.running w)[i]? with
    | none => exact ⟨rfl, h⟩
    | some running =>
      obtain ⟨hseen, hafter⟩ := h.fetchFaviconJob clock (List.mem_of_getElem? hrunning) readable result
      dsimp only
      rw [← congrArg Prod.fst hseen, ← congrArg Prod.snd hseen]
      refine ⟨rfl, hafter.setRunning _ _ _ fun running' hmem => ?_⟩
      rw [fetchFaviconJob_running]
      refine (mem_moved hmem).imp_right fun hnext hstage => ?_
      obtain ⟨stage, hstage', rfl⟩ := Option.map_eq_some_iff.mp hnext
      exact holds_of_le hclock (holds_of_fetchFaviconJob (hstage'.trans (congrArg some hstage)))

theorem Alike.purge (h : Alike w since s s') (hosts : List String) (rows : List (Uuid × String)) (now : Timestamp) :
    Alike w since (purge s hosts rows now) (purge s' hosts rows now) := by
  refine ⟨?_, h.requests, h.waiting, h.running, fun host hneeds => ?_⟩
  · funext host
    simp only [Favicons.purge, h.rows]
  · have hbefore : Needs w s host since := hneeds.imp_left fun hholds => by
      rw [Favicons.holds, Option.any_eq_true] at hholds ⊢
      obtain ⟨expiresAt, hrow, hlt⟩ := hholds
      exact ⟨expiresAt, (Option.filter_eq_some_iff.mp hrow).1, hlt⟩
    simp only [Favicons.purge, h.shared host hbefore]

/-! ## Steps of the others -/

theorem Alike.othersRequests (h : Alike w since s s') (hne : other ≠ w) (requests : List Request) :
    Alike w since { s with requests := Function.update s'.requests other requests } s' := by
  have hsame : Function.update s'.requests other requests w = s'.requests w := Function.update_of_ne hne.symm ..
  refine ⟨h.rows, hsame, h.waiting, h.running, fun host hneeds => h.shared host ?_⟩
  rw [Needs, h.requests, ← hsame]
  exact hneeds

theorem Alike.othersRunning (h : Alike w since s s') (hne : other ≠ w) (jobs : List RunningJob) :
    Alike w since { s with running := Function.update s'.running other jobs } s' := by
  have hsame : Function.update s'.running other jobs w = s'.running w := Function.update_of_ne hne.symm ..
  refine ⟨h.rows, h.requests, h.waiting, hsame, fun host hneeds => h.shared host ?_⟩
  rw [Needs, h.running, ← hsame]
  exact hneeds

theorem alike_waiting (hne : other ≠ w) (jobs : List FetchJob) :
    Alike w since { s with waiting := Function.update s.waiting other jobs } s :=
  ⟨rfl, rfl, Function.update_of_ne hne.symm .., rfl, fun _ _ => rfl⟩

theorem alike_enqueue (hne : other ≠ w) (job : FetchJob) : Alike w since (enqueue s other job) s := by
  rw [enqueue]
  split_ifs
  · exact .refl s
  · exact alike_waiting hne _

theorem alike_store {result : FaviconResult} (hne : other ≠ w) (hfree : ¬ Needs w s host since) :
    Alike w since (store s other host result clock) s := by
  have hrows : (store s other host result clock).workspaceFavicons w = s.workspaceFavicons w :=
    Function.update_of_ne hne.symm ..
  refine ⟨hrows, rfl, rfl, rfl, fun asked hneeds => Function.update_of_ne ?_ ..⟩
  rintro rfl
  rw [Needs, holds, hrows] at hneeds
  exact hfree hneeds

/-- **A step of another workspace that replaces no row this one needs changes nothing for it.** -/
theorem alike_act {operation : Operation} (hne : other ≠ w)
    (h : ∀ host ∈ replaced s other operation, ¬ Needs w s host since) :
    Alike w since (act s other consume operation clock).1 s := by
  cases operation with
  | asks accountId address host size => exact (Alike.refl s).othersRequests hne _
  | proceeds i readable =>
    rw [act]
    cases (s.requests other)[i]? with
    | none => exact .refl s
    | some request =>
      refine Alike.othersRequests ?_ hne _
      rw [getFavicon]
      cases request.stage with
      | takes bucket scope => exact (Alike.refl s).setLimits _ _
      | looks lookup => exact .refl s
      | enqueues => exact alike_enqueue hne _
  | starts job =>
    rw [act]
    split_ifs
    · exact (alike_waiting hne _).othersRunning hne _
    · exact .refl s
  | works i readable result =>
    rw [act]
    cases hrunning : (s.running other)[i]? with
    | none => exact .refl s
    | some running =>
      refine Alike.othersRunning ?_ hne _
      unfold fetchFaviconJob
      cases hstage : running.stage with
      | looks lookup => exact .refl s
      | fetches =>
        cases result with
        | none => exact alike_enqueue hne _
        | some result =>
          dsimp only
          split_ifs with hstorable
          · exact alike_store hne (h _ (by simp [replaced, hrunning, hstage, hstorable]))
          · exact alike_enqueue hne _

/-! ## Runs -/

theorem seenBy_cons (event : Event) (rest : List (Clock × Event)) : seenBy s w consume ((clock, event) :: rest) =
    ((step s consume clock event).2.filterMap fun sight => if sight.1 = w then some sight.2 else none) ++
      seenBy (step s consume clock event).1 w consume rest := by
  rw [seenBy, seen, List.filterMap_append, seenBy]

theorem sights_other (hne : other ≠ w) (sights : List Sight) :
    ((sights.map fun sight => (other, sight)).filterMap fun sight => if sight.1 = w then some sight.2 else none) = [] := by
  rw [List.filterMap_map]
  simp [hne]

theorem Alike.run {events : List (Clock × Event)} : ∀ {s s' : Deployment Limits} {since : Timestamp}, Alike w since s s' →
    Chronological since events → Undisturbed consume w s s' events →
      seenBy s w consume events = seenBy s' w consume (alone w events) := by
  induction events with
  | nil => exact fun _ _ _ => rfl
  | cons event rest ih =>
    obtain ⟨clock, event⟩ := event
    intro s s' since h ⟨hmoment, hreading, hclock⟩ ⟨hstep, hundisturbed⟩
    have hnow := h.later hmoment
    cases event with
    | purges hosts rows =>
      have hkeep : alone w ((clock, .purges hosts rows) :: rest) = (clock, .purges hosts rows) :: alone w rest := rfl
      rw [hkeep, seenBy_cons, seenBy_cons]
      exact congrArg _ (ih (hnow.purge hosts rows clock.written) hclock hundisturbed)
    | acts other operation =>
      by_cases hne : other = w
      · subst hne
        have hkeep : alone other ((clock, .acts other operation) :: rest) = (clock, .acts other operation) :: alone other rest := by
          rw [alone, List.filter_cons_of_pos (by simp [Event.remainsFor]), alone]
        rw [Undisturbing, if_pos rfl] at hstep
        obtain ⟨hsight, hnext⟩ := hnow.act hreading operation hstep
        rw [hkeep, seenBy_cons, seenBy_cons]
        simp only [step, Event.remainsFor, decide_true, if_true] at hundisturbed ⊢
        rw [hsight, ih hnext hclock hundisturbed]
      · have hdrop : alone w ((clock, .acts other operation) :: rest) = alone w rest := by
          rw [alone, List.filter_cons_of_neg (by simpa [Event.remainsFor] using hne), alone]
        rw [Undisturbing, if_neg hne] at hstep
        simp only [step, Event.remainsFor, decide_eq_true_eq, if_neg hne] at hundisturbed
        rw [hdrop, seenBy_cons]
        simp only [step]
        rw [sights_other hne, List.nil_append]
        exact ih ((alike_act hne hstep).trans hnow) hclock hundisturbed

/-- **In an undisturbed run a workspace sees what it sees without the others**: every answer it gets for a host, and every
fetch that is queued and made for it. -/
theorem seenBy_alone (w : Uuid) (s : Deployment Limits) (since : Timestamp) (events : List (Clock × Event))
    (hclock : Chronological since events) (hundisturbed : Undisturbed consume w s s events) :
    seenBy s w consume events = seenBy s w consume (alone w events) := (Alike.refl s).run hclock hundisturbed

/-! ## Two runs -/

/-- A limiter that refuses nothing. -/
def unlimited : Limiter Unit := fun limits _ _ => (true, limits)

/-- A PNG of nine bytes. -/
def smallPng : List UInt8 := PNG_SIGNATURE ++ [0]

/-- A member asks for a host, and the request is answered. -/
def asking (w accountId : Uuid) (host : String) (steps : ℕ) : List Event :=
  .acts w (.asks accountId "192.0.2.1" host .px64) :: List.replicate steps (.acts w (.proceeds 0 true))

/-- The fetch that was queued. -/
def fetching (w accountId : Uuid) (host : String) (result : FaviconResult) : List Event :=
  .acts w (.starts ⟨host, accountId⟩) :: List.replicate 3 (.acts w (.works 0 true (some result)))

/-- A workspace has the icon of a host fetched, another one finds none for a host of its own, and the first one asks again. -/
def twoWorkspaces (host : String) : List (Clock × Event) :=
  (asking 1 3 "example.org" 7 ++ fetching 1 3 "example.org" (.ok smallPng smallPng) ++ asking 2 4 host 7 ++
    fetching 2 4 host .none ++ asking 1 3 "example.org" 5).zipIdx.map fun event => (still event.2, event.1)

theorem seenBy_alone_twoHosts : Chronological 0 (twoWorkspaces "example.com") ∧
    Undisturbed unlimited 1 { limits := () } { limits := () } (twoWorkspaces "example.com") ∧
    seenBy { limits := () } 1 unlimited (twoWorkspaces "example.com") =
      seenBy { limits := () } 1 unlimited (alone 1 (twoWorkspaces "example.com")) := by
  have hclock : Chronological 0 (twoWorkspaces "example.com") := by decide +kernel
  have hundisturbed : Undisturbed unlimited 1 { limits := () } { limits := () } (twoWorkspaces "example.com") := by
    decide +kernel
  exact ⟨hclock, hundisturbed, seenBy_alone 1 { limits := () } 0 _ hclock hundisturbed⟩

theorem seenBy_oneHost : seenBy { limits := () } 1 unlimited (twoWorkspaces "example.org") ≠
      seenBy { limits := () } 1 unlimited (alone 1 (twoWorkspaces "example.org")) ∧
    (seenBy { limits := () } 1 unlimited (twoWorkspaces "example.org")).getLast? =
      some (.answered "example.org" .px64 (some .none)) ∧
    (seenBy { limits := () } 1 unlimited (alone 1 (twoWorkspaces "example.org"))).getLast? =
      some (.answered "example.org" .px64 (some (.ok smallPng))) := by
  decide +kernel

end SlugBase.Favicons
