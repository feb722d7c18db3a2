import SlugBase.Entitlements.Engine
import Mathlib.Order.Basic
import Mathlib.Order.Nat

/-!
# Cached entitlements are not out of date

* `Holds`: a set was granted at its version or later; `Extends`: versions rise and grants stay;
* `store_newer`, `size_evict_le`: what storing an entry does to the cache;
* `Kept`, `Kept.step`: what holds of the cache, the loads and the memos in every state;
* **`answers_not_older`**: no answer is older than the version read for it, no entry replaces a newer one, the cache stays
  within its size, and a failed load is not remembered.
-/

namespace SlugBase.Entitlements

open Transition

/-! ## The cache -/

section

variable {cache : JsMap String CacheEntry} {set : EntitlementSet} {workspaceId : String} {e e' : CacheEntry}

theorem get_store (h : (World.store cache set).get workspaceId = some e) :
    (workspaceId = set.workspaceId ∧ e = ⟨set.version, set⟩) ∨ cache.get workspaceId = some e := by
  unfold World.store at h
  split at h
  · rw [JsMap.get_set, JsMap.get_delete] at h
    split at h
    · rename_i hkey
      exact .inl ⟨hkey.symm, (Option.some.inj h).symm⟩
    · exact .inr h
  · exact .inr h

/-- **An entry of a lower version does not replace one of a higher version.** -/
theorem store_newer (h : cache.get workspaceId = some e) (h' : (World.store cache set).get workspaceId = some e') :
    e.version ≤ e'.version := by
  unfold World.store at h'
  split at h'
  · rename_i hle
    rw [JsMap.get_set, JsMap.get_delete] at h'
    split at h'
    · rename_i hkey
      rw [hkey, h] at hle
      cases h'
      exact hle
    · rw [h] at h'
      cases h'
      exact Nat.le_refl _
  · rw [h] at h'
    cases h'
    exact Nat.le_refl _

theorem size_store_le : (World.store cache set).size ≤ cache.size + 1 := by
  unfold World.store
  split
  · exact (JsMap.size_set_le ..).trans (Nat.succ_le_succ (JsMap.size_delete_le ..))
  · exact Nat.le_succ _

theorem get_evict {cacheSize : ℕ} (h : (World.evict cacheSize cache).get workspaceId = some e) :
    cache.get workspaceId = some e := by
  unfold World.evict at h
  split at h
  · split at h
    · rw [JsMap.get_delete] at h
      split at h
      · cases h
      · exact h
    · exact h
  · exact h

/-- The eviction makes room for one entry. -/
theorem size_evict_le {cacheSize : ℕ} (h : cache.size ≤ cacheSize + 1) : (World.evict cacheSize cache).size ≤ cacheSize := by
  unfold World.evict
  split
  · rename_i hover
    split
    · rename_i oldest rest hkeys
      have hmem : oldest ∈ cache.keys := hkeys ▸ List.mem_cons_self
      have hless := JsMap.size_delete_lt hmem
      omega
    · rename_i hkeys
      have hsize : cache.size = 0 := by
        rw [JsMap.size, ← List.length_map Prod.fst]
        exact congrArg List.length hkeys
      omega
  · rename_i hover
    exact Nat.le_of_not_lt hover

end

/-! ## What is up to date -/

variable {cacheSize : ℕ} {s s' : World}

/-- A set of a workspace holds what was granted at its version or later. -/
def Holds (s : World) (workspaceId : String) (set : EntitlementSet) : Prop :=
  set.workspaceId = workspaceId ∧ ∃ w, set.version ≤ w ∧ w ≤ s.versions workspaceId ∧
    readSource (s.grants workspaceId w) = some (set.values, set.upgradeAvailable)

/-- Versions do not fall, and what a version granted stays. -/
def Extends (s s' : World) : Prop :=
  ∀ workspaceId, s.versions workspaceId ≤ s'.versions workspaceId ∧
    ∀ w, w ≤ s.versions workspaceId → s'.grants workspaceId w = s.grants workspaceId w

theorem Extends.refl (s : World) : Extends s s := fun _ => ⟨Nat.le_refl _, fun _ _ => rfl⟩

theorem Holds.extend {workspaceId : String} {set : EntitlementSet} (h : Holds s workspaceId set) (hs : Extends s s') :
    Holds s' workspaceId set := by
  obtain ⟨hid, w, hle, hnow, hgrant⟩ := h
  exact ⟨hid, w, hle, hnow.trans (hs workspaceId).1, (hs workspaceId).2 w hnow ▸ hgrant⟩

/-- What a load knows at its phase. -/
def Load.Kept (s : World) (load : Load) : Prop :=
  match load.phase with
  | .readingVersion => load.askedAt ≤ s.versions load.workspaceId
  | .versionRead version => load.readAt = version ∧
      ∀ v, version = some v → load.askedAt ≤ v ∧ v ≤ s.versions load.workspaceId
  | .readingSource version => load.readAt = some version ∧ load.askedAt ≤ version ∧ version ≤ s.versions load.workspaceId
  | .sourceRead version grant => load.readAt = some version ∧ load.askedAt ≤ version ∧
      ∃ w, version ≤ w ∧ w ≤ s.versions load.workspaceId ∧ s.grants load.workspaceId w = grant
  | .answered answer => ∀ set, answer = some set →
      load.readAt = some set.version ∧ load.askedAt ≤ set.version ∧ Holds s load.workspaceId set
  | .failed => True

theorem Load.Kept.extend {load : Load} (h : load.Kept s) (hs : Extends s s') : load.Kept s' := by
  have hversions := (hs load.workspaceId).1
  unfold Load.Kept at h ⊢
  cases hphase : load.phase with
  | readingVersion =>
    rw [hphase] at h
    exact Nat.le_trans h hversions
  | versionRead version =>
    rw [hphase] at h
    exact ⟨h.1, fun v hv => ⟨(h.2 v hv).1, (h.2 v hv).2.trans hversions⟩⟩
  | readingSource version =>
    rw [hphase] at h
    exact ⟨h.1, h.2.1, h.2.2.trans hversions⟩
  | sourceRead version grant =>
    rw [hphase] at h
    obtain ⟨hread, hasked, w, hle, hnow, hgrant⟩ := h
    exact ⟨hread, hasked, w, hle, hnow.trans hversions, (hs _).2 w hnow ▸ hgrant⟩
  | answered answer =>
    rw [hphase] at h
    exact fun set hset => ⟨(h set hset).1, (h set hset).2.1, (h set hset).2.2.extend hs⟩
  | failed => trivial

/-- **What holds in every state.** -/
structure Kept (cacheSize : ℕ) (s : World) : Prop where
  cached : ∀ workspaceId e, s.cache.get workspaceId = some e → e.set.version = e.version ∧ Holds s workspaceId e.set
  size : s.cache.size ≤ cacheSize
  loads : ∀ l load, s.loads l = some load → load.Kept s
  memo : ∀ r scope workspaceId l, s.scopes r = some scope → scope.sets workspaceId = some l →
    ∃ load, s.loads l = some load ∧ load.request = r ∧ load.workspaceId = workspaceId ∧ load.phase ≠ .failed
  numbers : ∀ l load, s.loads l = some load → l < s.started

namespace Kept

/-- The database moves on. -/
theorem extend (h : Kept cacheSize s) (hs : Extends s s') (hcache : s'.cache = s.cache) (hscopes : s'.scopes = s.scopes)
    (hloads : s'.loads = s.loads) (hstarted : s'.started = s.started) : Kept cacheSize s' where
  cached workspaceId e he := by
    rw [hcache] at he
    exact ⟨(h.cached workspaceId e he).1, (h.cached workspaceId e he).2.extend hs⟩
  size := hcache ▸ h.size
  loads l load hl := by
    rw [hloads] at hl
    exact (h.loads l load hl).extend hs
  memo := by
    rw [hscopes, hloads]
    exact h.memo
  numbers := by
    rw [hloads, hstarted]
    exact h.numbers

/-- A load goes to a phase of which it knows what it must, and the cache to entries that hold. -/
theorem setPhase (h : Kept cacheSize s) {l : ℕ} {load load' : Load} {phase : Phase} {cache : JsMap String CacheEntry}
    (hload : s.loads l = some load) (hrequest : load'.request = load.request)
    (hworkspace : load'.workspaceId = load.workspaceId) (hphase : phase ≠ .failed)
    (hkept : Load.Kept s { load' with phase := phase })
    (hcached : ∀ workspaceId e, cache.get workspaceId = some e → e.set.version = e.version ∧ Holds s workspaceId e.set)
    (hsize : cache.size ≤ cacheSize) : Kept cacheSize { s.setPhase l load' phase with cache := cache } where
  cached := hcached
  size := hsize
  loads k load₁ hk := by
    change Function.update s.loads l _ k = _ at hk
    by_cases hkl : k = l
    · rw [hkl, Function.update_self] at hk
      cases hk
      exact hkept
    · rw [Function.update_of_ne hkl] at hk
      exact h.loads k load₁ hk
  memo r scope workspaceId k hscope hset := by
    obtain ⟨load₁, hk, hr, hw, hfailed⟩ := h.memo r scope workspaceId k hscope hset
    change ∃ load₂, Function.update s.loads l _ k = _ ∧ _
    by_cases hkl : k = l
    · subst hkl
      obtain rfl : load = load₁ := Option.some.inj (hload.symm.trans hk)
      rw [Function.update_self]
      exact ⟨_, rfl, hrequest.trans hr, hworkspace.trans hw, hphase⟩
    · rw [Function.update_of_ne hkl]
      exact ⟨load₁, hk, hr, hw, hfailed⟩
  numbers k load₁ hk := by
    change Function.update s.loads l _ k = _ at hk
    by_cases hkl : k = l
    · rw [hkl]
      exact h.numbers l load hload
    · rw [Function.update_of_ne hkl] at hk
      exact h.numbers k load₁ hk

/-- A load that fails is forgotten by its request. -/
theorem fail (h : Kept cacheSize s) {l : ℕ} {load : Load} (hload : s.loads l = some load) :
    Kept cacheSize (s.fail l load) where
  cached := h.cached
  size := h.size
  loads k load₁ hk := by
    change Function.update s.loads l _ k = _ at hk
    by_cases hkl : k = l
    · rw [hkl, Function.update_self] at hk
      cases hk
      trivial
    · rw [Function.update_of_ne hkl] at hk
      exact h.loads k load₁ hk
  memo r scope workspaceId k hscope hset := by
    obtain ⟨scope₀, hscope₀, rfl⟩ := Option.map_eq_some_iff.mp hscope
    simp only at hset
    split at hset
    · cases hset
    · rename_i hnot
      obtain ⟨load₁, hk, hr, hw, hfailed⟩ := h.memo r scope₀ workspaceId k hscope₀ hset
      have hkl : k ≠ l := by
        rintro rfl
        obtain rfl : load = load₁ := Option.some.inj (hload.symm.trans hk)
        exact hnot ⟨hr.symm, hw.symm, hset⟩
      exact ⟨load₁, (Function.update_of_ne hkl ..).trans hk, hr, hw, hfailed⟩
  numbers k load₁ hk := by
    change Function.update s.loads l _ k = _ at hk
    by_cases hkl : k = l
    · rw [hkl]
      exact h.numbers l load hload
    · rw [Function.update_of_ne hkl] at hk
      exact h.numbers k load₁ hk

theorem forWorkspace (h : Kept cacheSize s) (r : ℕ) (accountId workspaceId : String) :
    Kept cacheSize (s.forWorkspace r accountId workspaceId) := by
  unfold World.forWorkspace
  simp only
  split
  · exact h
  · refine ⟨h.cached, h.size, fun l load hl => ?_, fun r' scope w l hscope hset => ?_, fun l load hl => ?_⟩
    · simp only at hl
      by_cases hnew : l = s.started
      · rw [hnew, Function.update_self] at hl
        cases hl
        exact Nat.le_refl _
      · rw [Function.update_of_ne hnew] at hl
        exact h.loads l load hl
    · have hold (scope₀ : Scope) (hscope₀ : s.scopes r' = some scope₀) (hset₀ : scope₀.sets w = some l) :
          ∃ load, Function.update s.loads s.started (some ⟨r, ((s.scopes r).getD ⟨accountId, fun _ => none⟩).accountId,
            workspaceId, .readingVersion, s.versions workspaceId, none⟩) l = some load ∧ load.request = r' ∧
            load.workspaceId = w ∧ load.phase ≠ .failed := by
        obtain ⟨load, hl, hrest⟩ := h.memo r' scope₀ w l hscope₀ hset₀
        exact ⟨load, (Function.update_of_ne (h.numbers l load hl).ne ..).trans hl, hrest⟩
      simp only at hscope ⊢
      by_cases hr : r' = r
      · subst hr
        rw [Function.update_self] at hscope
        cases hscope
        simp only at hset
        by_cases hw : w = workspaceId
        · subst hw
          rw [Function.update_self] at hset
          cases hset
          rw [Function.update_self]
          exact ⟨_, rfl, rfl, rfl, fun hf => by cases hf⟩
        · rw [Function.update_of_ne hw] at hset
          cases hs : s.scopes r' with
          | none =>
            rw [hs] at hset
            cases hset
          | some scope₀ =>
            rw [hs] at hset
            rw [← hs]
            exact hold scope₀ hs hset
      · rw [Function.update_of_ne hr] at hscope
        exact hold scope hscope hset
    · simp only at hl ⊢
      by_cases hnew : l = s.started
      · omega
      · rw [Function.update_of_ne hnew] at hl
        exact Nat.lt_succ_of_lt (h.numbers l load hl)

theorem goOn (h : Kept cacheSize s) {l : ℕ} {load : Load} (hload : s.loads l = some load)
    (hgo : s.goOn cacheSize l load = some s') : Kept cacheSize s' := by
  have hkept := h.loads l load hload
  unfold Load.Kept at hkept
  unfold World.goOn at hgo
  split at hgo
  · rename_i version hphase
    rw [hphase] at hkept
    cases hgo
    cases version with
    | none =>
      refine h.setPhase hload rfl rfl (fun hf => by cases hf) (fun set hset => by cases hset) (fun w e he => ?_)
        ((JsMap.size_delete_le ..).trans h.size)
      rw [JsMap.get_delete] at he
      split at he
      · cases he
      · exact h.cached w e he
    | some version =>
      obtain ⟨hread, hversion⟩ := hkept
      obtain ⟨hasked, hnow⟩ := hversion version rfl
      unfold World.goOnWithVersion
      simp only
      split
      · rename_i cached hcached
        obtain ⟨hentry, hholds⟩ := h.cached _ _ hcached
        split
        · rename_i heq
          refine h.setPhase hload rfl rfl (fun hf => by cases hf) (fun set hset => ?_) h.cached h.size
          cases hset
          rw [hentry, heq]
          exact ⟨hread, hasked, hholds⟩
        · exact h.setPhase hload rfl rfl (fun hf => by cases hf) ⟨hread, hasked, hnow⟩ h.cached h.size
      · exact h.setPhase hload rfl rfl (fun hf => by cases hf) ⟨hread, hasked, hnow⟩ h.cached h.size
  · rename_i version grant hphase
    rw [hphase] at hkept
    obtain ⟨hread, hasked, w, hle, hnow, hgrant⟩ := hkept
    cases hgo
    unfold World.goOnWithGrant
    split
    · exact h.fail hload
    · rename_i values upgradeAvailable hsource
      have hholds : Holds s load.workspaceId ⟨load.workspaceId, version, values, upgradeAvailable⟩ :=
        ⟨rfl, w, hle, hnow, hgrant ▸ hsource⟩
      refine h.setPhase hload rfl rfl (fun hf => by cases hf) (fun set hset => ?_) (fun w e he => ?_)
        (size_evict_le (size_store_le.trans (Nat.succ_le_succ h.size)))
      · cases hset
        exact ⟨hread, hasked, hholds⟩
      · rcases get_store (get_evict he) with ⟨rfl, rfl⟩ | hold
        · exact ⟨rfl, hholds⟩
        · exact h.cached w e hold
  · cases hgo

theorem read (h : Kept cacheSize s) {l : ℕ} {load : Load} (hload : s.loads l = some load) (hread : s.read l load = some s') :
    Kept cacheSize s' := by
  have hkept := h.loads l load hload
  unfold Load.Kept at hkept
  unfold World.read at hread
  split at hread
  · rename_i hphase
    rw [hphase] at hkept
    cases hread
    refine h.setPhase hload rfl rfl (fun hf => by cases hf) ⟨rfl, fun v hv => ?_⟩ h.cached h.size
    split at hv
    · cases hv
      exact ⟨hkept, Nat.le_refl _⟩
    · cases hv
  · rename_i version hphase
    rw [hphase] at hkept
    cases hread
    exact h.setPhase hload rfl rfl (fun hf => by cases hf)
      ⟨hkept.1, hkept.2.1, _, hkept.2.2, Nat.le_refl _, rfl⟩ h.cached h.size
  · cases hread

theorem reject (h : Kept cacheSize s) {l : ℕ} {load : Load} (hload : s.loads l = some load)
    (hreject : s.reject l load = some s') : Kept cacheSize s' := by
  unfold World.reject at hreject
  split at hreject
  · exact Option.some.inj hreject ▸ h.fail hload
  · exact Option.some.inj hreject ▸ h.fail hload
  · cases hreject

theorem change (h : Kept cacheSize s) (accountId workspaceId : String) (grant : WorkspaceEntitlementGrant) :
    Kept cacheSize (s.withEntitlementChange accountId workspaceId grant) := by
  unfold World.withEntitlementChange
  split
  · refine h.extend (fun w => ?_) rfl rfl rfl rfl
    by_cases hw : w = workspaceId
    · subst hw
      simp only [Function.update_self]
      exact ⟨Nat.le_succ _, fun v hv => Function.update_of_ne (by omega) ..⟩
    · simp only [Function.update_of_ne hw]
      exact ⟨Nat.le_refl _, fun _ _ => trivial⟩
  · exact h

theorem step (h : Kept cacheSize s) {e : Event} (hstep : Entitlements.step cacheSize s e = some s') : Kept cacheSize s' := by
  cases e with
  | forWorkspace r accountId workspaceId => exact Option.some.inj hstep ▸ h.forWorkspace r accountId workspaceId
  | read l =>
    obtain ⟨load, hload, hread⟩ := Option.bind_eq_some_iff.mp hstep
    exact h.read hload hread
  | reject l =>
    obtain ⟨load, hload, hreject⟩ := Option.bind_eq_some_iff.mp hstep
    exact h.reject hload hreject
  | goOn l =>
    obtain ⟨load, hload, hgo⟩ := Option.bind_eq_some_iff.mp hstep
    exact h.goOn hload hgo
  | change accountId workspaceId grant => exact Option.some.inj hstep ▸ h.change accountId workspaceId grant
  | visible accountId workspaceId value => exact Option.some.inj hstep ▸ h.extend (.refl s) rfl rfl rfl rfl

theorem of_reachable (h : (system cacheSize).Reachable s) : Kept cacheSize s := by
  refine h.invariant (fun s hs => ?_) fun s e s' hkept hstep => hkept.step hstep
  obtain ⟨hcache, hscopes, hloads⟩ := hs
  refine ⟨fun w e he => ?_, ?_, fun l load hl => ?_, fun r scope w l hscope => ?_, fun l load hl => ?_⟩
  · rw [hcache] at he
    cases he
  · rw [hcache]
    exact Nat.zero_le _
  · rw [hloads] at hl
    cases hl
  · rw [hscopes] at hscope
    cases hscope
  · rw [hloads] at hl
    cases hl

end Kept

/-! ## The steps of the cache -/

/-- A step leaves an entry, drops it, or puts one of the same or a newer version in its place. -/
theorem cache_newer {e : Event} (hstep : step cacheSize s e = some s') {workspaceId : String} {c c' : CacheEntry}
    (hc : s.cache.get workspaceId = some c) (hc' : s'.cache.get workspaceId = some c') : c.version ≤ c'.version := by
  have hsame (h : s'.cache = s.cache) : c.version ≤ c'.version := by
    rw [h, hc] at hc'
    cases hc'
    exact Nat.le_refl _
  cases e with
  | forWorkspace r accountId w =>
    refine hsame (Option.some.inj hstep ▸ ?_)
    unfold World.forWorkspace
    simp only
    split <;> rfl
  | read l =>
    obtain ⟨load, -, hread⟩ := Option.bind_eq_some_iff.mp hstep
    unfold World.read at hread
    split at hread
    · exact hsame (Option.some.inj hread ▸ rfl)
    · exact hsame (Option.some.inj hread ▸ rfl)
    · cases hread
  | reject l =>
    obtain ⟨load, -, hreject⟩ := Option.bind_eq_some_iff.mp hstep
    unfold World.reject at hreject
    split at hreject
    · exact hsame (Option.some.inj hreject ▸ rfl)
    · exact hsame (Option.some.inj hreject ▸ rfl)
    · cases hreject
  | goOn l =>
    obtain ⟨load, -, hgo⟩ := Option.bind_eq_some_iff.mp hstep
    unfold World.goOn at hgo
    split at hgo
    · rename_i version hphase
      cases hgo
      cases version with
      | none =>
        have hget := hc'
        unfold World.goOnWithVersion at hget
        simp only at hget
        rw [JsMap.get_delete] at hget
        split at hget
        · cases hget
        · rw [hc] at hget
          cases hget
          exact Nat.le_refl _
      | some version =>
        refine hsame ?_
        unfold World.goOnWithVersion
        simp only
        split
        · split <;> rfl
        · rfl
    · rename_i version grant hphase
      cases hgo
      unfold World.goOnWithGrant at hc' hsame
      split at hc'
      · rename_i hsource
        simp only [hsource] at hsame
        exact hsame rfl
      · exact store_newer hc (get_evict hc')
    · cases hgo
  | change accountId w grant =>
    refine hsame (Option.some.inj hstep ▸ ?_)
    unfold World.withEntitlementChange
    split <;> rfl
  | visible accountId w value => exact hsame (Option.some.inj hstep ▸ rfl)

/-- A load that fails leaves the cache. -/
theorem cache_of_failed {e : Event} (hstep : step cacheSize s e = some s') {l : ℕ} {load load' : Load}
    (hload : s.loads l = some load) (hphase : load.phase ≠ .failed) (hload' : s'.loads l = some load')
    (hphase' : load'.phase = .failed) : s'.cache = s.cache := by
  have hchanged (h : s'.loads = s.loads) : s'.cache = s.cache := by
    rw [h, hload] at hload'
    cases hload'
    exact absurd hphase' hphase
  have hmoved (k : ℕ) (load₁ : Load) (phase : Phase) (hne : phase ≠ .failed)
      (h : s'.loads = Function.update s.loads k (some { load₁ with phase := phase })) : s'.cache = s.cache := by
    rw [h] at hload'
    by_cases hk : l = k
    · rw [hk, Function.update_self] at hload'
      cases hload'
      exact absurd hphase' hne
    · rw [Function.update_of_ne hk, hload] at hload'
      cases hload'
      exact absurd hphase' hphase
  cases e with
  | forWorkspace r accountId w =>
    have hs' := Option.some.inj hstep
    unfold World.forWorkspace at hs'
    simp only at hs'
    split at hs' <;> exact hs' ▸ rfl
  | read k =>
    obtain ⟨load₁, -, hread⟩ := Option.bind_eq_some_iff.mp hstep
    unfold World.read at hread
    split at hread
    · exact Option.some.inj hread ▸ rfl
    · exact Option.some.inj hread ▸ rfl
    · cases hread
  | reject k =>
    obtain ⟨load₁, -, hreject⟩ := Option.bind_eq_some_iff.mp hstep
    unfold World.reject at hreject
    split at hreject
    · exact Option.some.inj hreject ▸ rfl
    · exact Option.some.inj hreject ▸ rfl
    · cases hreject
  | goOn k =>
    obtain ⟨load₁, -, hgo⟩ := Option.bind_eq_some_iff.mp hstep
    unfold World.goOn at hgo
    split at hgo
    · rename_i version hversion
      cases hgo
      cases version with
      | none => exact hmoved k load₁ _ (fun hf => by cases hf) rfl
      | some version =>
        unfold World.goOnWithVersion
        simp only
        split
        · split <;> rfl
        · rfl
    · rename_i version grant hgrant
      cases hgo
      unfold World.goOnWithGrant at hmoved ⊢
      split
      · rfl
      · rename_i values upgradeAvailable hsource
        simp only [hsource] at hmoved
        exact hmoved k load₁ _ (fun hf => by cases hf) rfl
    · cases hgo
  | change accountId w grant =>
    have hs' := Option.some.inj hstep
    unfold World.withEntitlementChange at hs'
    split at hs' <;> exact hs' ▸ rfl
  | visible accountId w value => exact Option.some.inj hstep ▸ rfl

/-! ## Every run -/

/-- **No answer is out of date**: what a request is answered was granted at the version it read or later, and that version is
at least the one when it asked; no step puts an entry of a lower version in the place of another, the cache stays within its
size, and a load that fails is in no memo and leaves the cache. -/
theorem answers_not_older {cacheSize : ℕ} {s : World} (h : (system cacheSize).Reachable s) :
    (∀ l load set, s.loads l = some load → load.phase = .answered (some set) →
      set.workspaceId = load.workspaceId ∧ load.readAt = some set.version ∧ load.askedAt ≤ set.version ∧
        ∃ w, set.version ≤ w ∧ w ≤ s.versions load.workspaceId ∧
          readSource (s.grants load.workspaceId w) = some (set.values, set.upgradeAvailable)) ∧
    (∀ e s' workspaceId c c', step cacheSize s e = some s' → s.cache.get workspaceId = some c →
      s'.cache.get workspaceId = some c' → c.version ≤ c'.version) ∧
    s.cache.size ≤ cacheSize ∧
    (∀ r scope workspaceId l, s.scopes r = some scope → scope.sets workspaceId = some l →
      ∃ load, s.loads l = some load ∧ load.phase ≠ .failed) ∧
    (∀ e s' l load load', step cacheSize s e = some s' → s.loads l = some load → load.phase ≠ .failed →
      s'.loads l = some load' → load'.phase = .failed → s'.cache = s.cache) := by
  have hkept := Kept.of_reachable h
  refine ⟨fun l load set hl hphase => ?_, fun e s' w c c' hstep hc hc' => cache_newer hstep hc hc', hkept.size,
    fun r scope w l hscope hset => ?_,
    fun e s' l load load' hstep hload hphase hload' hphase' => cache_of_failed hstep hload hphase hload' hphase'⟩
  · have hload := hkept.loads l load hl
    unfold Load.Kept at hload
    rw [hphase] at hload
    obtain ⟨hread, hasked, hid, hgranted⟩ := hload set rfl
    exact ⟨hid, hread, hasked, hgranted⟩
  · obtain ⟨load, hl, -, -, hfailed⟩ := hkept.memo r scope w l hscope hset
    exact ⟨load, hl, hfailed⟩

/-- A database whose plans grant everything, and a process that has answered nothing. -/
def fresh : World where
  versions _ := 3
  grants _ _ := ⟨some fun key => if key ∈ WORKSPACE_LIMIT_ENTITLEMENTS then .unlimited else .flag true, .flag false⟩
  visible _ _ := true
  cache := ∅
  scopes _ := none
  loads _ := none
  started := 0

/-- Two workspaces asked for, one after a change, with room for one entry. -/
def asked : World :=
  (System.follow (step 1) fresh
    [.forWorkspace 0 "owner" "v", .read 0, .goOn 0, .read 0, .goOn 0, .change "owner" "w" ⟨none, .other⟩,
      .forWorkspace 1 "owner" "w", .read 1, .goOn 1, .reject 1, .forWorkspace 2 "owner" "v", .read 2, .goOn 2]).getD fresh

theorem asked_reachable : (system 1).Reachable asked := by
  have hfresh : (system 1).Reachable fresh := .init ⟨rfl, fun _ => rfl, fun _ => rfl⟩
  exact hfresh.follow (fun _ _ _ h => h) _ _ (by decide +kernel)

theorem answers_not_older_asked : asked.cache.size ≤ 1 ∧ (asked.cache.get "v").map CacheEntry.version = some 3 :=
  ⟨(answers_not_older asked_reachable).2.2.1, by decide +kernel⟩

end SlugBase.Entitlements
