import Mathlib.Algebra.Order.Group.MinMax
import SlugBase.RateLimit.Take

/-!
# What the token buckets allow

* `Sound`: a bucket holds at least nothing and at most the capacity;
* `upsert_balance`: a take that is allowed moves no more than the refill since `updated_at`;
* `spent_le`: what a stretch of takes is allowed is at most what the bucket held and the refill over the growth of
  `updated_at`;
* `Purged.decision`: a bucket that the purge deletes answers like one that does not exist;
* **`takes_bounded`**: the bounds over every run, and that the purge changes no decision.
-/

namespace SlugBase.RateLimit

/-! ## One bucket -/

section

variable {w : Window} {cost now : ℚ} {b b' : Bucket} {row : Option Bucket}

/-- A bucket holds at least nothing and at most the capacity. -/
def Sound (w : Window) (b : Bucket) : Prop := 0 ≤ b.tokens ∧ b.tokens ≤ w.capacity

/-- What a bucket holds now. -/
def level (w : Window) (now : ℚ) (b : Bucket) : ℚ := refilled w.capacity w.refillPerSecond now b

/-- The upsert with the window of a key. -/
def write (w : Window) (cost now : ℚ) (row : Option Bucket) : Option Bucket :=
  upsert w.capacity w.refillPerSecond cost now row

theorem write_none : write w cost now none = if cost ≤ w.capacity then some ⟨w.capacity - cost, now⟩ else none := rfl

theorem write_some : write w cost now (some b) =
    if cost ≤ w.capacity ∧ cost ≤ level w now b then some ⟨level w now b - cost, max b.updatedAt now⟩ else none := rfl

theorem level_le : level w now b ≤ w.capacity := min_le_left ..

theorem write_sound (hrow : ∀ b, row = some b → Sound w b) (hcost : 0 < cost) (h : write w cost now row = some b') :
    Sound w b' := by
  cases row with
  | none =>
    rw [write_none] at h
    split at h
    · cases h
      exact ⟨by simp only; linarith, by simp only; linarith⟩
    · cases h
  | some b =>
    rw [write_some] at h
    split at h
    · rename_i hle
      cases h
      have hcap : level w now b ≤ w.capacity := level_le
      exact ⟨by simp only; linarith [hle.2], by simp only; linarith⟩
    · cases h

theorem write_updatedAt (h : write w cost now (some b) = some b') : b.updatedAt ≤ b'.updatedAt := by
  rw [write_some] at h
  split at h
  · cases h
    exact le_max_left ..
  · cases h

/-- **An allowed take moves no more than the refill since `updated_at`.** -/
theorem upsert_balance (h : write w cost now (some b) = some b') :
    cost + b'.tokens ≤ b.tokens + w.refillPerSecond * (b'.updatedAt - b.updatedAt) := by
  rw [write_some] at h
  split at h
  · cases h
    have hlevel : level w now b ≤ b.tokens + w.refillPerSecond * max 0 (now - b.updatedAt) := min_le_right ..
    have hgrowth : max b.updatedAt now - b.updatedAt = max 0 (now - b.updatedAt) := by
      rw [← max_sub_sub_right, sub_self]
    rw [hgrowth]
    linarith
  · cases h

theorem available_some : available w.capacity w.refillPerSecond now (some b) = level w now b := rfl

theorem available_none : available w.capacity w.refillPerSecond now none = w.capacity := min_self _

/-- **After the delay of a refusal the bucket holds what was asked for.** -/
theorem write_after_delay (hcost : cost ≤ w.capacity) (hclock : ∀ b, row = some b → b.updatedAt ≤ now)
    {delay : ℚ} (hdelay : (cost - available w.capacity w.refillPerSecond now row) / w.refillPerSecond ≤ delay) :
    (write w cost (now + delay) row).isSome := by
  cases row with
  | none => rw [write_none, if_pos hcost, Option.isSome_some]
  | some b =>
    rw [available_some, div_le_iff₀ w.refill_pos] at hdelay
    have hsince : b.updatedAt ≤ now := hclock b rfl
    have hlevel : cost ≤ level w (now + delay) b := by
      refine le_min hcost ?_
      have hnow : level w now b ≤ b.tokens + w.refillPerSecond * (now - b.updatedAt) := by
        refine (min_le_right ..).trans ?_
        rw [max_eq_right (sub_nonneg.mpr hsince)]
      have hgrown : w.refillPerSecond * (now + delay - b.updatedAt) ≤
          w.refillPerSecond * max 0 (now + delay - b.updatedAt) :=
        mul_le_mul_of_nonneg_left (le_max_right ..) w.refill_pos.le
      linarith
    rw [write_some, if_pos ⟨hcost, hlevel⟩, Option.isSome_some]

theorem level_of_idle (h : Sound w b) (hidle : w.fullRefill ≤ now - b.updatedAt) : level w now b = w.capacity := by
  refine min_eq_left ?_
  rw [Window.fullRefill, div_le_iff₀ w.refill_pos] at hidle
  have hmax : w.refillPerSecond * (now - b.updatedAt) ≤ w.refillPerSecond * max 0 (now - b.updatedAt) :=
    mul_le_mul_of_nonneg_left (le_max_right ..) w.refill_pos.le
  linarith [h.1]

end

/-! ## One event -/

section

variable (windows : String → Window) {s : Buckets} {t : Take} {key : String}

/-- The take is one the answer allows. -/
def isAllowed : Except String Taken → Bool
  | .ok a => a.allowed
  | .error _ => false

/-- The arguments of a take are in bounds. -/
def valid (w : Window) (cost : ℚ) : Bool := accepted w.capacity && accepted w.refillPerSecond && accepted cost

theorem cost_pos_of_valid {w : Window} {cost : ℚ} (h : valid w cost = true) : 0 < cost := by
  simp only [valid, accepted, Bool.and_eq_true, decide_eq_true_eq] at h
  exact h.2.1

/-- **What a take can do**: it is refused and changes nothing, or the bucket of its key is written. -/
theorem taken_cases (s : Buckets) (t : Take) :
    (valid (windows t.key) t.cost = false ∧ taken windows s t = .error invalidTake) ∨
    (valid (windows t.key) t.cost = true ∧ write (windows t.key) t.cost t.now (s t.key) = none ∧
      taken windows s t = .ok (⟨false, available (windows t.key).capacity (windows t.key).refillPerSecond t.now (s t.key),
        (t.cost - available (windows t.key).capacity (windows t.key).refillPerSecond t.now (s t.key)) /
          (windows t.key).refillPerSecond⟩, s)) ∨
    ∃ b, valid (windows t.key) t.cost = true ∧ write (windows t.key) t.cost t.now (s t.key) = some b ∧
      taken windows s t = .ok (⟨true, b.tokens, 0⟩, Function.update s t.key (some b)) := by
  unfold taken sysRateLimitTake
  split
  · rename_i hinvalid
    rw [Bool.not_eq_true'] at hinvalid
    exact .inl ⟨hinvalid, rfl⟩
  · rename_i hvalid
    simp only [Bool.not_eq_true', Bool.not_eq_false] at hvalid
    cases hwrite : write (windows t.key) t.cost t.now (s t.key) with
    | none =>
      refine .inr (.inl ⟨hvalid, rfl, ?_⟩)
      unfold write at hwrite
      rw [hwrite]
    | some b =>
      refine .inr (.inr ⟨b, hvalid, rfl, ?_⟩)
      unfold write at hwrite
      rw [hwrite]

theorem after_take_cases (s : Buckets) (t : Take) :
    (isAllowed (decision windows s t) = false ∧ after windows s (.take t) = s) ∨
    ∃ b, 0 < t.cost ∧ write (windows t.key) t.cost t.now (s t.key) = some b ∧
      isAllowed (decision windows s t) = true ∧ after windows s (.take t) = Function.update s t.key (some b) := by
  simp only [after, decision]
  rcases taken_cases windows s t with ⟨-, h⟩ | ⟨-, -, h⟩ | ⟨b, hvalid, hwrite, h⟩ <;> rw [h]
  · exact .inl ⟨rfl, rfl⟩
  · exact .inl ⟨rfl, rfl⟩
  · exact .inr ⟨b, cost_pos_of_valid hvalid, hwrite, rfl, rfl⟩

theorem isAllowed_of_write (hvalid : valid (windows t.key) t.cost = true)
    (hwrite : (write (windows t.key) t.cost t.now (s t.key)).isSome) : isAllowed (decision windows s t) = true := by
  unfold decision
  rcases taken_cases windows s t with ⟨hinvalid, -⟩ | ⟨-, hnone, -⟩ | ⟨b, -, -, h⟩
  · rw [hvalid] at hinvalid
    cases hinvalid
  · rw [hnone] at hwrite
    cases hwrite
  · rw [h]
    rfl

theorem after_take_other (s : Buckets) (h : t.key ≠ key) : after windows s (.take t) key = s key := by
  rcases after_take_cases windows s t with ⟨-, h'⟩ | ⟨b, -, -, -, h'⟩
  · rw [h']
  · rw [h', Function.update_of_ne h.symm]

theorem after_take_same (s : Buckets) (h : t.key = key) :
    (isAllowed (decision windows s t) = false ∧ after windows s (.take t) key = s key) ∨
    ∃ b, 0 < t.cost ∧ write (windows key) t.cost t.now (s key) = some b ∧
      isAllowed (decision windows s t) = true ∧ after windows s (.take t) key = some b := by
  subst h
  rcases after_take_cases windows s t with ⟨hno, h'⟩ | ⟨b, hcost, hwrite, hyes, h'⟩
  · exact .inl ⟨hno, by rw [h']⟩
  · exact .inr ⟨b, hcost, hwrite, hyes, by rw [h', Function.update_self]⟩

/-- Every bucket is sound. -/
def AllSound (s : Buckets) : Prop := ∀ key b, s key = some b → Sound (windows key) b

variable {windows}

theorem AllSound.after (h : AllSound windows s) (e : Event) : AllSound windows (after windows s e) := by
  intro key b hb
  cases e with
  | take t =>
    by_cases hkey : t.key = key
    · rcases after_take_same windows s hkey with ⟨-, h'⟩ | ⟨b', hcost, hwrite, -, h'⟩
      · exact h key b (h' ▸ hb)
      · rw [h'] at hb
        cases hb
        exact write_sound (h key) hcost hwrite
    · exact h key b (after_take_other windows s hkey ▸ hb)
  | purge now => exact h key b (Option.filter_eq_some_iff.mp hb).1

theorem AllSound.run (h : AllSound windows s) (events : List Event) : AllSound windows (run windows s events) := by
  induction events generalizing s with
  | nil => exact h
  | cons e events ih => exact ih (h.after e)

theorem allSound_empty : AllSound windows empty := fun _ _ h => by cases h

end

/-! ## A stretch of takes -/

section

variable (windows : String → Window) (key : String)

/-- The cost that a stretch of takes is allowed on a key. -/
def spent : Buckets → List Take → ℚ
  | _, [] => 0
  | s, t :: takes =>
    (if t.key = key ∧ isAllowed (decision windows s t) = true then t.cost else 0) + spent (after windows s (.take t)) takes

/-- The first `updated_at` that the bucket has over a stretch of takes. -/
def firstUpdatedAt : Buckets → List Take → Option ℚ
  | s, [] => (s key).map Bucket.updatedAt
  | s, t :: takes => ((s key).map Bucket.updatedAt).or (firstUpdatedAt (after windows s (.take t)) takes)

/-- The table after these takes. -/
def runTakes (s : Buckets) (takes : List Take) : Buckets := run windows s (takes.map .take)

/-- The growth of `updated_at` over a stretch of takes. -/
def growth (s : Buckets) (takes : List Take) : ℚ :=
  ((runTakes windows s takes key).map Bucket.updatedAt).getD 0 - (firstUpdatedAt windows key s takes).getD 0

variable {windows} {key} {s : Buckets} {b : Bucket}

variable (windows) in
/-- **A stretch that starts with a bucket**: what it is allowed is paid by the bucket and the refill. -/
theorem spent_of_bucket (hs : s key = some b) (takes : List Take) :
    ∃ b', runTakes windows s takes key = some b' ∧ b.updatedAt ≤ b'.updatedAt ∧
      spent windows key s takes + b'.tokens ≤
        b.tokens + (windows key).refillPerSecond * (b'.updatedAt - b.updatedAt) := by
  induction takes generalizing s b with
  | nil => exact ⟨b, hs, le_refl _, by rw [spent, sub_self, mul_zero, zero_add, add_zero]⟩
  | cons t takes ih =>
    have hkeep (hno : ¬(t.key = key ∧ isAllowed (decision windows s t) = true))
        (hsame : after windows s (.take t) key = s key) :
        ∃ b', runTakes windows s (t :: takes) key = some b' ∧ b.updatedAt ≤ b'.updatedAt ∧
          spent windows key s (t :: takes) + b'.tokens ≤
            b.tokens + (windows key).refillPerSecond * (b'.updatedAt - b.updatedAt) := by
      obtain ⟨b', hb', hle, hspent⟩ := ih (hsame.trans hs)
      exact ⟨b', hb', hle, by rwa [spent, if_neg hno, zero_add]⟩
    by_cases hkey : t.key = key
    · rcases after_take_same windows s hkey with ⟨hno, hsame⟩ | ⟨b₁, -, hwrite, hyes, hb₁⟩
      · exact hkeep (fun h => by rw [hno] at h; cases h.2) hsame
      · rw [hs] at hwrite
        obtain ⟨b', hb', hle, hspent⟩ := ih hb₁
        refine ⟨b', hb', (write_updatedAt hwrite).trans hle, ?_⟩
        have hpaid := upsert_balance hwrite
        rw [spent, if_pos ⟨hkey, hyes⟩]
        linarith
    · exact hkeep (fun h => hkey h.1) (after_take_other windows s hkey)

/-- **What a stretch of takes is allowed** is at most the capacity and the refill over the growth of `updated_at`. -/
theorem spent_le (h : AllSound windows s) (takes : List Take) :
    spent windows key s takes ≤
      (windows key).capacity + (windows key).refillPerSecond * growth windows key s takes := by
  induction takes generalizing s with
  | nil =>
    have hgrowth : growth windows key s [] = 0 := by
      unfold growth firstUpdatedAt
      exact sub_self _
    rw [hgrowth, mul_zero, add_zero]
    exact (windows key).capacity_pos.le
  | cons t takes ih =>
    cases hs : s key with
    | some b =>
      obtain ⟨b', hb', -, hspent⟩ := spent_of_bucket windows hs (t :: takes)
      have hgrowth : growth windows key s (t :: takes) = b'.updatedAt - b.updatedAt := by
        unfold growth firstUpdatedAt
        rw [hb', hs]
        rfl
      have hsound := h key b hs
      have hafter : Sound (windows key) b' := h.run _ key b' hb'
      rw [hgrowth]
      linarith [hsound.2, hafter.1]
    | none =>
      have hgrowth : growth windows key s (t :: takes) = growth windows key (after windows s (.take t)) takes := by
        unfold growth
        rw [firstUpdatedAt, hs]
        rfl
      rw [hgrowth]
      by_cases hkey : t.key = key
      · rcases after_take_same windows s hkey with ⟨hno, -⟩ | ⟨b₁, -, hwrite, hyes, hb₁⟩
        · rw [spent, if_neg (fun h => by rw [hno] at h; cases h.2), zero_add]
          exact ih (h.after _)
        · -- the take creates the bucket, full but for its cost
          obtain ⟨b', hb', -, hspent⟩ := spent_of_bucket windows hb₁ takes
          have hgrowth' : growth windows key (after windows s (.take t)) takes = b'.updatedAt - b₁.updatedAt := by
            unfold growth
            rw [hb']
            cases takes <;> rw [firstUpdatedAt, hb₁] <;> rfl
          have hpaid : t.cost + b₁.tokens = (windows key).capacity := by
            rw [hs, write_none] at hwrite
            split at hwrite
            · cases hwrite
              exact add_sub_cancel _ _
            · cases hwrite
          have hafter : Sound (windows key) b' := (h.after _).run _ key b' hb'
          rw [spent, if_pos ⟨hkey, hyes⟩, hgrowth']
          linarith [hafter.1]
      · rw [spent, if_neg (fun h => hkey h.1), zero_add]
        exact ih (h.after _)

end

/-! ## The purge -/

section

variable (windows : String → Window) (key : String)

/-- The bucket of a run with purges beside that of the run without: the same, or deleted when it had been full again. -/
def Purged (now : ℚ) (s s' : Buckets) : Prop :=
  s key = s' key ∨
    s key = none ∧ ∃ b, s' key = some b ∧ Sound (windows key) b ∧ (windows key).fullRefill ≤ now - b.updatedAt

variable {windows} {key} {now now' : ℚ} {s s' : Buckets} {t : Take}

theorem Purged.later (h : Purged windows key now s s') (hle : now ≤ now') : Purged windows key now' s s' := by
  rcases h with h | ⟨hnone, b, hb, hsound, hidle⟩
  · exact .inl h
  · exact .inr ⟨hnone, b, hb, hsound, by linarith⟩

theorem write_of_idle {w : Window} {b : Bucket} (cost : ℚ) (h : Sound w b)
    (hidle : w.fullRefill ≤ now - b.updatedAt) :
    write w cost now (some b) = write w cost now none ∧
      available w.capacity w.refillPerSecond now (some b) = available w.capacity w.refillPerSecond now none := by
  have hlevel := level_of_idle h hidle
  have hsince : b.updatedAt ≤ now := by
    have hpos : 0 < w.fullRefill := div_pos w.capacity_pos w.refill_pos
    linarith
  refine ⟨?_, ?_⟩
  · simp only [write_some, write_none, hlevel, and_self, max_eq_right hsince]
  · rw [available_some, available_none, hlevel]

theorem Purged.write_eq (h : Purged windows key now s s') (cost : ℚ) :
    write (windows key) cost now (s key) = write (windows key) cost now (s' key) ∧
      available (windows key).capacity (windows key).refillPerSecond now (s key) =
        available (windows key).capacity (windows key).refillPerSecond now (s' key) := by
  rcases h with h | ⟨hnone, b, hb, hsound, hidle⟩
  · rw [h]
    exact ⟨rfl, rfl⟩
  · obtain ⟨hwrite, havailable⟩ := write_of_idle cost hsound hidle
    rw [hnone, hb]
    exact ⟨hwrite.symm, havailable.symm⟩

/-- **A take decides the same** with the bucket deleted. -/
theorem Purged.decision (h : Purged windows key t.now s s') (hkey : t.key = key) :
    decision windows s t = decision windows s' t ∧
      Purged windows key t.now (after windows s (.take t)) (after windows s' (.take t)) := by
  subst hkey
  obtain ⟨hwrite, havailable⟩ := h.write_eq t.cost
  have hdecision : decision windows s t = decision windows s' t := by
    unfold RateLimit.decision taken sysRateLimitTake
    unfold write at hwrite
    rw [hwrite, havailable]
    split
    · rfl
    · split <;> rfl
  refine ⟨hdecision, ?_⟩
  rcases after_take_same windows s rfl with ⟨hno, hsame⟩ | ⟨b, -, hb, hyes, hafter⟩ <;>
    rcases after_take_same windows s' rfl with ⟨hno', hsame'⟩ | ⟨b', -, hb', hyes', hafter'⟩
  · rcases h with h | ⟨hnone, b, hb, hrest⟩
    · exact .inl (hsame.trans (h.trans hsame'.symm))
    · exact .inr ⟨hsame.trans hnone, b, hsame'.trans hb, hrest⟩
  · rw [hdecision, hyes'] at hno
    cases hno
  · rw [hdecision, hno'] at hyes
    cases hyes
  · rw [hwrite, hb'] at hb
    exact .inl (hafter.trans (hb.symm.trans hafter'.symm))

theorem Purged.other (h : Purged windows key now s s') (hkey : t.key ≠ key) :
    Purged windows key now (after windows s (.take t)) (after windows s' (.take t)) := by
  unfold Purged
  rw [after_take_other windows s hkey, after_take_other windows s' hkey]
  exact h

theorem Purged.purge (h : Purged windows key now s s') (hsound : AllSound windows s)
    (hrefill : (windows key).fullRefill ≤ purgeAge) : Purged windows key now (sysRateLimitPurge s now) s' := by
  have hfilter : sysRateLimitPurge s now key = (s key).filter fun b => !decide (b.updatedAt < now - purgeAge) := rfl
  rcases h with h | ⟨hnone, hrest⟩
  · cases hs : s key with
    | none =>
      rw [hs] at hfilter
      exact .inl (hfilter.trans (hs.symm.trans h))
    | some b =>
      rw [hs, Option.filter_some] at hfilter
      split at hfilter
      · exact .inl (hfilter.trans (hs.symm.trans h))
      · rename_i hidle
        simp only [Bool.not_eq_true', decide_eq_false_iff_not, not_not] at hidle
        exact .inr ⟨hfilter, b, h.symm.trans hs, hsound key b hs, by linarith [hidle]⟩
  · rw [hnone] at hfilter
    exact .inr ⟨hfilter, hrest⟩

/-- The takes among these events. -/
def takesOf : List Event → List Event
  | [] => []
  | .take t :: events => .take t :: takesOf events
  | .purge _ :: events => takesOf events

/-- The purges of a run with clock readings that do not go back change no decision. -/
theorem Purged.decisions (h : Purged windows key now s s') (hsound : AllSound windows s)
    (hrefill : (windows key).fullRefill ≤ purgeAge) (events : List Event)
    (hclock : (events.map Event.now).Pairwise (· ≤ ·)) (hnow : ∀ e ∈ events, now ≤ e.now) :
    decisions windows key s events = decisions windows key s' (takesOf events) := by
  induction events generalizing s s' now with
  | nil => rfl
  | cons e events ih =>
    rw [List.map_cons, List.pairwise_cons] at hclock
    have hnext : ∀ e' ∈ events, e.now ≤ e'.now := fun e' he' => hclock.1 _ (List.mem_map_of_mem he')
    have hnow' := Purged.later h (hnow e List.mem_cons_self)
    cases e with
    | take t =>
      rw [takesOf, RateLimit.decisions, RateLimit.decisions]
      by_cases hkey : t.key = key
      · obtain ⟨hdecision, hpurged⟩ := Purged.decision hnow' hkey
        rw [if_pos hkey, if_pos hkey, hdecision]
        exact congrArg _ (ih hpurged (hsound.after _) hclock.2 hnext)
      · rw [if_neg hkey, if_neg hkey]
        exact ih (Purged.other hnow' hkey) (hsound.after _) hclock.2 hnext
    | purge at' =>
      rw [takesOf, RateLimit.decisions]
      exact ih (Purged.purge hnow' hsound hrefill) (hsound.after _) hclock.2 hnext

end

/-! ## Every run -/

/-- **The token buckets**: over every run of takes a bucket stays between empty and full, its `updated_at` does not go back,
a refused take changes nothing, a stretch is allowed at most the capacity and the refill over the growth of `updated_at`, and
a take of at most the capacity that is refused at a reading not before `updated_at` is allowed after its delay; the purge
changes no decision of a bucket that refills within the purge age. -/
theorem takes_bounded (windows : String → Window) (key : String) :
    (∀ takes b, runTakes windows empty takes key = some b → 0 ≤ b.tokens ∧ b.tokens ≤ (windows key).capacity) ∧
    (∀ takes t b, runTakes windows empty takes key = some b →
      ∃ b', after windows (runTakes windows empty takes) (.take t) key = some b' ∧ b.updatedAt ≤ b'.updatedAt) ∧
    (∀ takes t, isAllowed (decision windows (runTakes windows empty takes) t) = false →
      after windows (runTakes windows empty takes) (.take t) = runTakes windows empty takes) ∧
    (∀ takes stretch, spent windows key (runTakes windows empty takes) stretch ≤ (windows key).capacity +
      (windows key).refillPerSecond * growth windows key (runTakes windows empty takes) stretch) ∧
    (∀ takes t a delay, t.key = key → decision windows (runTakes windows empty takes) t = .ok a → a.allowed = false →
      t.cost ≤ (windows key).capacity → (∀ b, runTakes windows empty takes key = some b → b.updatedAt ≤ t.now) →
      a.retryAfterSeconds ≤ delay →
      isAllowed (decision windows (after windows (runTakes windows empty takes) (.take t))
        ⟨t.key, t.cost, t.now + delay⟩) = true) ∧
    (∀ events, (windows key).fullRefill ≤ purgeAge → (events.map Event.now).Pairwise (· ≤ ·) →
      decisions windows key empty events = decisions windows key empty (takesOf events)) := by
  have hsound (takes : List Take) : AllSound windows (runTakes windows empty takes) := allSound_empty.run _
  refine ⟨fun takes b hb => hsound takes key b hb, fun takes t b hb => ?_, fun takes t hno => ?_,
    fun takes stretch => spent_le (hsound takes) stretch, fun takes t a delay hkey ha hno hcost hclock hdelay => ?_,
    fun events hrefill hclock => ?_⟩
  · obtain ⟨b', hb', hle, -⟩ := spent_of_bucket windows hb [t]
    exact ⟨b', hb', hle⟩
  · rcases after_take_cases windows (runTakes windows empty takes) t with ⟨-, hsame⟩ | ⟨b, -, -, hyes, -⟩
    · exact hsame
    · rw [hno] at hyes
      cases hyes
  · subst hkey
    unfold decision at ha
    rcases taken_cases windows (runTakes windows empty takes) t with ⟨-, h⟩ | ⟨hvalid, -, h⟩ | ⟨b, -, -, h⟩
    · rw [h] at ha
      cases ha
    · rw [h] at ha
      cases ha
      have hsame : after windows (runTakes windows empty takes) (.take t) = runTakes windows empty takes := by
        simp only [after, h]
      rw [hsame]
      exact isAllowed_of_write windows hvalid (write_after_delay hcost hclock hdelay)
    · rw [h] at ha
      cases ha
      cases hno
  · cases events with
    | nil => rfl
    | cons e events =>
      have hsame : Purged windows key e.now empty empty := .inl rfl
      refine hsame.decisions allSound_empty hrefill _ hclock fun e' he' => ?_
      rcases List.mem_cons.mp he' with rfl | he'
      · exact le_refl _
      · exact (List.pairwise_cons.mp hclock).1 _ (List.mem_map_of_mem he')

/-! ## Delays that do not suffice -/

/-- One token, refilled every second. -/
def oneASecond : String → Window := fun _ => ⟨1, 1, one_pos, one_pos⟩

/-- The bounds at concrete takes: a second take waits its delay, and an hour later the purge goes unseen. -/
theorem takes_bounded_played :
    isAllowed (decision oneASecond (after oneASecond (runTakes oneASecond empty [⟨"login", 1, 0⟩])
      (.take ⟨"login", 1, 1 / 2⟩)) ⟨"login", 1, 1 / 2 + 1 / 2⟩) = true ∧
    decisions oneASecond "login" empty [.take ⟨"login", 1, 0⟩, .purge 3601, .take ⟨"login", 1, 3601⟩] =
      decisions oneASecond "login" empty [.take ⟨"login", 1, 0⟩, .take ⟨"login", 1, 3601⟩] := by
  refine ⟨?_, ?_⟩
  · refine (takes_bounded oneASecond "login").2.2.2.2.1 [⟨"login", 1, 0⟩] ⟨"login", 1, 1 / 2⟩ ⟨false, 1 / 2, 1 / 2⟩ (1 / 2) rfl
      (by decide +kernel) rfl (le_refl _) (fun b hb => ?_) (le_refl _)
    have hb' : runTakes oneASecond empty [⟨"login", 1, 0⟩] "login" = some ⟨0, 0⟩ := by decide +kernel
    rw [hb'] at hb
    cases hb
    decide +kernel
  · exact (takes_bounded oneASecond "login").2.2.2.2.2 [.take ⟨"login", 1, 0⟩, .purge 3601, .take ⟨"login", 1, 3601⟩]
      (by decide +kernel) (by decide +kernel)

/-- **Delays that do not suffice**: a take of more than the capacity is refused again, and so is one whose clock was
behind `updated_at`. -/
theorem refused_after_delay :
    (decision oneASecond empty ⟨"login", 2, 0⟩ = .ok ⟨false, 1, 1⟩ ∧
      isAllowed (decision oneASecond (after oneASecond empty (.take ⟨"login", 2, 0⟩)) ⟨"login", 2, 0 + 1⟩) = false) ∧
    (decision oneASecond (runTakes oneASecond empty [⟨"login", 1, 10⟩]) ⟨"login", 1, 0⟩ = .ok ⟨false, 0, 1⟩ ∧
      isAllowed (decision oneASecond (runTakes oneASecond empty [⟨"login", 1, 10⟩, ⟨"login", 1, 0⟩]) ⟨"login", 1, 0 + 1⟩) =
        false) := by
  decide +kernel

end SlugBase.RateLimit
