import Mathlib.Algebra.Order.Field.Basic
import Mathlib.Algebra.Order.Field.Rat
import Mathlib.Tactic.Linarith
import Mathlib.Tactic.FieldSimp
import Mathlib.Tactic.Ring

/-!
# The token buckets

`sys_rate_limit_take`, `sys_rate_limit_purge` and the limits of the registry that they are called with. Tokens and seconds
are exact rational numbers.

* `sysRateLimitTake`, `sysRateLimitPurge`: the functions, on the rows by their key;
* `parseSpec`, `RateLimitSpec.window`: a limit of the registry as a capacity and a refill;
  **`parseSpec_window`**: it is accepted by the function and refills from empty within an hour;
* `after`, `run`, `decisions`: serialized takes and purges, with a window for each key.
-/

namespace SlugBase.RateLimit

/-! ## The rows -/

/-- A row of `rate_limit_buckets`. -/
structure Bucket where
  tokens : ℚ
  updatedAt : ℚ
deriving DecidableEq

/-- The table by its key. -/
abbrev Buckets := String → Option Bucket

/-- The answer of a take. -/
structure Taken where
  allowed : Bool
  remaining : ℚ
  retryAfterSeconds : ℚ
deriving DecidableEq

/-! ## Taking tokens -/

/-- The bound the function puts on its arguments. -/
def accepted (value : ℚ) : Bool := decide (0 < value) && decide (value ≤ 1000000000)

def invalidTake : String := "sys_rate_limit_take needs a key and a capacity, refill and cost between 0 and 1e9"

/-- What a bucket holds at a reading of the clock. -/
def refilled (capacity refillPerSecond now : ℚ) (b : Bucket) : ℚ :=
  min capacity (b.tokens + refillPerSecond * max 0 (now - b.updatedAt))

/-- The row that the upsert returns; `none` when its conditions do not hold. -/
def upsert (capacity refillPerSecond cost now : ℚ) : Option Bucket → Option Bucket
  | none => if cost ≤ capacity then some ⟨capacity - cost, now⟩ else none
  | some b =>
    if cost ≤ capacity ∧ cost ≤ refilled capacity refillPerSecond now b then
      some ⟨refilled capacity refillPerSecond now b - cost, max b.updatedAt now⟩
    else none

/-- The balance that the second statement reads after a refusal. -/
def available (capacity refillPerSecond now : ℚ) (row : Option Bucket) : ℚ :=
  min capacity ((row.map fun b => b.tokens + refillPerSecond * max 0 (now - b.updatedAt)).getD capacity)

/-- `sys_rate_limit_take`, with one reading of the clock. -/
def sysRateLimitTake (s : Buckets) (key : String) (capacity refillPerSecond cost now : ℚ) :
    Except String (Taken × Buckets) :=
  if !(accepted capacity && accepted refillPerSecond && accepted cost) then .error invalidTake
  else
    match upsert capacity refillPerSecond cost now (s key) with
    | some b => .ok (⟨true, b.tokens, 0⟩, Function.update s key (some b))
    | none =>
      let left := available capacity refillPerSecond now (s key)
      .ok (⟨false, left, (cost - left) / refillPerSecond⟩, s)

/-- The age from which `sys_rate_limit_purge` deletes a bucket. -/
def purgeAge : ℚ := 3600

/-- `sys_rate_limit_purge`. -/
def sysRateLimitPurge (s : Buckets) (now : ℚ) : Buckets :=
  fun key => (s key).filter fun b => !decide (b.updatedAt < now - purgeAge)

/-! ## The limits -/

/-- The period of a limit. -/
inductive Period
  | sec
  | min
  | hour
deriving DecidableEq

/-- `PERIOD_SECONDS`. -/
def Period.seconds : Period → ℕ
  | .sec => 1
  | .min => 60
  | .hour => 3600

theorem Period.seconds_pos (p : Period) : 1 ≤ p.seconds := by
  cases p <;> decide

theorem Period.seconds_le (p : Period) : p.seconds ≤ 3600 := by
  cases p <;> decide

/-- A limit of the registry: that many tokens, refilled evenly over a window. -/
structure RateLimitSpec where
  count : ℕ
  windowSeconds : ℕ
  count_pos : 1 ≤ count
  window_pos : 1 ≤ windowSeconds
deriving DecidableEq

/-- What a bucket is taken from with. -/
structure Window where
  capacity : ℚ
  refillPerSecond : ℚ
  capacity_pos : 0 < capacity
  refill_pos : 0 < refillPerSecond

/-- The seconds that a bucket takes to refill from empty. -/
def Window.fullRefill (w : Window) : ℚ := w.capacity / w.refillPerSecond

/-- `window` of the registry. -/
def RateLimitSpec.window (spec : RateLimitSpec) : Window where
  capacity := spec.count
  refillPerSecond := spec.count / spec.windowSeconds
  capacity_pos := by exact_mod_cast spec.count_pos
  refill_pos := by
    have h1 : (0 : ℚ) < spec.count := by exact_mod_cast spec.count_pos
    have h2 : (0 : ℚ) < spec.windowSeconds := by exact_mod_cast spec.window_pos
    exact div_pos h1 h2

def periodOf : List Char → Option Period
  | ['s', 'e', 'c'] => some .sec
  | ['m', 'i', 'n'] => some .min
  | ['h', 'o', 'u', 'r'] => some .hour
  | _ => none

/-- The value of a digit. -/
def digit (c : Char) : ℕ := c.toNat - 48

def isDigit (c : Char) : Bool := decide ('0' ≤ c) && decide (c ≤ '9')

/-- `Number` of a text of digits. -/
def number (digits : List Char) : ℕ := digits.foldl (fun n c => 10 * n + digit c) 0

/-- `parseSpec`: up to seven digits, a slash and a period, with a count of at least one. -/
def parseSpec (value : String) : Option RateLimitSpec :=
  let digits := value.toList.takeWhile isDigit
  match value.toList.dropWhile isDigit with
  | '/' :: unit =>
    if 1 ≤ digits.length ∧ digits.length ≤ 7 then
      (periodOf unit).bind fun period =>
        if h : 1 ≤ number digits then some ⟨number digits, period.seconds, h, period.seconds_pos⟩ else none
    else none
  | _ => none

example : (parseSpec "20/hour").map (fun s => (s.count, s.windowSeconds)) = some (20, 3600) := by decide +kernel

example : (parseSpec "0/min").isNone := by decide +kernel

theorem digit_le {c : Char} (h : isDigit c = true) : digit c ≤ 9 := by
  simp only [isDigit, Bool.and_eq_true, decide_eq_true_eq] at h
  have hc : c.toNat ≤ 57 := h.2
  unfold digit
  omega

theorem foldl_digits_lt {digits : List Char} (h : ∀ c ∈ digits, isDigit c = true) (n : ℕ) :
    digits.foldl (fun n c => 10 * n + digit c) n < (n + 1) * 10 ^ digits.length := by
  induction digits generalizing n with
  | nil => simp
  | cons c digits ih =>
    have hc := digit_le (h c List.mem_cons_self)
    have hrest := ih (fun d hd => h d (List.mem_cons_of_mem _ hd)) (10 * n + digit c)
    rw [List.foldl_cons, List.length_cons, pow_succ]
    calc _ < (10 * n + digit c + 1) * 10 ^ digits.length := hrest
      _ ≤ (10 * (n + 1)) * 10 ^ digits.length := Nat.mul_le_mul_right _ (by omega)
      _ = (n + 1) * (10 ^ digits.length * 10) := by ring

theorem number_takeWhile_le {text : List Char} (h : (text.takeWhile isDigit).length ≤ 7) :
    number (text.takeWhile isDigit) ≤ 9999999 := by
  have hdigits : ∀ c ∈ text.takeWhile isDigit, isDigit c = true :=
    List.all_eq_true.mp (List.all_takeWhile ..)
  have hlt : number (text.takeWhile isDigit) < (0 + 1) * 10 ^ (text.takeWhile isDigit).length := foldl_digits_lt hdigits 0
  have hpow : 10 ^ (text.takeWhile isDigit).length ≤ 10 ^ 7 := Nat.pow_le_pow_right (by omega) h
  omega

theorem fullRefill_window (spec : RateLimitSpec) : spec.window.fullRefill = spec.windowSeconds := by
  have h1 : (spec.count : ℚ) ≠ 0 := by exact_mod_cast (Nat.lt_of_lt_of_le Nat.one_pos spec.count_pos).ne'
  have h2 : (spec.windowSeconds : ℚ) ≠ 0 := by exact_mod_cast (Nat.lt_of_lt_of_le Nat.one_pos spec.window_pos).ne'
  unfold Window.fullRefill RateLimitSpec.window
  field_simp

/-- **A limit that the registry takes from the environment is one the function takes, and refills within the purge age.** -/
theorem parseSpec_window {value : String} {spec : RateLimitSpec} (h : parseSpec value = some spec) :
    accepted spec.window.capacity = true ∧ accepted spec.window.refillPerSecond = true ∧
      spec.window.fullRefill ≤ purgeAge := by
  have hbound : spec.count ≤ 9999999 ∧ spec.windowSeconds ≤ 3600 := by
    unfold parseSpec at h
    simp only at h
    split at h
    · split at h
      · rename_i hlength
        obtain ⟨period, -, h⟩ := Option.bind_eq_some_iff.mp h
        split at h
        · cases h
          exact ⟨number_takeWhile_le hlength.2, period.seconds_le⟩
        · cases h
      · cases h
    · cases h
  have hcount : (spec.count : ℚ) ≤ 9999999 := by exact_mod_cast hbound.1
  have hone : (1 : ℚ) ≤ spec.windowSeconds := by exact_mod_cast spec.window_pos
  have hcapacity : spec.window.capacity = spec.count := rfl
  have hslow : spec.window.refillPerSecond ≤ spec.count := div_le_self spec.window.capacity_pos.le hone
  refine ⟨?_, ?_, ?_⟩
  · exact Bool.and_eq_true_iff.mpr ⟨decide_eq_true spec.window.capacity_pos, decide_eq_true (by linarith)⟩
  · exact Bool.and_eq_true_iff.mpr ⟨decide_eq_true spec.window.refill_pos, decide_eq_true (by linarith)⟩
  · rw [fullRefill_window, purgeAge]
    exact_mod_cast hbound.2

/-! ## Runs -/

/-- A take of one key. -/
structure Take where
  key : String
  cost : ℚ
  now : ℚ
deriving DecidableEq

/-- What happens to the table, with the reading of the clock. -/
inductive Event
  | take (t : Take)
  | purge (now : ℚ)

def Event.now : Event → ℚ
  | .take t => t.now
  | .purge now => now

variable (windows : String → Window)

/-- A take with the window of its key. -/
def taken (s : Buckets) (t : Take) : Except String (Taken × Buckets) :=
  sysRateLimitTake s t.key (windows t.key).capacity (windows t.key).refillPerSecond t.cost t.now

/-- The table after an event; a take that raises an exception is rolled back. -/
def after (s : Buckets) : Event → Buckets
  | .take t =>
    match taken windows s t with
    | .ok (_, s') => s'
    | .error _ => s
  | .purge now => sysRateLimitPurge s now

/-- The answer of a take. -/
def decision (s : Buckets) (t : Take) : Except String Taken := (taken windows s t).map Prod.fst

/-- The table after these events. -/
def run (s : Buckets) (events : List Event) : Buckets := events.foldl (after windows) s

/-- The answers of the takes of a key. -/
def decisions (key : String) : Buckets → List Event → List (Except String Taken)
  | _, [] => []
  | s, .take t :: events =>
    if t.key = key then decision windows s t :: decisions key (after windows s (.take t)) events
    else decisions key (after windows s (.take t)) events
  | s, .purge now :: events => decisions key (after windows s (.purge now)) events

/-- The table before the first take. -/
def empty : Buckets := fun _ => none

end SlugBase.RateLimit
