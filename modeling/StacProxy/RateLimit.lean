import Mathlib.Algebra.BigOperators.Ring.Finset
import Mathlib.Algebra.Order.Floor.Ring
import Mathlib.Data.Rat.Floor
import Mathlib.Tactic.FieldSimp
import Mathlib.Tactic.IntervalCases
import Mathlib.Tactic.Linarith
import Mathlib.Tactic.Ring
import StacProxy.Transcript

/-!
# The shared rate limiter

One bucket is a hash with the tokens left and the time of the last refill. The script that
decides a request runs atomically in the store, with the clock of the replica that called it,
so the times of consecutive executions need not increase. The bound on what a block of calls
admits comes from one potential: the tokens of the bucket less what its clock has earned.

Numbers are exact here; the script computes with floating-point ones.
-/

namespace RateLimit

/-- What `HMGET` finds under the key of a bucket. -/
structure Bucket where
  tokens : Option ℚ
  ts : Option ℚ
deriving DecidableEq

def absent : Bucket := ⟨none, none⟩

structure Args where
  rate : ℚ
  burst : ℚ
  now : ℚ
  cost : ℚ

structure Reply where
  allowed : ℕ
  pre : ℚ
  retryMs : ℤ
deriving DecidableEq

/-- The hash after the script, the time to live it was given, and the reply. -/
structure Executed where
  bucket : Bucket
  expireMs : ℤ
  reply : Reply
deriving DecidableEq

/-- The two numbers the script computes with. -/
structure Level where
  tokens : ℚ
  ts : ℚ
deriving DecidableEq

/-- A bucket that misses a field starts full, at the time of the call. -/
def load (args : Args) (b : Bucket) : Level :=
  match b.tokens, b.ts with
  | some tokens, some ts => ⟨tokens, ts⟩
  | _, _ => ⟨args.burst, args.now⟩

def refill (args : Args) (level : Level) : Level :=
  if level.ts < args.now then
    ⟨min args.burst (level.tokens + (args.now - level.ts) / 1000 * args.rate), args.now⟩
  else level

def expireMs (args : Args) : ℤ := ⌈args.burst / args.rate * 1000⌉ * 2

def spend (args : Args) (level : Level) : Executed :=
  if args.cost ≤ level.tokens then
    ⟨⟨some (level.tokens - args.cost), some level.ts⟩, expireMs args, ⟨1, level.tokens, 0⟩⟩
  else
    ⟨⟨some level.tokens, some level.ts⟩, expireMs args,
      ⟨0, level.tokens, ⌈(args.cost - level.tokens) / args.rate * 1000⌉⟩⟩

def tokenBucketScript (args : Args) (b : Bucket) : Executed :=
  spend args (refill args (load args b))

/-! ## Requests -/

/-- The window is in nanoseconds. -/
structure Quota where
  requests : ℤ
  window : ℤ
  burst : ℤ

structure Info where
  limit : ℤ
  remaining : ℤ
  resetAt : ℤ
  retryAfter : ℤ
deriving DecidableEq

def Quota.seconds (quota : Quota) : ℚ := quota.window / 1000000000

def Quota.ratePerSec (quota : Quota) : ℚ := quota.requests / quota.seconds

def Quota.capacity (quota : Quota) : ℤ :=
  if quota.burst = 0 then quota.requests else quota.burst

/-- In nanoseconds, as `now`. -/
def resetAt (now : ℤ) (tokens burst : ℚ) (quota : Quota) : ℤ :=
  if burst ≤ tokens ∨ quota.requests ≤ 0 ∨ quota.window ≤ 0 then now
  else
    let tokens := if tokens < 0 then 0 else tokens
    if quota.ratePerSec ≤ 0 then now
    else now + ⌊(burst - tokens) / quota.ratePerSec * 1000000000⌋

def Quota.args (quota : Quota) (now : ℤ) : Args :=
  ⟨quota.ratePerSec, quota.capacity, (now / 1000000 : ℤ), 1⟩

/-- What `Allow` tells its caller of a reply. -/
def Quota.info (quota : Quota) (now : ℤ) (reply : Reply) : Info where
  limit := quota.requests
  remaining := max 0 ⌊reply.pre⌋
  resetAt := resetAt now reply.pre quota.capacity quota / 1000000000
  retryAfter := if reply.allowed = 1 then 0 else max 1 ⌈(reply.retryMs : ℚ) / 1000⌉

/-- A request on a bucket the store answers for. A quota that admits nothing does not reach
the store. -/
def allow (quota : Quota) (now : ℤ) (b : Bucket) : Bucket × Bool × Info :=
  if quota.requests ≤ 0 ∨ quota.window ≤ 0 then (b, false, ⟨quota.requests, 0, 0, 1⟩)
  else
    let executed := tokenBucketScript (quota.args now) b
    (executed.bucket, executed.reply.allowed = 1, quota.info now executed.reply)

/-! ## One execution -/

section Execution
variable {args : Args} {level : Level}

theorem refill_tokens_le (within : level.tokens ≤ args.burst) :
    (refill args level).tokens ≤ args.burst := by
  unfold refill
  split
  · exact min_le_left _ _
  · exact within

theorem le_refill_tokens (rate_nonneg : 0 ≤ args.rate) (within : level.tokens ≤ args.burst) :
    level.tokens ≤ (refill args level).tokens := by
  unfold refill
  split
  · rename_i later
    have earned : 0 ≤ (args.now - level.ts) / 1000 * args.rate := by
      apply mul_nonneg _ rate_nonneg
      linarith
    exact le_min within (by linarith)
  · exact le_rfl

theorem refill_ts : (refill args level).ts = max level.ts args.now := by
  unfold refill
  split
  · rename_i later
    exact (max_eq_right later.le).symm
  · rename_i early
    exact (max_eq_left (not_lt.mp early)).symm

/-- The tokens of a bucket less what its clock has earned. -/
def Level.potential (rate : ℚ) (level : Level) : ℚ := level.tokens - rate * level.ts / 1000

/-- A refill adds no more than its clock earned. -/
theorem refill_potential_le :
    (refill args level).potential args.rate ≤ level.potential args.rate := by
  unfold refill
  split
  · have capped := min_le_right args.burst
      (level.tokens + (args.now - level.ts) / 1000 * args.rate)
    simp only [Level.potential]
    linarith
  · exact le_rfl

/-- A bucket that was left alone until it is full again answers like one that is absent, so
the time to live of the key does not show. -/
theorem script_idle {ts tokens : ℚ} (rate_pos : 0 < args.rate) (burst_pos : 0 < args.burst)
    (nonneg : 0 ≤ tokens) (idle : ts + expireMs args ≤ args.now) :
    tokenBucketScript args ⟨some tokens, some ts⟩ = tokenBucketScript args absent := by
  have full : 0 < args.burst / args.rate * 1000 := by positivity
  have lived : args.burst / args.rate * 1000 * 2 ≤ expireMs args := by
    unfold expireMs
    push_cast
    linarith [Int.le_ceil (args.burst / args.rate * 1000)]
  have later : ts < args.now := by linarith
  have earned : args.burst ≤ (args.now - ts) / 1000 * args.rate :=
    calc args.burst = args.burst / args.rate * 1000 / 1000 * args.rate := by field_simp
      _ ≤ (args.now - ts) / 1000 * args.rate := by
        gcongr
        linarith
  have capped : min args.burst (tokens + (args.now - ts) / 1000 * args.rate) = args.burst :=
    min_eq_left (by linarith)
  simp [tokenBucketScript, load, refill, absent, later, capped]

end Execution

/-! ## Calls on one key -/

section Calls
variable (rate : ℚ) (burst : ℕ)

/-- The script as `Allow` calls it, at cost one. -/
def call (b : Bucket) (now : ℚ) : Bucket × Reply :=
  let executed := tokenBucketScript ⟨rate, burst, now, 1⟩ b
  (executed.bucket, executed.reply)

def after (calls : List ℚ) : Bucket := Transcript.final (call rate burst) absent calls

/-- How many calls of a block are allowed that starts on a bucket. -/
def allowedFrom (b : Bucket) (block : List ℚ) : ℕ :=
  ((Transcript.replies (call rate burst) b block).map Reply.allowed).sum

/-- A bucket in the store, with its tokens between none and the burst. -/
inductive Stored (burst : ℕ) : Bucket → Prop
  | mk (level : Level) (nonneg : 0 ≤ level.tokens) (le_burst : level.tokens ≤ burst) :
      Stored burst ⟨some level.tokens, some level.ts⟩

variable {rate burst}

/-- What a call on a stored bucket does: the tokens stay within bounds, the clock does not run
back, and what is admitted is paid by the tokens or earned by the clock. -/
theorem call_stored (rate_nonneg : 0 ≤ rate) {level : Level} (nonneg : 0 ≤ level.tokens)
    (le_burst : level.tokens ≤ burst) (now : ℚ) :
    ∃ (left : Level) (reply : Reply),
      call rate burst ⟨some level.tokens, some level.ts⟩ now =
        (⟨some left.tokens, some left.ts⟩, reply) ∧
      0 ≤ left.tokens ∧ left.tokens ≤ burst ∧ left.ts = max level.ts now ∧
      reply.allowed + left.potential rate ≤ level.potential rate := by
  let args : Args := ⟨rate, burst, now, 1⟩
  have capped : (refill args level).tokens ≤ burst := refill_tokens_le le_burst
  have grown : level.tokens ≤ (refill args level).tokens := le_refill_tokens rate_nonneg le_burst
  have clocked : (refill args level).ts = max level.ts now := refill_ts
  have earned : (refill args level).potential rate ≤ level.potential rate := refill_potential_le
  have called : call rate burst ⟨some level.tokens, some level.ts⟩ now =
      ((spend args (refill args level)).bucket, (spend args (refill args level)).reply) := rfl
  by_cases enough : args.cost ≤ (refill args level).tokens
  · refine ⟨⟨(refill args level).tokens - 1, (refill args level).ts⟩, _,
      by rw [called, spend, if_pos enough], sub_nonneg.mpr enough, ?_, clocked, ?_⟩
    · exact (sub_le_self _ zero_le_one).trans capped
    · simp only [Level.potential] at earned ⊢
      push_cast
      linarith
  · refine ⟨refill args level, _, by rw [called, spend, if_neg enough], nonneg.trans grown,
      capped, clocked, ?_⟩
    push_cast
    linarith

theorem Stored.full (now : ℚ) : Stored burst ⟨some burst, some now⟩ :=
  .mk ⟨burst, now⟩ (Nat.cast_nonneg burst) le_rfl

theorem Stored.call (rate_nonneg : 0 ≤ rate) {b : Bucket} (now : ℚ) (stored : Stored burst b) :
    Stored burst (call rate burst b now).1 := by
  obtain ⟨level, nonneg, le_burst⟩ := stored
  obtain ⟨left, reply, called, left_nonneg, left_le, -⟩ :=
    call_stored rate_nonneg nonneg le_burst now
  rw [called]
  exact .mk left left_nonneg left_le

/-- An absent bucket behaves as a full one whose clock is that of the first call. -/
theorem after_cons (now : ℚ) (calls : List ℚ) :
    after rate burst (now :: calls) =
      Transcript.final (call rate burst) ⟨some burst, some now⟩ (now :: calls) := rfl

theorem allowedFrom_absent (now : ℚ) (rest : List ℚ) :
    allowedFrom rate burst absent (now :: rest) =
      allowedFrom rate burst ⟨some burst, some now⟩ (now :: rest) := rfl

/-- After at least one call the bucket is stored. -/
theorem stored_after (rate_nonneg : 0 ≤ rate) (now : ℚ) (calls : List ℚ) :
    Stored burst (after rate burst (now :: calls)) := by
  rw [after_cons]
  exact Transcript.invariant (fun _ => Stored.call rate_nonneg) (Stored.full now) _

theorem Stored.ts_le_call (rate_nonneg : 0 ≤ rate) {b : Bucket} {t : ℚ} (now : ℚ)
    (stored : Stored burst b) (clock : b.ts = some t) :
    ∃ t', (RateLimit.call rate burst b now).1.ts = some t' ∧ t ≤ t' := by
  obtain ⟨level, nonneg, le_burst⟩ := stored
  cases clock
  obtain ⟨left, reply, called, -, -, clocked, -⟩ := call_stored rate_nonneg nonneg le_burst now
  rw [called]
  exact ⟨left.ts, rfl, clocked ▸ le_max_left level.ts now⟩

/-- Once a bucket is stored its clock does not run back. -/
theorem Stored.ts_le_final (rate_nonneg : 0 ≤ rate) {b : Bucket} {t : ℚ} (stored : Stored burst b)
    (clock : b.ts = some t) (block : List ℚ) :
    ∃ t', (Transcript.final (RateLimit.call rate burst) b block).ts = some t' ∧ t ≤ t' := by
  induction block generalizing b t with
  | nil => exact ⟨t, clock, le_rfl⟩
  | cons now rest ih =>
    obtain ⟨mid, mid_clock, le_mid⟩ := stored.ts_le_call rate_nonneg now clock
    obtain ⟨t', last, le⟩ := ih (stored.call rate_nonneg now) mid_clock
    exact ⟨t', last, le_mid.trans le⟩

/-- What a bucket in the store could still admit, less what its clock has earned. -/
def potential (rate : ℚ) (b : Bucket) : ℚ := b.tokens.getD 0 - rate * b.ts.getD 0 / 1000

theorem Stored.paid (rate_nonneg : 0 ≤ rate) {b : Bucket} (now : ℚ) (stored : Stored burst b) :
    ((RateLimit.call rate burst b now).2.allowed : ℚ) +
      potential rate (RateLimit.call rate burst b now).1 ≤ potential rate b := by
  obtain ⟨level, nonneg, le_burst⟩ := stored
  obtain ⟨left, reply, called, -, -, -, paid⟩ := call_stored rate_nonneg nonneg le_burst now
  rw [called]
  exact paid

/-- A block on a stored bucket admits at most the burst and what the clock earned meanwhile. -/
theorem Stored.allowedFrom_le (rate_nonneg : 0 ≤ rate) {b : Bucket} {t t' : ℚ}
    (stored : Stored burst b) (clock : b.ts = some t) (block : List ℚ)
    (last : (Transcript.final (RateLimit.call rate burst) b block).ts = some t') :
    (allowedFrom rate burst b block : ℚ) ≤ burst + rate * (t' - t) / 1000 := by
  have counted : ((Transcript.replies (RateLimit.call rate burst) b block).map
      fun reply => (reply.allowed : ℚ)).sum = allowedFrom rate burst b block := by
    simp [allowedFrom, Nat.cast_list_sum, Function.comp_def]
  have spent : (allowedFrom rate burst b block : ℚ) +
      potential rate (Transcript.final (RateLimit.call rate burst) b block) ≤ potential rate b := by
    rw [← counted]
    exact Transcript.cost_le (fun _ => Stored.call rate_nonneg)
      (fun _ => Stored.paid rate_nonneg) stored block
  have ended : Stored burst (Transcript.final (RateLimit.call rate burst) b block) :=
    Transcript.invariant (fun _ => Stored.call rate_nonneg) stored block
  generalize Transcript.final (RateLimit.call rate burst) b block = b' at spent ended last
  obtain ⟨level, -, le_burst⟩ := stored
  obtain ⟨left, left_nonneg, -⟩ := ended
  cases clock
  cases last
  simp only [potential, Option.getD_some] at spent
  linarith

variable (rate burst)

/-- The clock from which a block on a bucket counts: a block that finds no bucket counts from
its first call. -/
def startTs (b : Bucket) (block : List ℚ) : Option ℚ := b.ts <|> block.head?

/-- At every moment of every run the tokens of the bucket lie between none and the burst, its
clock never runs back, and a block of calls admits at most the burst and what the clock earned
from before the block to its end. -/
theorem admission_bounded (rate_pos : 0 < rate) (calls block : List ℚ) :
    (∀ tokens, (after rate burst calls).tokens = some tokens → 0 ≤ tokens ∧ tokens ≤ burst) ∧
    (∀ t, (after rate burst calls).ts = some t →
      ∃ t', (after rate burst (calls ++ block)).ts = some t' ∧ t ≤ t') ∧
    (∀ t t', startTs (after rate burst calls) block = some t →
      (after rate burst (calls ++ block)).ts = some t' →
      (allowedFrom rate burst (after rate burst calls) block : ℚ) ≤
        burst + rate * (t' - t) / 1000) := by
  cases calls with
  | nil =>
    refine ⟨nofun, nofun, ?_⟩
    intro t t' start last
    cases block with
    | nil => cases start
    | cons now rest =>
      obtain rfl : now = t := Option.some.inj start
      rw [List.nil_append, after_cons] at last
      change (allowedFrom rate burst absent (now :: rest) : ℚ) ≤ _
      rw [allowedFrom_absent]
      exact (Stored.full now).allowedFrom_le rate_pos.le rfl (now :: rest) last
  | cons now rest =>
    have stored : Stored burst (after rate burst (now :: rest)) :=
      stored_after rate_pos.le now rest
    have continued : after rate burst (now :: rest ++ block) =
        Transcript.final (call rate burst) (after rate burst (now :: rest)) block :=
      Transcript.final_append _ _ _ _
    rw [continued]
    generalize after rate burst (now :: rest) = b at stored
    refine ⟨?_, ?_, ?_⟩
    · intro tokens held
      obtain ⟨level, nonneg, le_burst⟩ := stored
      cases held
      exact ⟨nonneg, le_burst⟩
    · intro t clock
      exact stored.ts_le_final rate_pos.le clock block
    · intro t t' start last
      have clock : b.ts = some t := by
        obtain ⟨level, -, -⟩ := stored
        exact start
      exact stored.allowedFrom_le rate_pos.le clock block last

/-- Two tokens a second and a burst of three: a call whose clock is behind takes the last token
and refills nothing. -/
theorem admission_bounded_replicas :
    (allowedFrom 2 3 (after 2 3 [5000, 5000]) [4000, 5000, 5500] : ℚ) ≤
      (3 : ℕ) + 2 * (5500 - 5000) / 1000 :=
  (admission_bounded 2 3 (by decide) [5000, 5000] [4000, 5000, 5500]).2.2 5000 5500
    (by decide +kernel) (by decide +kernel)

end Calls

/-- The bound is met: a full bucket admits its burst at once. -/
example : allowedFrom 2 3 absent [5000, 5000, 4000, 5000] = 3 := by decide +kernel

/-! ## Requests on one key -/

section Requests
variable {quota : Quota}

/-- The decisions on requests of one key at the given times, in nanoseconds. -/
def decisions (quota : Quota) : Bucket → List ℤ → List Bool :=
  Transcript.replies fun b now => ((allow quota now b).1, (allow quota now b).2.1)

theorem allow_eq (requests_pos : 0 < quota.requests) (window_pos : 0 < quota.window) {burst : ℕ}
    (capacity : quota.capacity = burst) (now : ℤ) (b : Bucket) :
    (allow quota now b).1 = (call quota.ratePerSec burst b (now / 1000000 : ℤ)).1 ∧
      (allow quota now b).2.1 =
        decide ((call quota.ratePerSec burst b (now / 1000000 : ℤ)).2.allowed = 1) ∧
      (allow quota now b).2.2 =
        quota.info now (call quota.ratePerSec burst b (now / 1000000 : ℤ)).2 := by
  have reached : ¬ (quota.requests ≤ 0 ∨ quota.window ≤ 0) := by omega
  have same_args : quota.args now = ⟨quota.ratePerSec, burst, (now / 1000000 : ℤ), 1⟩ := by
    simp [Quota.args, capacity]
  rw [allow, if_neg reached, same_args]
  exact ⟨rfl, rfl, rfl⟩

theorem call_allowed_le_one (rate : ℚ) (burst : ℕ) (b : Bucket) (now : ℚ) :
    (call rate burst b now).2.allowed ≤ 1 := by
  simp only [call, tokenBucketScript, spend]
  split <;> simp

/-- A request is granted exactly when the script spends a token on it. -/
theorem count_decisions (requests_pos : 0 < quota.requests) (window_pos : 0 < quota.window)
    {burst : ℕ} (capacity : quota.capacity = burst) (b : Bucket) (times : List ℤ) :
    (decisions quota b times).count true =
      allowedFrom quota.ratePerSec burst b (times.map fun now => ((now / 1000000 : ℤ) : ℚ)) := by
  induction times generalizing b with
  | nil => rfl
  | cons now rest ih =>
    obtain ⟨same_bucket, same_decision, -⟩ := allow_eq requests_pos window_pos capacity now b
    have at_most_one := call_allowed_le_one quota.ratePerSec burst b (now / 1000000 : ℤ)
    have later := ih (allow quota now b).1
    simp only [decisions, allowedFrom, Transcript.replies, List.map_cons, List.sum_cons,
      List.count_cons, beq_true] at later ⊢
    rw [later, same_bucket, same_decision, add_comm]
    congr 1
    interval_cases (call quota.ratePerSec burst b (now / 1000000 : ℤ)).2.allowed <;> rfl

theorem ratePerSec_pos (requests_pos : 0 < quota.requests) (window_pos : 0 < quota.window) :
    0 < quota.ratePerSec := by
  have requests : (0 : ℚ) < quota.requests := by exact_mod_cast requests_pos
  have window : (0 : ℚ) < quota.window := by exact_mod_cast window_pos
  unfold Quota.ratePerSec Quota.seconds
  positivity

/-- A key is granted at most its capacity and what its quota earned since its first request. -/
theorem granted_le (requests_pos : 0 < quota.requests) (window_pos : 0 < quota.window)
    {burst : ℕ} (capacity : quota.capacity = burst) (first : ℤ) (times : List ℤ) {t : ℚ}
    (last : (after quota.ratePerSec burst
      ((first :: times).map fun now => ((now / 1000000 : ℤ) : ℚ))).ts = some t) :
    ((decisions quota absent (first :: times)).count true : ℚ) ≤
      burst + quota.ratePerSec * (t - (first / 1000000 : ℤ)) / 1000 := by
  have rate_nonneg := (ratePerSec_pos requests_pos window_pos).le
  rw [count_decisions requests_pos window_pos capacity, List.map_cons, allowedFrom_absent]
  rw [List.map_cons, after_cons] at last
  exact (Stored.full _).allowedFrom_le rate_nonneg rfl _ last

end Requests

end RateLimit
