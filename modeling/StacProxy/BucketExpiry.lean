import Mathlib.Data.List.Pairwise
import StacProxy.RateLimit

/-!
# Buckets that expire

The script gives the key of a bucket a time to live, twice what a refill from nothing takes, so
the store forgets buckets that are idle. A bucket that is forgotten is full at its next use, and
so is one that was kept that long. The same arithmetic makes the wait that a denial announces
long enough: by then the missing part of a token has been earned.
-/

namespace RateLimit

/-! ## A store that forgets -/

/-- Keys are gone at some time after their deadline, never before it. -/
structure Expiry where
  gone : (deadline now : ℚ) → Bool
  due : ∀ {deadline now}, gone deadline now → deadline ≤ now

/-- The key of a bucket while it is in the store. -/
structure Entry where
  bucket : Bucket
  deadline : ℚ

/-- One execution of the script. -/
structure Execution where
  now : ℚ
  cost : ℚ

section Stores
variable (rate : ℚ) (burst : ℕ)

def Execution.args (x : Execution) : Args := ⟨rate, burst, x.now, x.cost⟩

/-- What `HMGET` finds. -/
def Expiry.found (expiry : Expiry) (now : ℚ) : Option Entry → Bucket
  | none => absent
  | some entry => if expiry.gone entry.deadline now then absent else entry.bucket

/-- The script in a store that forgets, on the clock that calls it. -/
def executeExpiring (expiry : Expiry) (key : Option Entry) (x : Execution) :
    Option Entry × Reply :=
  let executed := tokenBucketScript (x.args rate burst) (expiry.found x.now key)
  (some ⟨executed.bucket, x.now + executed.expireMs⟩, executed.reply)

/-- The script in a store that keeps every bucket. -/
def execute (b : Bucket) (x : Execution) : Bucket × Reply :=
  let executed := tokenBucketScript (x.args rate burst) b
  (executed.bucket, executed.reply)

/-- A bucket that was used last at a time, and is not in debt. -/
def UsedAt (t : ℚ) (b : Bucket) : Prop :=
  ∃ tokens, 0 ≤ tokens ∧ b = ⟨some tokens, some t⟩

/-- The clock does not run back. -/
def Ordered (executions : List Execution) : Prop :=
  executions.Pairwise fun x y => x.now ≤ y.now

instance (executions : List Execution) : Decidable (Ordered executions) :=
  inferInstanceAs (Decidable (List.Pairwise _ _))

/-- The two stores hold the same bucket, the key lives as long as its last use says, and what
is still to be executed comes after it. -/
inductive SameBucket : Option Entry → Bucket → List Execution → Prop
  | fresh {rest : List Execution} (ordered : Ordered rest) : SameBucket none absent rest
  | used {t : ℚ} {b : Bucket} {rest : List Execution} (ordered : Ordered rest) (used : UsedAt t b)
      (later : ∀ x ∈ rest, t ≤ x.now) :
      SameBucket (some ⟨b, t + expireMs ⟨rate, burst, t, 0⟩⟩) b rest

variable {rate burst}

theorem spend_bucket_nonneg {args : Args} {level : Level} (nonneg : 0 ≤ level.tokens) :
    UsedAt level.ts (spend args level).bucket := by
  unfold spend
  split
  · rename_i enough
    exact ⟨level.tokens - args.cost, sub_nonneg.mpr enough, rfl⟩
  · exact ⟨level.tokens, nonneg, rfl⟩

theorem spend_expireMs (args : Args) (level : Level) :
    (spend args level).expireMs = expireMs args := by
  unfold spend
  split <;> rfl

theorem refill_tokens_nonneg {args : Args} {level : Level} (rate_nonneg : 0 ≤ args.rate)
    (burst_nonneg : 0 ≤ args.burst) (nonneg : 0 ≤ level.tokens) :
    0 ≤ (refill args level).tokens := by
  unfold refill
  split
  · rename_i later
    have earned : 0 ≤ (args.now - level.ts) / 1000 * args.rate := by
      apply mul_nonneg _ rate_nonneg
      linarith
    exact le_min burst_nonneg (by linarith)
  · exact nonneg

/-- After an execution the bucket was used last at its time, if it was not used later before. -/
theorem script_usedAt (rate_pos : 0 < rate) {b : Bucket} (x : Execution)
    (earlier : b = absent ∨ ∃ t ≤ x.now, UsedAt t b) :
    UsedAt x.now (tokenBucketScript (x.args rate burst) b).bucket := by
  have burst_nonneg : (0 : ℚ) ≤ (x.args rate burst).burst := Nat.cast_nonneg burst
  obtain ⟨level, loaded, nonneg, ts_le⟩ : ∃ level, load (x.args rate burst) b = level ∧
      0 ≤ level.tokens ∧ level.ts ≤ x.now := by
    obtain rfl | ⟨t, t_le, tokens, nonneg, rfl⟩ := earlier
    · exact ⟨⟨burst, x.now⟩, rfl, burst_nonneg, le_rfl⟩
    · exact ⟨⟨tokens, t⟩, rfl, nonneg, t_le⟩
  have clocked : (refill (x.args rate burst) level).ts = x.now := by
    rw [refill_ts]
    exact max_eq_right ts_le
  have spent : UsedAt (refill (x.args rate burst) level).ts
      (spend (x.args rate burst) (refill (x.args rate burst) level)).bucket :=
    spend_bucket_nonneg (refill_tokens_nonneg rate_pos.le burst_nonneg nonneg)
  rw [clocked] at spent
  rw [tokenBucketScript, loaded]
  exact spent

theorem SameBucket.ordered {key : Option Entry} {b : Bucket} {rest : List Execution}
    (same : SameBucket rate burst key b rest) : Ordered rest := by
  cases same with
  | fresh ordered | used ordered => exact ordered

/-- One execution in both stores: the replies agree, and the stores hold the same bucket again. -/
theorem execute_simulates (rate_pos : 0 < rate) (burst_pos : 1 ≤ burst) (expiry : Expiry)
    (key : Option Entry) (b : Bucket) (x : Execution) (rest : List Execution)
    (same : SameBucket rate burst key b (x :: rest)) :
    (executeExpiring rate burst expiry key x).2 = (execute rate burst b x).2 ∧
      SameBucket rate burst (executeExpiring rate burst expiry key x).1
        (execute rate burst b x).1 rest := by
  obtain ⟨ahead, ordered⟩ := List.pairwise_cons.mp same.ordered
  obtain ⟨found, earlier⟩ : tokenBucketScript (x.args rate burst) (expiry.found x.now key) =
      tokenBucketScript (x.args rate burst) b ∧ (b = absent ∨ ∃ t ≤ x.now, UsedAt t b) := by
    cases same with
    | fresh => exact ⟨rfl, .inl rfl⟩
    | @used t _ _ _ used later =>
      refine ⟨?_, .inr ⟨t, later x List.mem_cons_self, used⟩⟩
      obtain ⟨tokens, nonneg, rfl⟩ := used
      unfold Expiry.found
      dsimp only
      split
      · rename_i gone
        have burst_cast : (0 : ℚ) < (x.args rate burst).burst := Nat.cast_pos.mpr burst_pos
        exact (script_idle rate_pos burst_cast nonneg (expiry.due gone)).symm
      · rfl
  have used : UsedAt x.now (tokenBucketScript (x.args rate burst) b).bucket :=
    script_usedAt rate_pos x earlier
  have lives : (tokenBucketScript (x.args rate burst) b).expireMs =
      expireMs ⟨rate, burst, x.now, 0⟩ := spend_expireMs _ _
  simp only [executeExpiring, execute, found, lives]
  exact ⟨trivial, .used ordered used ahead⟩

/-- On a clock that does not run back, a store that forgets idle buckets replies to every
execution like one that keeps them. -/
theorem expiry_unobservable (rate_pos : 0 < rate) (burst_pos : 1 ≤ burst) (expiry : Expiry)
    (executions : List Execution) (ordered : Ordered executions) :
    Transcript.replies (executeExpiring rate burst expiry) none executions =
      Transcript.replies (execute rate burst) absent executions := by
  have start : SameBucket rate burst none absent executions := .fresh ordered
  exact Transcript.replies_eq_of_simulation (execute_simulates rate_pos burst_pos expiry)
    executions start

end Stores

/-- A key is gone as soon as the clock has passed its deadline. -/
def passed : Expiry where
  gone deadline now := decide (deadline < now)
  due gone := (of_decide_eq_true gone).le

/-- Two tokens a second and a burst of three live for three seconds: the bucket that is left
empty is forgotten before its last use. -/
theorem expiry_unobservable_idle :
    (Transcript.replies (executeExpiring 2 3 passed) none
        [⟨0, 1⟩, ⟨0, 1⟩, ⟨0, 1⟩, ⟨400, 1⟩, ⟨9000, 1⟩]).map Reply.allowed = [1, 1, 1, 0, 1] ∧
    Transcript.replies (executeExpiring 2 3 passed) none
        [⟨0, 1⟩, ⟨0, 1⟩, ⟨0, 1⟩, ⟨400, 1⟩, ⟨9000, 1⟩] =
      Transcript.replies (execute 2 3) absent
        [⟨0, 1⟩, ⟨0, 1⟩, ⟨0, 1⟩, ⟨400, 1⟩, ⟨9000, 1⟩] :=
  ⟨by decide +kernel,
    expiry_unobservable (by decide) (by decide) passed _ (by decide +kernel)⟩

/-! ## The announced wait -/

section Waiting
variable {quota : Quota}

/-- The buckets of a key on a clock that does not run back. The store may forget one. -/
inductive Reachable (quota : Quota) : ℤ → Bucket → Prop
  | start (t : ℤ) : Reachable quota t absent
  | request {t now : ℤ} {b : Bucket} (reached : Reachable quota t b) (later : t ≤ now) :
      Reachable quota now (allow quota now b).1
  | wait {t now : ℤ} {b : Bucket} (reached : Reachable quota t b) (later : t ≤ now) :
      Reachable quota now b
  | forgotten {t : ℤ} {b : Bucket} (reached : Reachable quota t b) : Reachable quota t absent

/-- The clock of the script. -/
def millis (t : ℤ) : ℚ := (t / 1000000 : ℤ)

theorem millis_mono {t now : ℤ} (later : t ≤ now) : millis t ≤ millis now := by
  unfold millis
  exact_mod_cast Int.ediv_le_ediv (by decide) later

theorem millis_add_seconds (t s : ℤ) : millis (t + s * 1000000000) = millis t + s * 1000 := by
  have scaled : t + s * 1000000000 = t + s * 1000 * 1000000 := by ring
  unfold millis
  rw [scaled, Int.add_mul_ediv_right _ _ (by decide)]
  push_cast
  ring

/-- A bucket that is absent, or in the store with a clock that is not ahead. -/
def Settled (burst : ℕ) (t : ℤ) (b : Bucket) : Prop :=
  b = absent ∨ ∃ level : Level, b = ⟨some level.tokens, some level.ts⟩ ∧ 0 ≤ level.tokens ∧
    level.tokens ≤ burst ∧ level.ts ≤ millis t

/-- A call on a bucket that is absent is a call on a full one. -/
theorem Settled.loaded {burst : ℕ} {t : ℤ} {b : Bucket} (settled : Settled burst t b) (rate : ℚ) :
    ∃ level : Level, call rate burst b (millis t) =
        call rate burst ⟨some level.tokens, some level.ts⟩ (millis t) ∧
      0 ≤ level.tokens ∧ level.tokens ≤ burst ∧ level.ts ≤ millis t := by
  obtain rfl | ⟨level, rfl, nonneg, le_burst, clock⟩ := settled
  · exact ⟨⟨burst, millis t⟩, rfl, Nat.cast_nonneg burst, le_rfl, le_rfl⟩
  · exact ⟨level, rfl, nonneg, le_burst, clock⟩

theorem Settled.wait {burst : ℕ} {t now : ℤ} {b : Bucket} (settled : Settled burst t b)
    (later : t ≤ now) : Settled burst now b := by
  obtain rfl | ⟨level, rfl, nonneg, le_burst, clock⟩ := settled
  · exact .inl rfl
  · exact .inr ⟨level, rfl, nonneg, le_burst, clock.trans (millis_mono later)⟩

theorem Reachable.settled (requests_pos : 0 < quota.requests) (window_pos : 0 < quota.window)
    {burst : ℕ} (capacity : quota.capacity = burst) {t : ℤ} {b : Bucket}
    (reached : Reachable quota t b) : Settled burst t b := by
  induction reached with
  | start t => exact .inl rfl
  | wait _ later ih => exact ih.wait later
  | forgotten _ ih => exact .inl rfl
  | @request _ now before _ later ih =>
    have rate_nonneg := (ratePerSec_pos requests_pos window_pos).le
    obtain ⟨level, called, nonneg, le_burst, clock⟩ := (ih.wait later).loaded quota.ratePerSec
    obtain ⟨left, reply, result, left_nonneg, left_le, left_clock, -⟩ :=
      call_stored rate_nonneg nonneg le_burst (millis now)
    have same : (allow quota now before).1 = (call quota.ratePerSec burst before (millis now)).1 :=
      (allow_eq requests_pos window_pos capacity now before).1
    rw [same, called, result]
    exact .inr ⟨left, rfl, left_nonneg, left_le, left_clock.trans_le (max_le clock le_rfl)⟩

/-- A call that is denied leaves what it refilled, and tells how long the rest of a token takes. -/
theorem call_denied {rate : ℚ} {burst : ℕ} {level : Level} {now : ℚ}
    (denied : (call rate burst ⟨some level.tokens, some level.ts⟩ now).2.allowed ≠ 1)
    (clock : level.ts ≤ now) :
    ∃ tokens pre, call rate burst ⟨some level.tokens, some level.ts⟩ now =
      (⟨some tokens, some now⟩, ⟨0, pre, ⌈(1 - tokens) / rate * 1000⌉⟩) := by
  let args : Args := ⟨rate, burst, now, 1⟩
  have called : call rate burst ⟨some level.tokens, some level.ts⟩ now =
      ((spend args (refill args level)).bucket, (spend args (refill args level)).reply) := rfl
  have clocked : (refill args level).ts = now := by
    rw [refill_ts]
    exact max_eq_right clock
  by_cases enough : args.cost ≤ (refill args level).tokens
  · rw [called, spend, if_pos enough] at denied
    exact absurd rfl denied
  · exact ⟨(refill args level).tokens, (refill args level).tokens,
      by rw [called, spend, if_neg enough, clocked]⟩

/-- A bucket admits a call once the rest of a token has been earned. -/
theorem call_allowed_of_waited {rate : ℚ} {burst : ℕ} (rate_pos : 0 < rate) (burst_pos : 1 ≤ burst)
    {tokens ts now : ℚ} (waited : ts + (1 - tokens) / rate * 1000 ≤ now) :
    (call rate burst ⟨some tokens, some ts⟩ now).2.allowed = 1 := by
  let args : Args := ⟨rate, burst, now, 1⟩
  have enough : args.cost ≤ (refill args ⟨tokens, ts⟩).tokens := by
    have missing : (1 - tokens) / rate * 1000 / 1000 * rate = 1 - tokens := by field_simp
    unfold refill
    split
    · have full : (1 : ℚ) ≤ burst := by exact_mod_cast burst_pos
      have earned : 1 - tokens ≤ (now - ts) / 1000 * rate :=
        calc 1 - tokens = (1 - tokens) / rate * 1000 / 1000 * rate := missing.symm
          _ ≤ (now - ts) / 1000 * rate := by
            gcongr
            linarith
      exact le_min full (by change 1 ≤ tokens + (now - ts) / 1000 * rate; linarith)
    · rename_i early
      have none_missing : (1 - tokens) / rate ≤ 0 := by
        have behind : now ≤ ts := not_lt.mp early
        linarith
      have nothing : 1 - tokens ≤ 0 := by
        by_contra positive
        exact absurd (div_pos (not_le.mp positive) rate_pos) (not_lt.mpr none_missing)
      change 1 ≤ tokens
      linarith
  have called : (call rate burst ⟨some tokens, some ts⟩ now).2 =
      (spend args (refill args ⟨tokens, ts⟩)).reply := rfl
  rw [called, spend, if_pos enough]

/-- The seconds that are announced are at least one, and cover the wait. -/
theorem le_retryAfter (quota : Quota) (now : ℤ) {reply : Reply} (denied : reply.allowed ≠ 1) :
    1 ≤ (quota.info now reply).retryAfter ∧
      (reply.retryMs : ℚ) ≤ (quota.info now reply).retryAfter * 1000 := by
  simp only [Quota.info, if_neg denied]
  refine ⟨le_max_left 1 _, ?_⟩
  have rounded : (reply.retryMs : ℚ) / 1000 ≤ (max 1 ⌈(reply.retryMs : ℚ) / 1000⌉ : ℤ) :=
    (Int.le_ceil _).trans (Int.cast_le.mpr (le_max_right 1 _))
  linarith

/-- What a denied request leaves in the bucket, and what it is told. -/
theorem Reachable.denied (requests_pos : 0 < quota.requests) (window_pos : 0 < quota.window)
    {burst : ℕ} (capacity : quota.capacity = burst) {t : ℤ} {b left : Bucket} {info : Info}
    (reached : Reachable quota t b) (denied : allow quota t b = (left, false, info)) :
    ∃ tokens, left = ⟨some tokens, some (millis t)⟩ ∧ 1 ≤ info.retryAfter ∧
      (1 - tokens) / quota.ratePerSec * 1000 ≤ info.retryAfter * 1000 := by
  obtain ⟨level, called, -, -, clock⟩ :=
    (reached.settled requests_pos window_pos capacity).loaded quota.ratePerSec
  obtain ⟨same_bucket, same_decision, told⟩ := allow_eq requests_pos window_pos capacity t b
  rw [denied] at same_bucket same_decision told
  change left = (call quota.ratePerSec burst b (millis t)).1 at same_bucket
  change false = decide ((call quota.ratePerSec burst b (millis t)).2.allowed = 1) at same_decision
  change info = quota.info t (call quota.ratePerSec burst b (millis t)).2 at told
  rw [called] at same_bucket same_decision told
  have refused := of_decide_eq_false same_decision.symm
  obtain ⟨tokens, pre, result⟩ := call_denied refused clock
  obtain ⟨at_least, covered⟩ := le_retryAfter quota t refused
  rw [← told] at at_least covered
  rw [result] at same_bucket covered
  exact ⟨tokens, same_bucket, at_least, (Int.le_ceil _).trans covered⟩

/-- A request that is denied is told to wait at least a second, and on a clock that does not
run back the next request is granted from the end of that wait on, whether the store has kept
the bucket or forgotten it. -/
theorem granted_after_wait (requests_pos : 0 < quota.requests) (window_pos : 0 < quota.window)
    (burst_pos : 1 ≤ quota.capacity) {t : ℤ} {b left : Bucket} {info : Info}
    (reached : Reachable quota t b) (denied : allow quota t b = (left, false, info)) :
    1 ≤ info.retryAfter ∧ ∀ later, t + info.retryAfter * 1000000000 ≤ later →
      (allow quota later left).2.1 = true ∧ (allow quota later absent).2.1 = true := by
  obtain ⟨burst, capacity⟩ := Int.eq_ofNat_of_zero_le (zero_le_one.trans burst_pos)
  have burst_pos : 1 ≤ burst := by omega
  have rate_pos := ratePerSec_pos requests_pos window_pos
  obtain ⟨tokens, rfl, at_least, covered⟩ :=
    reached.denied requests_pos window_pos capacity denied
  refine ⟨at_least, fun later waited => ⟨?_, ?_⟩⟩
  · have ends := millis_mono waited
    rw [millis_add_seconds] at ends
    rw [(allow_eq requests_pos window_pos capacity later _).2.1]
    exact decide_eq_true (call_allowed_of_waited rate_pos burst_pos (by
      change millis t + (1 - tokens) / quota.ratePerSec * 1000 ≤ millis later
      linarith))
  · -- A bucket that was forgotten is full at the time of the call.
    have full : (1 : ℚ) ≤ burst := by exact_mod_cast burst_pos
    have nothing : (1 - (burst : ℚ)) / quota.ratePerSec ≤ 0 :=
      div_nonpos_of_nonpos_of_nonneg (by linarith) rate_pos.le
    have granted : (call quota.ratePerSec burst ⟨some burst, some (millis later)⟩
        (millis later)).2.allowed = 1 :=
      call_allowed_of_waited rate_pos burst_pos (by linarith)
    rw [(allow_eq requests_pos window_pos capacity later _).2.1]
    exact decide_eq_true granted

/-- One request every three seconds: the second one after 500 ms is to wait for three seconds. -/
theorem granted_after_wait_one :
    allow ⟨1, 3000000000, 0⟩ 500000000 (allow ⟨1, 3000000000, 0⟩ 0 absent).1 =
        (⟨some (1 / 6), some 500⟩, false, ⟨1, 0, 3, 3⟩) ∧
      (allow ⟨1, 3000000000, 0⟩ 3500000000 ⟨some (1 / 6), some 500⟩).2.1 = true := by
  have denied : allow ⟨1, 3000000000, 0⟩ 500000000 (allow ⟨1, 3000000000, 0⟩ 0 absent).1 =
      (⟨some (1 / 6), some 500⟩, false, ⟨1, 0, 3, 3⟩) := by decide +kernel
  have reached : Reachable ⟨1, 3000000000, 0⟩ 500000000 (allow ⟨1, 3000000000, 0⟩ 0 absent).1 :=
    .wait (.request (.start 0) le_rfl) (by decide)
  exact ⟨denied, ((granted_after_wait (by decide) (by decide) (by decide) reached denied).2
    3500000000 (by decide)).1⟩

end Waiting

end RateLimit
