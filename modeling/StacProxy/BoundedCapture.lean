import Mathlib.Algebra.Order.Group.Int
import StacProxy.Transcript

/-!
# Capturing the answer of an origin

The reverse proxy writes the answer of the origin into a buffer, in chunks as they come, and the
handler looks at the buffer afterwards. A capture with a limit fills itself up to the limit and
rejects every write from then on; the wrapper of the handler remembers that a write was rejected,
because the reverse proxy does not tell.

Byte counts do not wrap around: the bytes are in memory.
-/

namespace BoundedCapture

inductive WriteError where
  | errResponseTooLarge
deriving DecidableEq

/-- A limit that is not positive is none. -/
structure ResponseCapture where
  status : Int
  body : List UInt8
  max : Int
  written : Int
  closed : Bool
deriving DecidableEq

def newResponseCaptureWithLimit (max : Int) : ResponseCapture := ⟨0, [], max, 0, false⟩

def ResponseCapture.writeHeader (rc : ResponseCapture) (statusCode : Int) : ResponseCapture :=
  if rc.status ≠ 0 then rc else { rc with status := statusCode }

def ResponseCapture.write (rc : ResponseCapture) (p : List UInt8) :
    ResponseCapture × Nat × Option WriteError :=
  let rc := if rc.status = 0 then { rc with status := 200 } else rc
  if rc.closed then (rc, 0, some .errResponseTooLarge)
  else if 0 < rc.max ∧ rc.max < rc.written + p.length then
    let remaining := rc.max - rc.written
    -- The slice is within the chunk, since the chunk exceeds what remains.
    let filling := if 0 < remaining then p.take remaining.toNat else []
    ({ rc with
        body := rc.body ++ filling
        written := rc.written + filling.length
        closed := true }, 0, some .errResponseTooLarge)
  else ({ rc with body := rc.body ++ p, written := rc.written + p.length }, p.length, none)

/-- The `Status` of the source. -/
def ResponseCapture.finalStatus (rc : ResponseCapture) : Int :=
  if rc.status = 0 then 200 else rc.status

/-- The `boundedCapture` of the source. -/
structure Bounded where
  capture : ResponseCapture
  overLimit : Bool
deriving DecidableEq

def Bounded.write (b : Bounded) (p : List UInt8) : Bounded × Nat × Option WriteError :=
  let (rc, n, err) := b.capture.write p
  (⟨rc, b.overLimit || err = some .errResponseTooLarge⟩, n, err)

def Bounded.overflowed (b : Bounded) : Bool := b.overLimit

/-- What the reverse proxy does with its writer. -/
inductive Call where
  | writeHeader (statusCode : Int)
  | write (p : List UInt8)
deriving DecidableEq

def Bounded.step (b : Bounded) : Call → Bounded × Option (Nat × Option WriteError)
  | .writeHeader statusCode => ({ b with capture := b.capture.writeHeader statusCode }, none)
  | .write p => ((b.write p).1, some (b.write p).2)

def captured (max : Int) (calls : List Call) : Bounded :=
  Transcript.final Bounded.step ⟨newResponseCaptureWithLimit max, false⟩ calls

/-! ## The bytes that were written -/

def Call.bytes : Call → List UInt8
  | .writeHeader _ => []
  | .write p => p

/-- All chunks in one piece, whatever became of them. -/
def sent (calls : List Call) : List UInt8 := calls.flatMap Call.bytes

/-- What a limit keeps of some bytes. -/
def within (max : Int) (bytes : List UInt8) : List UInt8 :=
  if 0 < max then bytes.take max.toNat else bytes

/-- The bytes do not fit. -/
def Exceeds (max : Int) (bytes : List UInt8) : Prop := 0 < max ∧ max < bytes.length

instance (max : Int) (bytes : List UInt8) : Decidable (Exceeds max bytes) :=
  inferInstanceAs (Decidable (_ ∧ _))

section Limits
variable {max : Int} {bytes more : List UInt8}

theorem within_of_not_exceeds (fits : ¬ Exceeds max bytes) : within max bytes = bytes := by
  simp only [Exceeds, not_and, not_lt] at fits
  simp only [within]
  split
  · rename_i limited
    have short := fits limited
    exact List.take_of_length_le (by omega)
  · rfl

/-- Bytes behind those that exceed the limit are not kept. -/
theorem within_append_of_exceeds (exceeds : Exceeds max bytes) :
    within max (bytes ++ more) = within max bytes := by
  obtain ⟨limited, long⟩ := exceeds
  simp only [within, limited, if_true]
  exact List.take_append_of_le_length (by omega)

/-- A chunk that does not fit is kept as far as there is room. -/
theorem within_append_of_not_exceeds (fits : ¬ Exceeds max bytes)
    (exceeds : Exceeds max (bytes ++ more)) :
    within max (bytes ++ more) = bytes ++ more.take (max - bytes.length).toNat := by
  obtain ⟨limited, -⟩ := exceeds
  simp only [Exceeds, not_and, not_lt] at fits
  have short := fits limited
  have room : max.toNat = bytes.length + (max - bytes.length).toNat := by omega
  simp only [within, limited, if_true]
  rw [room, List.take_length_add_append]

theorem Exceeds.append (exceeds : Exceeds max bytes) : Exceeds max (bytes ++ more) := by
  obtain ⟨limited, long⟩ := exceeds
  refine ⟨limited, ?_⟩
  rw [List.length_append]
  omega

end Limits

/-! ## The capture as a function of the bytes -/

/-- The status after a call. -/
def Call.status (status : Int) : Call → Int
  | .writeHeader statusCode => if status ≠ 0 then status else statusCode
  | .write _ => if status = 0 then 200 else status

/-- The capture that has been given some bytes, in whatever chunks. -/
def holding (max status : Int) (bytes : List UInt8) : Bounded where
  capture :=
    { status := status
      body := within max bytes
      max := max
      written := (within max bytes).length
      closed := Exceeds max bytes }
  overLimit := Exceeds max bytes

section Runs
variable (max status : Int) (bytes : List UInt8)

/-- No room is a slice of no bytes. -/
theorem filling_eq (remaining : Int) (p : List UInt8) :
    (if 0 < remaining then p.take remaining.toNat else []) = p.take remaining.toNat := by
  split
  · rfl
  · rename_i full
    rw [Int.toNat_of_nonpos (by omega), List.take_zero]

theorem holding_nil : holding max 0 [] = ⟨newResponseCaptureWithLimit max, false⟩ := by
  have fits : ¬ Exceeds max [] := by
    rintro ⟨limited, long⟩
    rw [List.length_nil] at long
    omega
  simp [holding, newResponseCaptureWithLimit, within_of_not_exceeds fits, fits]

/-- A write takes the capture of the bytes before it to the capture of the bytes with it. -/
theorem write_holding (p : List UInt8) :
    (holding max status bytes).write p =
      (holding max (if status = 0 then 200 else status) (bytes ++ p),
        if Exceeds max (bytes ++ p) then (0, some .errResponseTooLarge) else (p.length, none)) := by
  have opened : (if status = 0
      then { (holding max status bytes).capture with status := 200 }
      else (holding max status bytes).capture) =
        (holding max (if status = 0 then 200 else status) bytes).capture := by
    split <;> rfl
  have unopened : (holding max status bytes).capture.status = status := rfl
  simp only [Bounded.write, ResponseCapture.write, unopened, opened]
  generalize (if status = 0 then 200 else status) = status'
  by_cases exceeded : Exceeds max bytes
  · -- Closed before: nothing changes.
    have exceeds : Exceeds max (bytes ++ p) := exceeded.append
    simp [holding, exceeded, exceeds, within_append_of_exceeds exceeded]
  · have room := within_of_not_exceeds exceeded
    by_cases exceeds : Exceeds max (bytes ++ p)
    · have filled := within_append_of_not_exceeds exceeded exceeds
      have longer : 0 < max ∧ max < (bytes.length : Int) + p.length := by
        simpa [Exceeds] using exceeds
      simp only [holding, exceeded, exceeds, room, filling_eq, filled, decide_false, decide_true,
        Bool.false_eq_true, if_false, longer, and_self, if_true, Bool.or_true,
        List.length_append, Int.natCast_add]
    · have kept := within_of_not_exceeds exceeds
      have shorter : ¬ (0 < max ∧ max < (bytes.length : Int) + p.length) := by
        simpa [Exceeds] using exceeds
      simp [holding, exceeded, exceeds, room, shorter, kept]

theorem step_holding (call : Call) :
    ((holding max status bytes).step call).1 =
      holding max (call.status status) (bytes ++ call.bytes) := by
  cases call with
  | writeHeader statusCode =>
    rw [Call.bytes, List.append_nil]
    by_cases written : status = 0 <;>
      simp [Bounded.step, ResponseCapture.writeHeader, Call.status, holding, written]
  | write p => exact congrArg Prod.fst (write_holding max status bytes p)

theorem final_holding (calls : List Call) :
    Transcript.final Bounded.step (holding max status bytes) calls =
      holding max (calls.foldl Call.status status) (bytes ++ sent calls) := by
  induction calls generalizing status bytes with
  | nil => simp [sent]
  | cons call rest ih =>
    rw [Transcript.final_cons, step_holding, ih, List.foldl_cons, List.append_assoc]
    rfl

/-- However the bytes come, the capture is that of the bytes. -/
theorem captured_eq (calls : List Call) :
    captured max calls = holding max (calls.foldl Call.status 0) (sent calls) := by
  rw [captured, ← holding_nil, final_holding, List.nil_append]

end Runs

/-- A write is rejected exactly when the bytes up to it exceed the limit. -/
theorem rejected_iff (max : Int) (calls : List Call) (p : List UInt8) :
    ((captured max calls).write p).2.2 = some .errResponseTooLarge ↔
      Exceeds max (sent calls ++ p) := by
  rw [captured_eq, write_holding]
  by_cases exceeds : Exceeds max (sent calls ++ p) <;> simp [exceeds]

/-- For every limit and every sequence of calls: the body is the first bytes of all that was
written, as many as the limit lets in; `overflowed` tells whether there were more; what comes
after a rejected write does not change the body; and other chunks of the same bytes give the
same body and the same flag. -/
theorem capture_independent_of_chunks (max : Int) (calls : List Call) :
    (captured max calls).capture.body =
      (if 0 < max then (sent calls).take (min max.toNat (sent calls).length) else sent calls) ∧
    ((captured max calls).overflowed = true ↔ 0 < max ∧ max < (sent calls).length) ∧
    (∀ p later, ((captured max calls).write p).2.2 = some .errResponseTooLarge →
      (captured max (calls ++ .write p :: later)).capture.body =
        (captured max (calls ++ [.write p])).capture.body) ∧
    ∀ others, sent others = sent calls →
      (captured max others).capture.body = (captured max calls).capture.body ∧
      (captured max others).overflowed = (captured max calls).overflowed := by
  refine ⟨?_, ?_, ?_, ?_⟩
  · rw [captured_eq]
    simp only [holding, within]
    split
    · rw [List.take_eq_take_min]
    · rfl
  · rw [captured_eq]
    exact decide_eq_true_iff
  · intro p later rejected
    have exceeds := (rejected_iff max calls p).mp rejected
    have longer : sent (calls ++ .write p :: later) = sent calls ++ p ++ sent later := by
      simp [sent, Call.bytes]
    have shorter : sent (calls ++ [.write p]) = sent calls ++ p := by simp [sent, Call.bytes]
    rw [captured_eq, captured_eq, longer, shorter]
    exact within_append_of_exceeds exceeds
  · intro others same
    rw [captured_eq, captured_eq, same]
    exact ⟨rfl, rfl⟩

/-- Three bytes and two, an empty chunk between them, against a limit of four. -/
example :
    (captured 4 [.write [1, 2, 3], .write [], .write [4, 5], .write [6]]).capture =
      ⟨200, [1, 2, 3, 4], 4, 4, true⟩ := by
  decide +kernel

/-! ## What the handler passes on -/

def defaultMaxResponseBytes : Int := 33554432

inductive Reply where
  | response (statusCode : Int) (body : List UInt8)
  | errorResponse (statusCode : Int) (code description : String)
deriving DecidableEq

/-- The limit that an origin is configured with, or the default. -/
def maxBytes (maxResponseBytes : Int) : Int :=
  if maxResponseBytes ≤ 0 then defaultMaxResponseBytes else maxResponseBytes

def tooLarge (limit : Int) : Reply :=
  .errorResponse 502 "BadGateway" ("upstream response exceeded " ++ toString limit ++ " bytes")

/-- What the handler makes of the capture once the reverse proxy has written to it without an
error of its own. -/
def passOn (maxResponseBytes : Int) (calls : List Call) : Reply :=
  let cap := captured (maxBytes maxResponseBytes) calls
  if cap.overflowed then tooLarge (maxBytes maxResponseBytes)
  else .response cap.capture.finalStatus cap.capture.body

/-- An answer is passed on whole or not at all. -/
theorem passOn_eq (maxResponseBytes : Int) (calls : List Call) :
    passOn maxResponseBytes calls =
      if maxBytes maxResponseBytes < (sent calls).length then
        tooLarge (maxBytes maxResponseBytes)
      else .response (captured (maxBytes maxResponseBytes) calls).capture.finalStatus
        (sent calls) := by
  have limited : 0 < maxBytes maxResponseBytes := by
    simp only [maxBytes, defaultMaxResponseBytes]
    split <;> omega
  simp only [passOn, captured_eq]
  by_cases long : maxBytes maxResponseBytes < (sent calls).length
  · have exceeds : Exceeds (maxBytes maxResponseBytes) (sent calls) := ⟨limited, long⟩
    simp [Bounded.overflowed, holding, exceeds, long]
  · have fits : ¬ Exceeds (maxBytes maxResponseBytes) (sent calls) := fun exceeds => long exceeds.2
    simp [Bounded.overflowed, holding, fits, long, within_of_not_exceeds fits]

end BoundedCapture
