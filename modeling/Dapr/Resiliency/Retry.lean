import Mathlib.Tactic.Common
/-!
# Retry conditions

A code error is judged twice: the runner goes by its code alone, and `RetryExcluded` by the protocol that
was detected when the error was built. A code of neither protocol counts as one of gRPC there.
-/

namespace Dapr.Resiliency

structure CodeRange where
  start : Int32
  endCode : Int32

def CodeRange.matchCode (cr : CodeRange) (c : Int32) : Bool := cr.start ≤ c ∧ c ≤ cr.endCode

def validHTTPStatusCodeRange : CodeRange := ⟨100, 599⟩

def validGRPCStatusCodeRange : CodeRange := ⟨0, 16⟩

inductive RetryScenario where
  | httpInvoke
  | gRPCInvoke

/-- An error and what it wraps. -/
inductive Err where
  | other (text : String)
  | code (statusCode : Int32) (retryScenario : RetryScenario) (err : Err)
  /-- The backoff does not retry it. -/
  | permanent (err : Err)

/-- The code error that is found first in the chain. -/
def Err.asCode : Err → Option (Int32 × RetryScenario)
  | .other _ => none
  | .code statusCode retryScenario _ => some (statusCode, retryScenario)
  | .permanent err => err.asCode

/-- Whether the backoff finds a permanent error in the chain. -/
def Err.isPermanent : Err → Bool
  | .other _ => false
  | .code _ _ err => err.isPermanent
  | .permanent _ => true

def detectErrorProto (statusCode : Int32) : RetryScenario :=
  if validHTTPStatusCodeRange.matchCode statusCode = true then .httpInvoke else .gRPCInvoke

def newCodeError (statusCode : Int32) (err : Err) : Err := .code statusCode (detectErrorProto statusCode) err

def mustRetryStatusCode (statusCode : Int32) : Option (List CodeRange) → Bool
  | none => true
  | some ranges => ranges.any (·.matchCode statusCode)

/-- Without patterns there are no ranges. -/
structure RetryConditionMatch where
  httpStatusCodes : Option (List CodeRange)
  gRPCStatusCodes : Option (List CodeRange)

namespace RetryConditionMatch

def statusCodeNeedRetry (f : RetryConditionMatch) (statusCode : Int32) : Bool :=
  if validGRPCStatusCodeRange.matchCode statusCode = true then mustRetryStatusCode statusCode f.gRPCStatusCodes
  else if validHTTPStatusCodeRange.matchCode statusCode = true then mustRetryStatusCode statusCode f.httpStatusCodes
  else false

def errorNeedRetry (f : RetryConditionMatch) (statusCode : Int32) : RetryScenario → Bool
  | .gRPCInvoke => mustRetryStatusCode statusCode f.gRPCStatusCodes
  | .httpInvoke => mustRetryStatusCode statusCode f.httpStatusCodes

def retryExcluded (f : RetryConditionMatch) (err : Err) : Bool :=
  match err.asCode with
  | none => false
  | some (statusCode, retryScenario) => !f.errorNeedRetry statusCode retryScenario

/-- What an attempt of the runner makes of its error. -/
def judge (f : RetryConditionMatch) (err : Err) : Err :=
  match err.asCode with
  | none => err
  | some (statusCode, _) => if f.statusCodeNeedRetry statusCode = true then err else .permanent err

def givesUp (f : RetryConditionMatch) (err : Err) : Bool := (f.judge err).isPermanent

/-- A list is configured, and none of its ranges has the code. -/
def LeftOut (c : Int32) (codes : Option (List CodeRange)) : Prop := ∃ rs ∈ codes, ∀ r ∈ rs, r.matchCode c = false

/-- The code is one of gRPC or HTTP, or the list for gRPC leaves it out. -/
def Judges (f : RetryConditionMatch) (c : Int32) : Prop :=
  validGRPCStatusCodeRange.matchCode c = true ∨ validHTTPStatusCodeRange.matchCode c = true ∨ LeftOut c f.gRPCStatusCodes

/-- The list for HTTP leaves a status of HTTP out; the one for gRPC any other code. -/
def Excludes (f : RetryConditionMatch) (c : Int32) : Prop :=
  LeftOut c (if validHTTPStatusCodeRange.matchCode c = true then f.httpStatusCodes else f.gRPCStatusCodes)

theorem mustRetryStatusCode_eq_false_iff {c : Int32} {codes : Option (List CodeRange)} :
    mustRetryStatusCode c codes = false ↔ LeftOut c codes := by
  cases codes <;> simp [mustRetryStatusCode, LeftOut]

theorem errorNeedRetry_eq_false_iff (f : RetryConditionMatch) (c : Int32) :
    f.errorNeedRetry c (detectErrorProto c) = false ↔ f.Excludes c := by
  rw [Excludes, ← mustRetryStatusCode_eq_false_iff, detectErrorProto]
  split <;> rfl

theorem not_http_of_gRPC {c : Int32} (h : validGRPCStatusCodeRange.matchCode c = true) :
    validHTTPStatusCodeRange.matchCode c = false := by
  simp only [CodeRange.matchCode, validGRPCStatusCodeRange, validHTTPStatusCodeRange, decide_eq_true_eq,
    decide_eq_false_iff_not, Int32.le_iff_toInt_le] at h ⊢
  have : (16 : Int32).toInt = 16 ∧ (100 : Int32).toInt = 100 := by decide
  omega

/-- A code of one of the protocols is judged by the same list both times. -/
theorem statusCodeNeedRetry_eq_iff (f : RetryConditionMatch) (c : Int32) :
    f.statusCodeNeedRetry c = f.errorNeedRetry c (detectErrorProto c) ↔ f.Judges c := by
  unfold statusCodeNeedRetry detectErrorProto Judges
  by_cases hgRPC : validGRPCStatusCodeRange.matchCode c = true
  · simp [hgRPC, not_http_of_gRPC hgRPC, errorNeedRetry]
  · by_cases hhttp : validHTTPStatusCodeRange.matchCode c = true
    · simp [hgRPC, hhttp, errorNeedRetry]
    · simp only [hgRPC, hhttp, if_false, errorNeedRetry, false_or, Bool.false_eq_true]
      exact eq_comm.trans mustRetryStatusCode_eq_false_iff

/-- The runner gives up on what is excluded and on nothing else, unless the code is of neither protocol and is not left
out by a list for gRPC, or the error wraps one that is not retried anyway. -/
theorem retry_agrees_iff (f : RetryConditionMatch) (c : Int32) (err : Err) :
    (f.givesUp (newCodeError c err) = true ↔ f.retryExcluded (newCodeError c err) = true) ↔
      f.Judges c ∧ (err.isPermanent = true → f.Excludes c) := by
  have hgivesUp : f.givesUp (newCodeError c err) = (!f.statusCodeNeedRetry c || err.isPermanent) := by
    simp only [givesUp, judge, newCodeError, Err.asCode]
    split <;> simp_all [Err.isPermanent]
  have hexcluded : f.retryExcluded (newCodeError c err) = !f.errorNeedRetry c (detectErrorProto c) := rfl
  rw [hgivesUp, hexcluded, ← errorNeedRetry_eq_false_iff]
  by_cases hsame : f.Judges c
  · rw [(statusCodeNeedRetry_eq_iff f c).2 hsame]
    cases f.errorNeedRetry c (detectErrorProto c) <;> cases err.isPermanent <;> simp [hsame]
  · have hdiffer := mt (statusCodeNeedRetry_eq_iff f c).1 hsame
    have hnot : f.statusCodeNeedRetry c = false := by
      rw [Judges, not_or, not_or] at hsame
      simp [statusCodeNeedRetry, hsame]
    rw [hnot] at hdiffer ⊢
    simp [hsame, Ne.symm hdiffer]

/-- An app answers with a status that is none of HTTP: without conditions it is not retried, but not excluded either. -/
theorem given_up_but_not_excluded :
    givesUp ⟨none, none⟩ (newCodeError 999 (.other "denied")) = true ∧
      retryExcluded ⟨none, none⟩ (newCodeError 999 (.other "denied")) = false := by
  decide +kernel

end RetryConditionMatch

end Dapr.Resiliency
