-- The result of one test (internal/star/runtime.go, TestResult) and the checks
-- that rewrite it after the run: a mock that failed, a teardown that failed.
import Faultbox.EventLog

open goval faultbox.event_log

namespace faultbox.test_result

/-- The strings that `TestResult.Result` takes. -/
inductive ResultKind where
  | pass | fail | error | halted | inconclusive
  deriving DecidableEq

def ResultKind.red : ResultKind → Bool
  | .fail | .error => true
  | .pass | .halted | .inconclusive => false

structure MatrixInfo where
  scenarioName : String
  faultName : String
  deriving DecidableEq

structure BypassedRule where
  service : String
  syscall : String
  action : String
  label : String
  deriving DecidableEq

/-- `TestResult`, for Starlark values of type `V`. The assertion count and the
detail of the last failed assertion are left out: they are only displayed. -/
structure TestResult (V : Type) where
  name : String
  result : ResultKind
  reason : String := ""
  seed : Nat := 0
  durationMs : Int := 0
  events : List Event := []
  returnValue : Option V := none
  matrix : Option MatrixInfo := none
  expectationName : String := ""
  expectationViolated : Bool := false
  faultBypassed : Bool := false
  strictDeterminismViolation : Bool := false
  bypassedRules : List BypassedRule := []
  leafID : String := ""
  leafChoices : Option (GoMap String Int) := none
  leafProbabilityOutcomes : Option (GoMap String (List Bool)) := none
  leafInterleavingIDs : Option (GoMap String Int) := none

variable {V : Type}

/-! ## Checks on the events of a finished run -/

/-- The code and the message of `mockErrorDiagnostic`, if the event is one of
the failures of a mock itself. -/
def mockErrorDiagnostic (ev : Event) : Option (String × String) :=
  if ev.type ∈ ["mock.encode_error", "mock.decode_error", "mock.resolve_error",
      "mock.dynamic_error", "mock.observation_error"] then
    let method := if ev.field "method" = "" then ev.field "path" else ev.field "method"
    some (String.ofList (ev.type.toList.map fun c => if c = '.' then '_' else c.toUpper),
      "mock " ++ ev.service ++ "." ++ ev.field "interface" ++ " " ++ method ++ ": " ++
        ev.field "error")
  else none

/-- `enforceMockErrors`: the first mock failure turns a result that is not red
into a failure. -/
def enforceMockErrors (tr : TestResult V) : TestResult V :=
  match tr.events.findSome? mockErrorDiagnostic with
  | none => tr
  | some (code, message) =>
    if tr.result = .fail ∨ tr.result = .error then tr
    else { tr with result := .fail, reason := code ++ ": " ++ message, faultBypassed := false }

/-- `enforceShutdownErrors`: the first stop error makes any result a failure. -/
def enforceShutdownErrors (tr : TestResult V) : TestResult V :=
  match tr.events.find? fun ev => ev.type == "service_stop_error" with
  | none => tr
  | some ev =>
    { tr with
      result := .fail
      reason := "TEARDOWN_FAILED: " ++ ev.service ++ " (" ++ ev.field "phase" ++ "): " ++
        ev.field "error" }

/-- The traffic through the proxy of `applied` that the fault acted on, up to
the removal of the fault. -/
def faultHits (applied : Event) (later : List Event) : List Event :=
  let mine := later.filter fun ev =>
    ev.service == applied.service && ev.field "interface" == applied.field "interface"
  (mine.takeWhile fun ev => !(ev.type == "proxy_fault_removed")).filter fun ev =>
    ev.type == "proxy" && !(ev.field "action" == "forward") && !(ev.field "action" == "")

/-- The messages of `protocolFaultDiagnostics`: one for each protocol fault that
never fired. -/
def protocolFaultDiagnostics : List Event → List String
  | [] => []
  | applied :: later =>
    if applied.type = "proxy_fault_applied" ∧ faultHits applied later = [] then
      (applied.field "protocol" ++ " protocol fault scope on " ++ applied.service ++ "." ++
        applied.field "interface" ++ " never fired") :: protocolFaultDiagnostics later
    else protocolFaultDiagnostics later

end faultbox.test_result
