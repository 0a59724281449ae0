-- One run of a test (internal/star/runtime.go, runTestImpl): the goroutine that
-- runs the test and takes the verdict, and everything that goes on around it.
-- One step is one access to what the goroutines share, so the runs of the model
-- are the interleavings of the accesses.
import Faultbox.Runs
import Faultbox.Temporal
import Faultbox.TestResult

open goval faultbox.event_log faultbox.temporal faultbox.test_result

namespace faultbox.test_run

variable {V : Type}

/-! ## What a spec declares -/

/-- `MonitorDef`. Its callables see the event, the log and the state of the monitor. -/
structure MonitorDef (V : Type) where
  name : String
  on : Option MatcherVal
  stateInit : V
  update : Option (Event → EventLog → V → Except String V)
  check : Option (Event → EventLog → V → Except String Bool)

structure AssumePredicate (V : Type) where
  name : String
  body : Option (GoMap String V → Except String Bool)

inductive AssumeOutcome where
  | holds
  | rejected (msg : String)
  | raised (err : String)

/-- `AssumePredicate.Evaluate`. -/
def AssumePredicate.evaluate (a : AssumePredicate V) (choices : GoMap String V) : AssumeOutcome :=
  match a.body with
  | none => .holds
  | some body =>
    match body choices with
    | .error err => .raised ("assume(" ++ a.name ++ ") raised: " ++ err)
    | .ok true => .holds
    | .ok false => .rejected ("assume(" ++ a.name ++ ") not satisfied")

/-- The first predicate that does not hold decides. -/
def firstAssume (choices : GoMap String V) : List (AssumePredicate V) → AssumeOutcome
  | [] => .holds
  | a :: rest =>
    match a.evaluate choices with
    | .holds => firstAssume choices rest
    | out => out

/-- `TestConfig`. The two expectations are objects built at spec load, named
here by their place in the store; the timeout is a matter of the clock. -/
structure TestConfig (V : Type) where
  hasSetup : Bool
  expect : Option Nat
  terminateWhen : Option Nat
  assumes : List (AssumePredicate V)

/-- What the run of one leaf reads of the spec and of the leaf. -/
structure RunSpec (V : Type) where
  name : String
  callable : Bool
  mockStateError : Option String
  cfg : Option (TestConfig V)
  specMonitors : List (MonitorDef V)
  isDiscovery : Bool
  choices : GoMap String V

/-! ## What the goroutines share -/

/-- The error of a body: its text, the reason of the `halt()` in its chain, and
whether the cancellation of the body context caused it. The code cannot see the
last one. -/
structure BodyErr where
  msg : String
  halt : Option String
  cancelled : Bool

/-- `bodyOutcomeT`. -/
structure BodyOutcome (V : Type) where
  retVal : Option V
  err : Option BodyErr
  panicVal : String

/-- A subscription to the event log. The two watchers belong to one run. -/
inductive Subscriber where
  | monitor (id : Nat)
  | alwaysWatch (run : Nat)
  | terminateWhen (run : Nat) (ref : Nat)
  deriving DecidableEq

/-- What a goroutine still has to do on behalf of one emit or one lifecycle signal. -/
inductive Job where
  | dispatch (ev : Event)
  | callback (sub : Subscriber) (ev : Event)
  | evalAlways (run : Nat) (refs : List Nat)
  | signal (anchor : LifecycleAnchor) (refs : List Nat)

/-- A call on an expectation, as an observer of the run records it. -/
structure Observation where
  ref : Nat
  before : ExpectationVal
  call : Call
  answer : Answer

inductive BodyState (V : Type) where
  | notStarted
  | running
  | sent (bo : BodyOutcome V)
  | received

/-- What the rest of the runtime reports once the body is over. -/
structure Checks where
  matrixInfo : Option MatrixInfo
  expectName : String
  expectViolated : Bool
  requireFaults : Bool
  supervisorFailure : Option String
  fsObservationFailure : String
  watchRan : Bool
  firstWhereError : Option (String × Nat)
  unwiredInstalls : Nat
  packetGatewayAttachReason : String
  strictEffective : Bool
  firstStrictViolation : List Event → Option Event
  elapsedMs : Int

/-- The time since the start of the run, and how `%s` prints it rounded. -/
structure Elapsed where
  ms : Int
  rounded : String

/-- The error of `startServices`, with the code that `Classify` finds. -/
structure StartError where
  msg : String
  code : Option String

/-- What the verdict of a run is about. -/
structure Judgement (V : Type) where
  cause : TerminationCause
  bo : BodyOutcome V
  checks : Checks
  monitorErrors : List String
  events : List Event
  expectations : List Nat

/-- How far `runTestImpl` has come. -/
inductive Phase (V : Type) where
  | idle
  | starting
  | setup
  | assuming
  | watchAlways
  | watchTerminateWhen
  | entering
  | spawning
  | selecting
  | draining (bo : Option (BodyOutcome V))
  | waitBody (cause : TerminationCause)
  | exited (cause : TerminationCause) (bo : BodyOutcome V)
  | closing (cause : TerminationCause) (bo : BodyOutcome V)
  | finalizing (j : Judgement V) (rest : List Nat) (anyPending : Bool)
  | reporting (res : TestResult V)
  | done (j : Option (Judgement V)) (res : TestResult V)

/-- The runtime, as one run of a test sees it. -/
structure RunState (V : Type) where
  /-- How many runs there were before this one. -/
  run : Nat
  log : EventLog
  /-- Every expectation that was ever built; an object stays where it is. -/
  objects : List ExpectationVal
  /-- `temporalExpectations`. -/
  registered : List Nat
  /-- The state cell of each monitor registration. -/
  monitors : List (MonitorDef V × V)
  subscribers : List Subscriber
  specMonitorIDs : List Nat
  monitorErrors : List String
  shutdownFailed : Bool
  alwaysFired : Bool
  twFired : Bool
  ctxDone : Bool
  body : BodyState V
  /-- The work of the other goroutines. -/
  inflight : List (List Job)
  /-- The work that the test goroutine has to finish before it goes on. -/
  own : List Job
  phase : Phase V
  /-- The calls of this run on expectations, in order. -/
  history : List Observation

/-! ## Calls on expectations -/

/-- One call on an expectation. All access to the objects goes through here. -/
def RunState.callObject (st : RunState V) (ref : Nat) (c : Call) : Option Answer × RunState V :=
  match st.objects[ref]? with
  | none => (none, st)
  | some x =>
    (some (x.answer c).1,
      { st with
        objects := st.objects.set ref (x.answer c).2
        history := st.history ++ [⟨ref, x, c, (x.answer c).1⟩] })

/-- The object is an `always`. -/
def RunState.isAlways (st : RunState V) (ref : Nat) : Bool :=
  match st.objects[ref]? with
  | some (.always _) => true
  | _ => false

/-- `registerExpectation` on a new object, as the two builtins do it. -/
def RunState.register (st : RunState V) (x : ExpectationVal) : RunState V :=
  { st with objects := st.objects ++ [x], registered := st.registered ++ [st.objects.length] }

/-! ## Subscribers -/

/-- `RegisterMonitor`: a subscription with a fresh state cell. -/
def RunState.registerMonitor (st : RunState V) (m : MonitorDef V) : RunState V :=
  { st with
    monitors := st.monitors ++ [(m, m.stateInit)]
    subscribers := st.subscribers ++ [.monitor st.monitors.length] }

/-- `RegisterMonitor` for each of the spec-wide monitors. -/
def RunState.registerSpecMonitors (st : RunState V) : List (MonitorDef V) → RunState V
  | [] => st
  | m :: rest =>
    ({ st.registerMonitor m with
      specMonitorIDs := st.specMonitorIDs ++ [st.monitors.length] }).registerSpecMonitors rest

def RunState.unsubscribe (st : RunState V) (s : Subscriber) : RunState V :=
  { st with subscribers := st.subscribers.erase s }

def RunState.recordMonitorError (st : RunState V) (err : String) : RunState V :=
  { st with monitorErrors := st.monitorErrors ++ [err] }

/-- The update and the check of a monitor: its next state, or the error to record. -/
def MonitorDef.advance (m : MonitorDef V) (ev : Event) (log : EventLog) (state : V) :
    Except String V := do
  let newState ← match m.update with
    | none => pure state
    | some update =>
      match update ev log state with
      | .error err => throw ("monitor " ++ quote m.name ++ " update raised: " ++ err)
      | .ok v => pure v
  match m.check with
  | none => pure newState
  | some check =>
    match check ev log newState with
    | .error err => throw ("monitor " ++ quote m.name ++ " check raised: " ++ err)
    | .ok true => pure newState
    | .ok false =>
      throw ("monitor " ++ quote m.name ++ " violated at event seq=" ++ toString ev.seq ++
        " type=" ++ quote ev.type ++ " service=" ++ quote ev.service)

/-- The callback of a monitor. A failed check keeps the old state. -/
def RunState.runMonitor (st : RunState V) (id : Nat) (ev : Event) : RunState V :=
  match st.monitors[id]? with
  | none => st
  | some (m, state) =>
    if m.on.any (fun on => !on.matchesEvent ev) then st
    else
      match m.advance ev st.log state with
      | .error err => st.recordMonitorError err
      | .ok newState => { st with monitors := st.monitors.set id (m, newState) }

/-- `alwaysOnce`: the watcher of an older run closes the channel of that run. -/
def RunState.fireAlways (st : RunState V) (run : Nat) : RunState V :=
  if run = st.run then { st with alwaysFired := true, ctxDone := true } else st

def RunState.fireTerminateWhen (st : RunState V) (run : Nat) : RunState V :=
  if run = st.run then { st with twFired := true, ctxDone := true } else st

/-- One piece of a job, and the jobs that take its place. -/
def RunState.perform (st : RunState V) : Job → List Job × RunState V
  | .dispatch ev => (st.subscribers.map fun s => .callback s ev, st)
  | .callback (.monitor id) ev => ([], st.runMonitor id ev)
  | .callback (.alwaysWatch run) _ => ([.evalAlways run st.registered], st)
  | .callback (.terminateWhen run ref) _ =>
    match st.callObject ref (.evaluate st.log) with
    | (some (.evaluation ⟨.pass, _, _⟩), st) => ([], st.fireTerminateWhen run)
    | (_, st) => ([], st)
  | .evalAlways _ [] => ([], st)
  | .evalAlways run (r :: rs) =>
    if st.isAlways r then
      match st.callObject r (.evaluate st.log) with
      | (some (.evaluation ⟨.fail, _, _⟩), st) => ([], st.fireAlways run)
      | (_, st) => ([.evalAlways run rs], st)
    else ([.evalAlways run rs], st)
  | .signal _ [] => ([], st)
  | .signal anchor (r :: rs) =>
    if st.isAlways r then ([.signal anchor rs], (st.callObject r (.signal anchor)).2)
    else ([.signal anchor rs], st)

/-! ## The verdict -/

/-- A body error that is not a `halt()` turns a natural end into an immediate failure. -/
def promote (cause : TerminationCause) (bo : BodyOutcome V) : TerminationCause :=
  match bo.err with
  | none => cause
  | some err => if cause = .natural ∧ err.halt = none then .immediateFail else cause

/-- The fields that every result after the body shares. -/
def RunSpec.verdict (spec : RunSpec V) (j : Judgement V) (ms : Int) (result : ResultKind)
    (reason : String) : TestResult V :=
  { name := spec.name
    result
    reason
    durationMs := ms
    events := j.events
    matrix := j.checks.matrixInfo
    expectationName := j.checks.expectName }

def RunSpec.early (spec : RunSpec V) (result : ResultKind) (reason : String) : TestResult V :=
  { name := spec.name, result, reason }

def haltReason (reason : String) : String := if reason = "" then "halt()" else "halt: " ++ reason

/-- The result of a body that raised, or that panicked. -/
def RunSpec.bodyFailure (spec : RunSpec V) (j : Judgement V) (err : BodyErr) : TestResult V :=
  let failed :=
    if j.bo.panicVal = "" then spec.verdict j j.checks.elapsedMs .fail err.msg
    else spec.verdict j j.checks.elapsedMs .error j.bo.panicVal
  { failed with expectationViolated := j.checks.expectViolated }

/-- The return for a body error: skipped under a timeout and under
`terminate_when`, halted for a `halt()` at a natural end. -/
def RunSpec.bodyVerdict (spec : RunSpec V) (j : Judgement V) : Option (TestResult V) :=
  match j.bo.err with
  | none => none
  | some err =>
    if j.cause = .timeout ∨ j.cause = .terminateWhen then none
    else
      match err.halt, j.cause with
      | some reason, .natural =>
        some (spec.verdict j j.checks.elapsedMs .halted (haltReason reason))
      | _, _ => some (spec.bodyFailure j err)

/-- `strictViolationReason`. -/
def strictViolationReason (ev : Event) : String :=
  let cat := ev.field "category"
  let dest := if ev.field "detail" = "" then "" else " dest=" ++ ev.field "detail"
  "strict determinism: unmediated_io[" ++ cat ++ "] from service " ++ quote ev.service ++
    " (syscall=" ++ ev.field "syscall" ++ ", pid=" ++ ev.field "pid" ++ ")" ++ dest ++ " — add " ++
    quote cat ++ " to determinism(allow=...) or service(" ++ quote ev.service ++
    ", nondeterministic_ok=[...]) to tolerate, or fix the underlying I/O leak"

def Checks.whereReason (err : String) (n : Nat) : String :=
  "packet fault where= predicate failed " ++ toString n ++ " time(s), so it matched nothing " ++
    "and the fault never fired; first failure: " ++ err

def Checks.unwiredReason (c : Checks) : String :=
  let reason := "packet faults were installed " ++ toString c.unwiredInstalls ++
    " time(s) but no netstack gateway was attached, " ++
    "so no packet was affected; the result below would be meaningless"
  if c.packetGatewayAttachReason = "" then reason
  else reason ++ " — " ++ c.packetGatewayAttachReason

/-- The reason of the first check after the body error that fails the run: a
monitor, a blind watch(), a broken where=, an unwired packet fault. -/
def failureReason (c : Checks) (monitorErrors : List String) : Option String :=
  match monitorErrors with
  | err :: _ => some ("monitor violation: " ++ err)
  | [] =>
    if c.fsObservationFailure ≠ "" ∧ c.watchRan then some c.fsObservationFailure
    else
      match c.firstWhereError with
      | some (err, n) => some (Checks.whereReason err n)
      | none => if 0 < c.unwiredInstalls then some c.unwiredReason else none

def Checks.strictViolation (c : Checks) (events : List Event) : Option Event :=
  if c.strictEffective then c.firstStrictViolation events else none

/-- The cascade of returns between the body error and the expectations. -/
def RunSpec.checkVerdict (spec : RunSpec V) (j : Judgement V) : Option (TestResult V) :=
  match failureReason j.checks j.monitorErrors with
  | some reason => some (spec.verdict j j.checks.elapsedMs .fail reason)
  | none =>
    (j.checks.strictViolation j.events).map fun ev =>
      { spec.verdict j j.checks.elapsedMs .fail (strictViolationReason ev) with
        strictDeterminismViolation := true }

def bypassedRules (events : List Event) : List BypassedRule :=
  (events.filter fun ev => ev.type == "fault_zero_traffic").map fun ev =>
    ⟨ev.service, ev.field "syscall", ev.field "action", ev.field "label"⟩

/-- The result once every expectation is finalized and none of them failed. -/
def RunSpec.finalVerdict (spec : RunSpec V) (j : Judgement V) (anyPending : Bool) (t : Elapsed) :
    TestResult V :=
  if anyPending then
    spec.verdict j t.ms .inconclusive
      ("test timeout: temporal expectation(s) still pending after " ++ t.rounded)
  else if j.cause = .timeout then
    spec.verdict j t.ms .inconclusive ("test timeout: body did not complete within " ++ t.rounded)
  else
    let bypassed := if j.checks.requireFaults then bypassedRules j.events else []
    { spec.verdict j t.ms .pass "" with
      returnValue := j.bo.retVal
      faultBypassed := !bypassed.isEmpty
      bypassedRules := bypassed }

/-! ## The steps of the other goroutines

The body, its setup, the services and the proxies. Nothing orders them but the
guards below. -/

inductive EnvStep (V : Type) where
  | emit (typ service : String) (fields : GoMap String String)
  | recordOnly (typ service : String) (fields : GoMap String String)
  | mergeClock (localName remote : String)
  | work (i : Nat)
  | eventually (predicate : Callable) (anchor : Option MatcherVal)
  | always (predicate : Callable) (betweenStart betweenEnd : BetweenAnchor)
  | registerMonitor (m : MonitorDef V)
  | unregisterMonitor (id : Nat)
  | stable
  | bodyExit (bo : BodyOutcome V)
  | cancel
  | cleanupFails

def BodyOutcome.causedBy (bo : BodyOutcome V) (ctxDone : Bool) : Bool :=
  match bo.err with
  | some err => !err.cancelled || ctxDone
  | none => true

def envStep (st : RunState V) : EnvStep V → Option (RunState V)
  | .emit typ service fields =>
    some { st with
      log := st.log.emit typ service fields
      inflight := st.inflight ++ [[.dispatch (st.log.newEvent typ service fields)]] }
  | .recordOnly typ service fields => some { st with log := st.log.emit typ service fields }
  | .mergeClock localName remote => some { st with log := st.log.mergeClock localName remote }
  | .work i =>
    match st.inflight[i]? with
    | some (job :: rest) =>
      let (jobs, st) := st.perform job
      some { st with inflight := st.inflight.set i (jobs ++ rest) }
    | _ => none
  | .eventually predicate anchor =>
    some (st.register (.eventually (newEventually predicate anchor)))
  | .always predicate betweenStart betweenEnd =>
    some (st.register (.always (newAlways predicate betweenStart betweenEnd)))
  | .registerMonitor m => some (st.registerMonitor m)
  | .unregisterMonitor id => some (st.unsubscribe (.monitor id))
  | .stable => some { st with inflight := st.inflight ++ [[.signal .stable st.registered]] }
  | .bodyExit bo =>
    match st.body with
    | .running => if bo.causedBy st.ctxDone then some { st with body := .sent bo } else none
    | _ => none
  | .cancel => some { st with ctxDone := true }
  | .cleanupFails => some { st with shutdownFailed := true }

/-! ## The steps of the test goroutine -/

/-- The arms of the select that drains the two signals without waiting. -/
inductive DrainArm where
  | always | terminateWhen | default
  deriving DecidableEq

inductive MainStep where
  | ownWork
  | servicesStarted (err : Option StartError)
  | setupDone (err : Option String)
  | checkAssumes (matrix : Option MatrixInfo) (expectName : String)
  | subscribeAlways
  | subscribeTerminateWhen
  | enterBody
  | spawnBody
  | selectBody
  | selectAlways
  | selectTerminateWhen
  | selectCtx
  | drain (arm : DrainArm)
  | bodyExits
  | bodyDeadline
  | endBody
  | judge (checks : Checks)
  | finalizeNext (t : Elapsed)
  | report (ms : Int)

/-- `Emit` on the test goroutine: it dispatches before it goes on. -/
def RunState.emitOwn (st : RunState V) (typ service : String) (fields : GoMap String String) :
    RunState V :=
  { st with
    log := st.log.emit typ service fields
    own := st.own ++ [.dispatch (st.log.newEvent typ service fields)] }

/-- `signalLifecycleAnchor` on the test goroutine. -/
def RunState.signalOwn (st : RunState V) (anchor : LifecycleAnchor) : RunState V :=
  { st with own := st.own ++ [.signal anchor st.registered] }

/-- The return of `runTestImpl`, with the deferred unsubscriptions. -/
def RunState.finish (st : RunState V) (j : Option (Judgement V)) (res : TestResult V) :
    RunState V :=
  { st with
    phase := .done j res
    subscribers := st.subscribers.filter fun
      | .monitor id => !(st.specMonitorIDs.contains id)
      | .alwaysWatch _ | .terminateWhen _ _ => false }

/-- The cause that a drained signal stands for; `default` is taken only when
neither signal is ready. -/
def RunState.drained (st : RunState V) (otherwise : TerminationCause) :
    DrainArm → Option TerminationCause
  | .always => if st.alwaysFired then some .immediateFail else none
  | .terminateWhen => if st.twFired then some .terminateWhen else none
  | .default => if st.alwaysFired || st.twFired then none else some otherwise

/-- What follows a successful `startServices`: the spec-wide monitors, then `expect=`. -/
def RunState.prepare (st : RunState V) (spec : RunSpec V) : RunState V :=
  let st := st.registerSpecMonitors spec.specMonitors
  { st with
    registered := st.registered ++ ((spec.cfg.bind (·.expect)).toList)
    phase := .setup }

def startErrorFields (err : StartError) : GoMap String String :=
  storeAll ∅ (("error", err.msg) :: (err.code.toList.map fun code => ("code", code)))

def RunSpec.assumeOutcome (spec : RunSpec V) : AssumeOutcome :=
  match spec.cfg with
  | none => .holds
  | some cfg => if spec.isDiscovery then .holds else firstAssume spec.choices cfg.assumes

/-- The warning for a window that never opened. -/
def RunState.warnVacuous (st : RunState V) (r : Nat) (name : String) : RunState V :=
  if (st.objects[r]?).any (·.vacuousWindow) then
    st.emitOwn "vacuous_property" "test" (storeAll ∅ [("property", name),
      ("reason", "between= start anchor never fired; window never opened — verify the anchor")])
  else st

/-- The step that finalizes the next expectation. -/
def RunState.finalizeOne (st : RunState V) (spec : RunSpec V) (j : Judgement V) (t : Elapsed)
    (r : Nat) (rest : List Nat) (anyPending : Bool) : RunState V :=
  match st.callObject r (.finalize st.log j.cause), st.objects[r]? with
  | (some (.final v msg), st), some x =>
    let st := st.warnVacuous r x.name
    match v with
    | .fail => st.finish (some j) (spec.verdict j t.ms .fail (x.name ++ ": " ++ msg))
    | .pending => { st with phase := .finalizing j rest true }
    | .pass => { st with phase := .finalizing j rest anyPending }
  | (_, st), _ => { st with phase := .finalizing j rest anyPending }

/-- What the verdict step looks at. -/
def RunState.judgement (st : RunState V) (cause : TerminationCause) (bo : BodyOutcome V)
    (checks : Checks) : Judgement V :=
  { cause, bo, checks
    monitorErrors := st.monitorErrors
    events := st.log.events
    expectations := st.registered }

/-- What follows the end of the services: the supervisor, the body error and the
checks, in this order, and the expectations when none of them returns. -/
def RunState.judge (st : RunState V) (spec : RunSpec V) (cause : TerminationCause)
    (bo : BodyOutcome V) (checks : Checks) : RunState V :=
  let j := st.judgement cause bo checks
  match checks.supervisorFailure with
  | some err =>
    { st.emitOwn "supervisor_exited" "" (storeAll ∅ [("error", err)]) with
      phase := .reporting (spec.early .error err) }
  | none =>
    match (spec.bodyVerdict j).or (spec.checkVerdict j) with
    | some res => st.finish (some j) res
    | none => { st with phase := .finalizing j st.registered false }

/-- One step of `runTestImpl` itself, with no work left to finish. -/
def advance (spec : RunSpec V) (st : RunState V) (m : MainStep) : Option (RunState V) :=
  match st.phase with
  | .idle => none
  | .starting =>
    match m with
    | .servicesStarted none => some (st.prepare spec)
    | .servicesStarted (some err) =>
      some { st.emitOwn "service_start_error" "" (startErrorFields err) with
        phase := .reporting (spec.early .fail ("failed to start services: " ++ err.msg)) }
    | _ => none
  | .setup =>
    match m with
    | .setupDone none => some { st with phase := .assuming }
    | .setupDone (some err) =>
      if spec.cfg.any (·.hasSetup) then
        some { st with phase := .reporting (spec.early .fail ("setup: " ++ err)) }
      else none
    | _ => none
  | .assuming =>
    match m with
    | .checkAssumes matrix expectationName =>
      match spec.assumeOutcome with
      | .holds => some { st with phase := .watchAlways }
      | .rejected msg =>
        some { st with
          phase := .reporting { spec.early .halted msg with matrix, expectationName } }
      | .raised err =>
        some { st with
          phase := .reporting { spec.early .error err with matrix, expectationName } }
    | _ => none
  | .watchAlways =>
    match m with
    | .subscribeAlways =>
      some { st with
        subscribers := st.subscribers ++ [.alwaysWatch st.run]
        phase := .watchTerminateWhen }
    | _ => none
  | .watchTerminateWhen =>
    match m with
    | .subscribeTerminateWhen =>
      some { st with
        subscribers := st.subscribers ++
          (spec.cfg.bind (·.terminateWhen)).toList.map (.terminateWhen st.run)
        phase := .entering }
    | _ => none
  | .entering =>
    match m with
    | .enterBody => some { st.signalOwn .bodyStart with phase := .spawning }
    | _ => none
  | .spawning =>
    match m with
    | .spawnBody => some { st with body := .running, phase := .selecting }
    | _ => none
  | .selecting =>
    match m, st.body with
    | .selectBody, .sent bo => some { st with body := .received, phase := .draining (some bo) }
    | .selectAlways, _ =>
      if st.alwaysFired then some { st with phase := .waitBody .immediateFail } else none
    | .selectTerminateWhen, _ =>
      if st.twFired then some { st with phase := .waitBody .terminateWhen } else none
    | .selectCtx, _ => if st.ctxDone then some { st with phase := .draining none } else none
    | _, _ => none
  | .draining (some bo) =>
    match m with
    | .drain arm => (st.drained .natural arm).map fun cause => { st with phase := .exited cause bo }
    | _ => none
  | .draining none =>
    match m with
    | .drain arm => (st.drained .timeout arm).map fun cause => { st with phase := .waitBody cause }
    | _ => none
  | .waitBody cause =>
    match m, st.body with
    | .bodyExits, .sent bo => some { st with body := .received, phase := .exited cause bo }
    -- `waitBodyExit` gives up after its deadline and hands back a zero outcome.
    | .bodyDeadline, _ => some { st with phase := .exited cause ⟨none, none, ""⟩ }
    | _, _ => none
  | .exited cause bo =>
    match m with
    | .endBody => some { st.signalOwn .bodyEnd with phase := .closing (promote cause bo) bo }
    | _ => none
  | .closing cause bo =>
    match m with
    | .judge checks => some (st.judge spec cause bo checks)
    | _ => none
  | .finalizing j [] anyPending =>
    match m with
    | .finalizeNext t => some (st.finish (some j) (spec.finalVerdict j anyPending t))
    | _ => none
  | .finalizing j (r :: rest) anyPending =>
    match m with
    | .finalizeNext t => some (st.finalizeOne spec j t r rest anyPending)
    | _ => none
  | .reporting res =>
    match m with
    | .report ms => some (st.finish none { res with durationMs := ms, events := st.log.events })
    | _ => none
  | .done _ _ => none

/-- One step of the test goroutine: pending work goes first. -/
def mainStep (spec : RunSpec V) (st : RunState V) (m : MainStep) : Option (RunState V) :=
  match st.own, m with
  | job :: rest, .ownWork =>
    let (jobs, st) := st.perform job
    some { st with own := jobs ++ rest }
  | _ :: _, _ => none
  | [], m => advance spec st m

inductive Step (V : Type) where
  | env (e : EnvStep V)
  | main (m : MainStep)

def step (spec : RunSpec V) (st : RunState V) : Step V → Option (RunState V)
  | .env e => envStep st e
  | .main m => mainStep spec st m

/-- A runtime after spec load, with the expectations that the spec built. -/
def loaded (objects : List ExpectationVal) : RunState V :=
  { run := 0
    log := newEventLog
    objects
    registered := List.range objects.length
    monitors := []
    subscribers := []
    specMonitorIDs := []
    monitorErrors := []
    shutdownFailed := false
    alwaysFired := false
    twFired := false
    ctxDone := false
    body := .notStarted
    inflight := []
    own := []
    phase := .idle
    history := [] }

/-- The entry of `runTestImpl`: it is refused, or it resets everything that is
per test. The expectation objects stay as they are. -/
def startRun (spec : RunSpec V) (rt : RunState V) : RunState V :=
  let st := { rt with
    run := rt.run + 1, alwaysFired := false, twFired := false, ctxDone := false
    body := .notStarted, own := [], specMonitorIDs := [], history := [] }
  if rt.shutdownFailed then
    { st with phase := .done none (spec.early .fail
        "TEARDOWN_FAILED: previous cleanup failed; create a fresh runtime") }
  else if !spec.callable then
    { st with phase := .done none (spec.early .fail
        ("test " ++ quote spec.name ++ " not found or not callable")) }
  else
    let st := { st with
      log := rt.log.reset, subscribers := [], monitorErrors := [], registered := [] }
    match spec.mockStateError with
    | some err => { st with phase := .done none (spec.early .fail err) }
    | none => { st with phase := .starting }

/-- The steps lead from the start of a run to this state. -/
def Reaches (spec : RunSpec V) (rt : RunState V) (steps : List (Step V)) (st : RunState V) : Prop :=
  runs.run (step spec) (startRun spec rt) steps = some st

/-- Runs one after the other, each on the runtime that the one before it left
behind, with the state at the end of each. -/
def playRuns (rt : RunState V) : List (RunSpec V × List (Step V)) → Option (List (RunState V))
  | [] => some []
  | (spec, steps) :: rest =>
    (runs.run (step spec) (startRun spec rt) steps).bind fun st =>
      (playRuns st rest).map (st :: ·)

/-! ## Parts of runs

The steps of the test goroutine when nothing else goes on, for `n` registered
expectations, and what they need. -/

/-- A report with nothing to complain about. -/
def nothingReported : Checks :=
  { matrixInfo := none
    expectName := ""
    expectViolated := false
    requireFaults := false
    supervisorFailure := none
    fsObservationFailure := ""
    watchRan := false
    firstWhereError := none
    unwiredInstalls := 0
    packetGatewayAttachReason := ""
    strictEffective := false
    firstStrictViolation := fun _ => none
    elapsedMs := 0 }

/-- `eventually(ready)`: some event has the type "ready". -/
def eventuallyReady : ExpectationVal :=
  .eventually (newEventually ⟨"ready", fun log => .ok (log.holdsMatch (matchType "ready"))⟩ none)

def toBody (n : Nat) : List (Step V) :=
  [.main (.servicesStarted none), .main (.setupDone none), .main (.checkAssumes none ""),
    .main .subscribeAlways, .main .subscribeTerminateWhen, .main .enterBody] ++
  List.replicate (n + 1) (.main .ownWork) ++ [.main .spawnBody]

def toVerdict (n : Nat) : List (Step V) :=
  [.main .endBody] ++ List.replicate (n + 1) (.main .ownWork) ++ [.main (.judge nothingReported)]

/-- The `Finalize` loop. -/
def toResult (n : Nat) : List (Step V) :=
  List.replicate (n + 1) (.main (.finalizeNext ⟨0, "0s"⟩))

/-- A test that expects the first object of the spec. -/
def expectingTest : RunSpec Unit :=
  { name := "test_boot"
    callable := true
    mockStateError := none
    cfg := some ⟨false, some 0, none, []⟩
    specMonitors := []
    isDiscovery := false
    choices := ∅ }

def idleRun : List (Step Unit) :=
  toBody 1 ++ [.env (.bodyExit ⟨none, none, ""⟩), .main .selectBody, .main (.drain .default)] ++
    toVerdict 1

def readyRun : List (Step Unit) :=
  toBody 1 ++ [.env (.emit "ready" "db" ∅)] ++ List.replicate 4 (.env (.work 0)) ++
    [.env (.bodyExit ⟨none, none, ""⟩), .main .selectBody, .main (.drain .default)] ++ toVerdict 1

end faultbox.test_run
