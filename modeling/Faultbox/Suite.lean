-- The run of a whole suite (RunAll): every test, every seed and every leaf adds
-- to the counters, and the teardown can still rewrite the last result. The law:
-- the counters count the recorded results unless that rewrite hits a result
-- that is neither pass, nor inconclusive, nor fail.
import Faultbox.Fanout
import Faultbox.SpecTests
import Faultbox.Runs

open goval faultbox.event_log faultbox.test_result faultbox.plan_tree faultbox.fanout
open faultbox.plan

namespace faultbox.suite

variable {V σ : Type}

/-! ## What a suite runs with -/

inductive ExploreMode where
  | off | sample | all
deriving DecidableEq

/-- `RunConfig`, less what only the tests themselves read. -/
structure RunConfig where
  filter : String := ""
  seed : Option Nat := none
  runs : Int := 0
  failOnly : Bool := false
  exploreMode : ExploreMode := .off

/-- `SuiteResult`, less its duration and its diagnostics; a crash keeps the panic
and the name of the test. -/
structure SuiteResult (V : Type) where
  tests : List (TestResult V) := []
  pass : Int := 0
  fail : Int := 0
  inconclusive : Int := 0
  halted : Int := 0
  matched : Int := 0
  aborted : Int := 0
  crash : Option (String × String) := none

/-- Everything that RunAll calls, in the state `σ` of the runtime and the world:
running a leaf of a test, setting the seed and the number of the run, counting
the held syscalls, the context, the failure of a shutdown, the cleanup, the event
log, and the glob and regular expression patterns of a filter. -/
structure Env (σ V : Type) where
  impl : String → σ → List (ChoiceVal V) → PlanLeaf → ImplOutcome V × BodyTrace V × σ
  configure : σ → (seed run : Nat) → σ
  exploreHeldN : σ → Int
  ctxDone : σ → Bool
  shutdownFailed : σ → Bool
  cleanup : σ → σ
  events : σ → List Event
  pattern : String → String → Bool

def Env.runner (env : Env σ V) (name : String) : Runner σ V := ⟨env.impl name, env.ctxDone⟩

def Env.cancelled (env : Env σ V) (s : σ) : Bool := env.ctxDone s || env.shutdownFailed s

def matchTestFilter (pattern : String → String → Bool) (testName filter : String)
    (matrixBases : List String) : Bool :=
  testName == filter || testName == "test_" ++ filter ||
    [filter, "test_" ++ filter].any (fun base =>
      matrixBases.contains base && hasPrefix testName (base ++ "_")) ||
    pattern filter testName

/-- `engine.Factorial`: capped at the factorial of 12. -/
def engineFactorial (n : Int) : Nat := (min n.toNat 12).factorial

/-! ## One run of one test -/

def noteCrash (name : String) (suite : SuiteResult V) (lr : TestResult V) : SuiteResult V :=
  if lr.result = .error ∧ suite.crash = none ∧ lr.reason ≠ "" then
    { suite with crash := some (lr.reason, name) }
  else suite

/-- The switch of RunAll on the result of a leaf. -/
def record (failOnly : Bool) (suite : SuiteResult V) (lr : TestResult V) : SuiteResult V :=
  match lr.result with
  | .pass =>
    { suite with
      pass := suite.pass + 1
      tests := if failOnly then suite.tests else suite.tests ++ [lr] }
  | .inconclusive =>
    { suite with inconclusive := suite.inconclusive + 1, tests := suite.tests ++ [lr] }
  | .halted =>
    { suite with
      halted := suite.halted + 1
      tests := if failOnly then suite.tests else suite.tests ++ [lr] }
  | .fail | .error => { suite with fail := suite.fail + 1, tests := suite.tests ++ [lr] }

/-- What is left to do after a run: `next` is the number of runs of the test, or
none when it stops here. -/
structure AfterRun (σ V : Type) where
  result : SuiteResult V
  next : Option Nat
  state : σ

/-- The body of the loop over the runs of a test. None when Go panics. -/
def runOnce (env : Env σ V) (cfg : RunConfig) (name : String) (run testRuns : Nat)
    (suite : SuiteResult V) (s : σ) : Option (AfterRun σ V) :=
  if env.cancelled s then some ⟨{ suite with aborted := suite.aborted + 1 }, none, s⟩
  else
    let seed := cfg.seed.getD run
    match runTestFanout (env.runner name) name (env.configure s seed run) with
    | none => none
    | some (leafResults, skipped, s) =>
      let suite := { suite with aborted := suite.aborted + skipped }
      if leafResults.isEmpty then some ⟨suite, some testRuns, s⟩
      else
        let leafResults := leafResults.map fun lr => { lr with seed := seed }
        let suite := leafResults.foldl (noteCrash name) suite
        let autoExplore := cfg.exploreMode == .all && cfg.runs ≤ 0
        let testRuns := if autoExplore && run == 0 && 0 < env.exploreHeldN s then
          engineFactorial (env.exploreHeldN s) else testRuns
        let anyFailed := leafResults.any (·.result.red)
        some ⟨leafResults.foldl (record cfg.failOnly) suite,
          if 1 < testRuns ∧ anyFailed = true then none else some testRuns, s⟩

/-- The runs of a test after the first. -/
def runMore (env : Env σ V) (cfg : RunConfig) (name : String) :
    Nat → Nat → Nat → SuiteResult V → σ → Option (SuiteResult V × σ)
  | 0, _, _, suite, s => some (suite, s)
  | left + 1, run, testRuns, suite, s =>
    match runOnce env cfg name run testRuns suite s with
    | none => none
    | some ⟨suite, none, s⟩ => some (suite, s)
    | some ⟨suite, some testRuns, s⟩ => runMore env cfg name left (run + 1) testRuns suite s

/-- All the runs of a test. The first one decides how many there are when all the
interleavings are explored. -/
def runTest (env : Env σ V) (cfg : RunConfig) (name : String) (suite : SuiteResult V) (s : σ) :
    Option (SuiteResult V × σ) :=
  let runs := if cfg.runs ≤ 0 then 1 else cfg.runs.toNat
  match runOnce env cfg name 0 runs suite s with
  | none => none
  | some ⟨suite, none, s⟩ => some (suite, s)
  | some ⟨suite, some testRuns, s⟩ => runMore env cfg name (testRuns - 1) 1 testRuns suite s

/-! ## The suite -/

/-- The loop over the discovered tests. -/
def runNamed (env : Env σ V) (cfg : RunConfig) (matrixBases : List String)
    (st : SuiteResult V × σ) (name : String) : Option (SuiteResult V × σ) :=
  if cfg.filter ≠ "" ∧ ¬ matchTestFilter env.pattern name cfg.filter matrixBases = true then
    some st
  else
    let suite := { st.1 with matched := st.1.matched + 1 }
    if env.cancelled st.2 then some ({ suite with aborted := suite.aborted + 1 }, st.2)
    else runTest env cfg name suite st.2

def matrixBases (reg : Registry) : List String :=
  reg.faultScenarioDefs.filterMap fun fs => fs.matrix.map fun m => "test_matrix_" ++ m.scenarioName

def runTests (env : Env σ V) (cfg : RunConfig) (reg : Registry) (s : σ) :
    Option (SuiteResult V × σ) :=
  runs.run (runNamed env cfg (matrixBases reg)) ({}, s) (discoverTests reg).1

def tornDown (env : Env σ V) (s : σ) (last : TestResult V) : TestResult V :=
  enforceShutdownErrors { last with events := env.events s }

/-- The counters, after the last result `previous` was rewritten to `last`. -/
def recount (previous last : ResultKind) (suite : SuiteResult V) : SuiteResult V :=
  if previous ≠ .fail ∧ last = .fail then
    { suite with
      fail := suite.fail + 1
      pass := if previous = .pass then suite.pass - 1 else suite.pass
      inconclusive :=
        if previous = .inconclusive then suite.inconclusive - 1 else suite.inconclusive }
  else suite

/-- The end of RunAll, after the cleanup. -/
def finish (env : Env σ V) (suite : SuiteResult V) (s : σ) : SuiteResult V :=
  match env.shutdownFailed s, suite.tests.getLast? with
  | true, some last =>
    recount last.result (tornDown env s last).result
      { suite with tests := suite.tests.dropLast ++ [tornDown env s last] }
  | _, _ => suite

def runAll (env : Env σ V) (cfg : RunConfig) (reg : Registry) (s : σ) :
    Option (SuiteResult V × σ) :=
  (runTests env cfg reg s).map fun st => (finish env st.1 (env.cleanup st.2), env.cleanup st.2)

/-! ## The counters -/

def counts (kind : ResultKind → Bool) (tests : List (TestResult V)) : Int :=
  (tests.countP fun t => kind t.result : Nat)

def ResultKind.other (k : ResultKind) : Bool :=
  !(k == .pass) && !(k == .inconclusive) && !(k == .halted)

/-- Each counter counts the recorded tests of its kind. -/
structure Agrees (suite : SuiteResult V) : Prop where
  pass : suite.pass = counts (· == .pass) suite.tests
  inconclusive : suite.inconclusive = counts (· == .inconclusive) suite.tests
  halted : suite.halted = counts (· == .halted) suite.tests
  fail : suite.fail = counts ResultKind.other suite.tests

theorem counts_append (kind : ResultKind → Bool) (tests : List (TestResult V)) (t : TestResult V) :
    counts kind (tests ++ [t]) = counts kind tests + if kind t.result then 1 else 0 := by
  unfold counts
  rw [List.countP_append, List.countP_singleton]
  split <;> simp

theorem record_agrees {suite : SuiteResult V} (h : Agrees suite) (lr : TestResult V) :
    Agrees (record false suite lr) := by
  obtain ⟨hp, hi, hh, hf⟩ := h
  cases hr : lr.result <;>
    refine ⟨?_, ?_, ?_, ?_⟩ <;>
      simp [record, hr, counts_append, ResultKind.other, hp, hi, hh, hf]

theorem noteCrash_agrees (name : String) {suite : SuiteResult V} (h : Agrees suite)
    (lr : TestResult V) : Agrees (noteCrash name suite lr) := by
  unfold noteCrash
  split
  · exact ⟨h.pass, h.inconclusive, h.halted, h.fail⟩
  · exact h

theorem foldl_agrees {f : SuiteResult V → TestResult V → SuiteResult V}
    (hf : ∀ suite lr, Agrees suite → Agrees (f suite lr)) (results : List (TestResult V))
    {suite : SuiteResult V} (h : Agrees suite) : Agrees (results.foldl f suite) := by
  induction results generalizing suite with
  | nil => exact h
  | cons lr rest ih => exact ih (hf suite lr h)

/-! ## Every run keeps the counters right -/

section Runs

variable {env : Env σ V} {cfg : RunConfig} {name : String}

theorem runOnce_agrees (hcfg : cfg.failOnly = false) {run testRuns : Nat} {suite : SuiteResult V}
    {s : σ} {out : AfterRun σ V} (hrun : runOnce env cfg name run testRuns suite s = some out)
    (h : Agrees suite) : Agrees out.result := by
  unfold runOnce at hrun
  split at hrun
  · cases hrun
    exact ⟨h.pass, h.inconclusive, h.halted, h.fail⟩
  · simp only at hrun
    split at hrun
    · cases hrun
    · split at hrun
      · cases hrun
        exact ⟨h.pass, h.inconclusive, h.halted, h.fail⟩
      · cases hrun
        simp only [hcfg]
        apply foldl_agrees (fun suite lr hs => record_agrees hs lr)
        apply foldl_agrees (fun suite lr hs => noteCrash_agrees name hs lr)
        exact ⟨h.pass, h.inconclusive, h.halted, h.fail⟩

theorem runMore_agrees (hcfg : cfg.failOnly = false) (left run testRuns : Nat)
    {suite : SuiteResult V} {s : σ} {out : SuiteResult V × σ}
    (hrun : runMore env cfg name left run testRuns suite s = some out) (h : Agrees suite) :
    Agrees out.1 := by
  induction left generalizing run testRuns suite s with
  | zero =>
    cases hrun
    exact h
  | succ left ih =>
    unfold runMore at hrun
    split at hrun
    · cases hrun
    · rename_i ho
      cases hrun
      exact runOnce_agrees hcfg ho h
    · rename_i ho
      exact ih _ _ hrun (runOnce_agrees hcfg ho h)

theorem runTest_agrees (hcfg : cfg.failOnly = false) {suite : SuiteResult V} {s : σ}
    {out : SuiteResult V × σ} (hrun : runTest env cfg name suite s = some out)
    (h : Agrees suite) : Agrees out.1 := by
  unfold runTest at hrun
  simp only at hrun
  split at hrun
  · cases hrun
  · rename_i ho
    cases hrun
    exact runOnce_agrees hcfg ho h
  · rename_i ho
    exact runMore_agrees hcfg _ _ _ hrun (runOnce_agrees hcfg ho h)

theorem runNamed_agrees (hcfg : cfg.failOnly = false) {bases : List String}
    {st out : SuiteResult V × σ} (hrun : runNamed env cfg bases st name = some out)
    (h : Agrees st.1) : Agrees out.1 := by
  have hm : Agrees { st.1 with matched := st.1.matched + 1 } :=
    ⟨h.pass, h.inconclusive, h.halted, h.fail⟩
  unfold runNamed at hrun
  split at hrun
  · cases hrun
    exact h
  · simp only at hrun
    split at hrun
    · cases hrun
      exact ⟨h.pass, h.inconclusive, h.halted, h.fail⟩
    · exact runTest_agrees hcfg hrun hm

theorem runTests_agrees (hcfg : cfg.failOnly = false) {reg : Registry} {s : σ}
    {out : SuiteResult V × σ} (hrun : runTests env cfg reg s = some out) : Agrees out.1 := by
  apply runs.run_preserves (fun st => Agrees st.1) _ hrun
  · exact ⟨rfl, rfl, rfl, rfl⟩
  · intro st testName st' hs h
    exact runNamed_agrees hcfg hs h

end Runs

/-! ## The rewrite of the last result -/

/-- The log of the teardown holds a stop error. -/
def StopError (env : Env σ V) (s : σ) : Prop :=
  ∃ ev ∈ env.events s, ev.type = "service_stop_error"

/-- The teardown failed with a stop error in the log, and the last recorded test
was halted or ended with an error. -/
def Miscounts (env : Env σ V) (suite : SuiteResult V) (s : σ) : Prop :=
  env.shutdownFailed s = true ∧ StopError env s ∧
    ∃ last, suite.tests.getLast? = some last ∧ (last.result = .halted ∨ last.result = .error)

theorem tornDown_of_stopError {env : Env σ V} {s : σ} (h : StopError env s) (last : TestResult V) :
    (tornDown env s last).result = .fail := by
  obtain ⟨ev, hev, ht⟩ := h
  unfold tornDown enforceShutdownErrors
  split
  · rename_i hn
    have := List.find?_eq_none.mp hn ev hev
    simp [ht] at this
  · rfl

theorem tornDown_of_no_stopError {env : Env σ V} {s : σ} (h : ¬ StopError env s)
    (last : TestResult V) : (tornDown env s last).result = last.result := by
  unfold tornDown enforceShutdownErrors
  split
  · rfl
  · rename_i ev hs
    exfalso
    apply h
    exact ⟨ev, List.mem_of_find?_eq_some hs, by simpa using List.find?_some hs⟩

theorem counts_of_last {suite : SuiteResult V} {last : TestResult V}
    (hl : suite.tests.getLast? = some last) (kind : ResultKind → Bool) :
    counts kind suite.tests =
      counts kind suite.tests.dropLast + if kind last.result then 1 else 0 := by
  have ht : suite.tests.dropLast ++ [last] = suite.tests :=
    List.dropLast_append_getLast? last hl
  rw [← counts_append, ht]

theorem rewritten_agrees_iff {suite : SuiteResult V} {last torn : TestResult V}
    (h : Agrees suite) (hl : suite.tests.getLast? = some last) (ht : torn.result = .fail) :
    Agrees (recount last.result torn.result
        { suite with tests := suite.tests.dropLast ++ [torn] }) ↔
      ¬ (last.result = .halted ∨ last.result = .error) := by
  have hp := h.pass
  have hi := h.inconclusive
  have hh := h.halted
  have hf := h.fail
  rw [counts_of_last hl] at hp hi hh hf
  cases hr : last.result with
  | pass | inconclusive | fail =>
    rw [hr] at hp hi hh hf
    simp [ResultKind.other] at hp hi hh hf
    simp only [reduceCtorEq, or_self, not_false_eq_true, iff_true]
    refine ⟨?_, ?_, ?_, ?_⟩ <;>
      simp [recount, counts_append, ht, ResultKind.other, hp, hi, hh, hf]
  | halted =>
    -- The failure is added, but Halted keeps counting the test that is gone.
    simp only [reduceCtorEq, or_false, not_true_eq_false, iff_false]
    intro ha
    have := ha.halted
    rw [hr] at hh
    simp [recount, counts_append, ht] at this hh
    omega
  | error =>
    -- The error was counted under Fail already.
    simp only [reduceCtorEq, false_or, not_true_eq_false, iff_false]
    intro ha
    have := ha.fail
    rw [hr] at hf
    simp [recount, counts_append, ht, ResultKind.other] at this hf
    omega

theorem kept_agrees {suite : SuiteResult V} {last torn : TestResult V} (h : Agrees suite)
    (hl : suite.tests.getLast? = some last) (ht : torn.result = last.result) :
    Agrees (recount last.result torn.result
      { suite with tests := suite.tests.dropLast ++ [torn] }) := by
  have hs : recount last.result torn.result
      { suite with tests := suite.tests.dropLast ++ [torn] } =
      { suite with tests := suite.tests.dropLast ++ [torn] } := by
    unfold recount
    rw [if_neg]
    rintro ⟨hne, heq⟩
    exact hne (ht ▸ heq)
  rw [hs]
  refine ⟨?_, ?_, ?_, ?_⟩
  · exact h.pass.trans (by rw [counts_of_last hl, counts_append, ht])
  · exact h.inconclusive.trans (by rw [counts_of_last hl, counts_append, ht])
  · exact h.halted.trans (by rw [counts_of_last hl, counts_append, ht])
  · exact h.fail.trans (by rw [counts_of_last hl, counts_append, ht])

theorem finish_agrees_iff (env : Env σ V) {suite : SuiteResult V} (h : Agrees suite) (s : σ) :
    Agrees (finish env suite s) ↔ ¬ Miscounts env suite s := by
  cases hf : env.shutdownFailed s with
  | false =>
    have hs : finish env suite s = suite := by simp [finish, hf]
    rw [hs]
    simp [h, Miscounts, hf]
  | true =>
    cases hl : suite.tests.getLast? with
    | none =>
      have hs : finish env suite s = suite := by simp [finish, hf, hl]
      rw [hs]
      simp [h, Miscounts, hl]
    | some last =>
      have hfi : finish env suite s = recount last.result (tornDown env s last).result
          { suite with tests := suite.tests.dropLast ++ [tornDown env s last] } := by
        simp [finish, hf, hl]
      rw [hfi]
      by_cases hst : StopError env s
      · rw [rewritten_agrees_iff h hl (tornDown_of_stopError hst last)]
        simp [Miscounts, hf, hst, hl]
      · have ha := kept_agrees h hl (tornDown_of_no_stopError hst last)
        simp [ha, Miscounts, hst]

/-! ## The law -/

/-- After a suite that keeps every result, the counters agree with the recorded
tests exactly when the teardown did not rewrite a halted test or an error. -/
theorem the_counters_agree_iff (env : Env σ V) (cfg : RunConfig) (reg : Registry) (s : σ)
    (hcfg : cfg.failOnly = false) {final : SuiteResult V} {s' : σ}
    (hrun : runAll env cfg reg s = some (final, s')) :
    ∃ suite s₀, runTests env cfg reg s = some (suite, s₀) ∧
      (Agrees final ↔ ¬ Miscounts env suite (env.cleanup s₀)) := by
  obtain ⟨⟨suite, s₀⟩, ht, hf⟩ := Option.map_eq_some_iff.mp hrun
  refine ⟨suite, s₀, ht, ?_⟩
  have ha := runTests_agrees hcfg ht
  cases hf
  exact finish_agrees_iff env ha (env.cleanup s₀)

def oneTest : Registry := { Registry.empty [] with globals := storeAll ∅ [("test_login", true)] }

/-- A runtime whose tests all end with the same result and whose cleanup fails:
the state says whether the cleanup was run. -/
def failingCleanup (result : ResultKind) : Env Bool Nat where
  impl name s _ _ := (.returned { name := name, result := result } false, ⟨[], [], []⟩, s)
  configure s _ _ := s
  exploreHeldN _ := 0
  ctxDone _ := false
  shutdownFailed s := s
  cleanup _ := true
  events s := if s then [⟨0, "service_stop_error", "", "", "db", ∅, ∅⟩] else []
  pattern _ _ := false

theorem a_rewritten_pass_is_recounted :
    ∃ final, runAll (failingCleanup .pass) {} oneTest false = some (final, true) ∧
      Agrees final := by
  obtain ⟨final, hrun⟩ : ∃ final,
      runAll (failingCleanup .pass) {} oneTest false = some (final, true) := ⟨_, rfl⟩
  obtain ⟨suite, s₀, ht, hlaw⟩ :=
    the_counters_agree_iff (failingCleanup .pass) {} oneTest false rfl hrun
  refine ⟨final, hrun, hlaw.mpr ?_⟩
  rintro ⟨-, -, last, hl, hk⟩
  obtain ⟨rfl, -⟩ := Prod.mk.inj (Option.some.inj ht)
  obtain rfl := Option.some.inj hl
  rcases hk with h | h <;> cases h

/-- A halted test and an error, rewritten to a failure: Halted still counts the
one, and Fail counts the other twice. -/
theorem a_rewritten_halt_or_error_is_miscounted :
    (∃ final, runAll (failingCleanup .halted) {} oneTest false = some (final, true) ∧
      final.tests.map (·.result) = [.fail] ∧ final.fail = 1 ∧ final.halted = 1 ∧
      ¬ Agrees final) ∧
    (∃ final, runAll (failingCleanup .error) {} oneTest false = some (final, true) ∧
      final.tests.map (·.result) = [.fail] ∧ final.fail = 2 ∧ ¬ Agrees final) := by
  constructor
  · refine ⟨_, rfl, rfl, rfl, rfl, ?_⟩
    intro h
    exact absurd h.halted (by decide)
  · refine ⟨_, rfl, rfl, rfl, ?_⟩
    intro h
    exact absurd h.fail (by decide)

end faultbox.suite
