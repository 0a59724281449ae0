-- The tests of a loaded spec, from its four registries (def functions,
-- scenario(), fault_scenario() and fault_matrix(), test()): the names that the
-- runner discovers, and the entries that the plan makes of them.
import Faultbox.ChooseAxes
import Faultbox.TestResult

open goval faultbox.test_result

namespace faultbox.plan

/-! ## The registries -/

/-- A fault_scenario(), or one cell of a fault_matrix(). -/
structure FaultScenarioDef where
  name : String
  matrix : Option MatrixInfo
deriving DecidableEq

/-- What loading a spec leaves behind: its source, its globals with whether they
can be called, and what its declarations registered. The callables themselves
are left out, only the names decide which tests there are. -/
structure Registry where
  source : List TopStmt
  globals : GoMap String Bool
  scenarios : List String
  faultScenarios : GoMap String FaultScenarioDef
  testConfigs : GoMap String Unit
  keyed : ∀ k fs, faultScenarios.lookup k = some fs → fs.name = k
  celled : ∀ k fs m, faultScenarios.lookup k = some fs → fs.matrix = some m →
    fs.name = "matrix_" ++ m.scenarioName ++ "_" ++ m.faultName
  tested : ∀ k ∈ testConfigs, ∃ name, k = "test_" ++ name

/-- The registries before the spec is executed. -/
def Registry.empty (source : List TopStmt) : Registry where
  source := source
  globals := ∅
  scenarios := []
  faultScenarios := ∅
  testConfigs := ∅
  keyed := by simp
  celled := by simp
  tested := by simp

/-- `rt.faultScenarios[name] = fs`. -/
def Registry.addFaultScenario (reg : Registry) (fs : FaultScenarioDef)
    (hcell : ∀ m, fs.matrix = some m →
      fs.name = "matrix_" ++ m.scenarioName ++ "_" ++ m.faultName) : Registry :=
  { reg with
    faultScenarios := reg.faultScenarios.insert fs.name fs
    keyed := by
      intro k fs' h
      by_cases hk : k = fs.name
      · rw [hk, AList.lookup_insert, Option.some.injEq] at h
        rw [hk, h]
      · rw [AList.lookup_insert_ne hk] at h
        exact reg.keyed k fs' h
    celled := by
      intro k fs' m h hm
      by_cases hk : k = fs.name
      · rw [hk, AList.lookup_insert, Option.some.injEq] at h
        rw [← h] at hm ⊢
        exact hcell m hm
      · rw [AList.lookup_insert_ne hk] at h
        exact reg.celled k fs' m h hm }

def Registry.scenario (reg : Registry) (name : String) : Registry :=
  { reg with scenarios := reg.scenarios ++ [name] }

def Registry.faultScenario (reg : Registry) (name : String) : Registry :=
  reg.addFaultScenario ⟨name, none⟩ (by simp)

def Registry.matrixCell (reg : Registry) (scenario fault : String) : Registry :=
  reg.addFaultScenario ⟨"matrix_" ++ scenario ++ "_" ++ fault, some ⟨scenario, fault⟩⟩
    (by rintro m ⟨⟩; rfl)

/-- fault_matrix(scenarios=, faults=, exclude=). -/
def Registry.faultMatrix (reg : Registry) (scenarios faults : List String)
    (excluded : List (String × String)) : Except String Registry :=
  if scenarios.isEmpty then
    .error "fault_matrix() requires scenarios= with at least one scenario"
  else if faults.isEmpty then
    .error "fault_matrix() requires faults= with at least one fault_assumption"
  else
    .ok (scenarios.foldl (fun reg sc => faults.foldl (fun reg fa =>
      if (sc, fa) ∈ excluded then reg else reg.matrixCell sc fa) reg) reg)

/-- test(name, ...). -/
def Registry.test (reg : Registry) (name : String) : Except String Registry :=
  if "test_" ++ name ∈ reg.testConfigs then
    .error ("test(" ++ quote name ++ "): a test with this name is already registered")
  else
    .ok { reg with
      testConfigs := reg.testConfigs.insert ("test_" ++ name) ()
      tested := by
        intro k hk
        rcases (AList.mem_insert _).mp hk with rfl | hk
        · exact ⟨name, rfl⟩
        · exact reg.tested k hk }

/-- What a statement of the spec declares. -/
inductive Declaration where
  | scenario (name : String)
  | faultScenario (name : String)
  | faultMatrix (scenarios faults : List String) (excluded : List (String × String))
  | test (name : String)

def Registry.declare (reg : Registry) : Declaration → Except String Registry
  | .scenario name => .ok (reg.scenario name)
  | .faultScenario name => .ok (reg.faultScenario name)
  | .faultMatrix scenarios faults excluded => reg.faultMatrix scenarios faults excluded
  | .test name => reg.test name

def load (source : List TopStmt) (declarations : List Declaration) (globals : GoMap String Bool) :
    Except String Registry := do
  let reg ← declarations.foldlM Registry.declare (Registry.empty source)
  return { reg with globals := globals }

/-! ## What the runner discovers -/

def Registry.globalCallableNames (reg : Registry) : List String :=
  (reg.globals.entries.filter fun e => e.2).map (·.1)

def Registry.faultScenarioDefs (reg : Registry) : List FaultScenarioDef :=
  reg.faultScenarios.entries.map (·.2)

def discover (st : List String × GoMap String Bool) (testName : String) :
    List String × GoMap String Bool :=
  if testName ∈ st.1 then st else (st.1 ++ [testName], st.2.insert testName true)

/-- `DiscoverTests`: the sorted names, and the globals with the wrappers. -/
def discoverTests (reg : Registry) : List String × GoMap String Bool :=
  let names := reg.globalCallableNames.filter fun n => hasPrefix n "test_"
  let st := reg.scenarios.foldl (fun st s => discover st ("test_" ++ s)) (names, reg.globals)
  let st := reg.faultScenarioDefs.foldl (fun st fs => discover st ("test_" ++ fs.name)) st
  let st := reg.testConfigs.keys.foldl discover st
  (sortStrings st.1, st.2)

/-! ## What the plan lists -/

def Registry.cellsByMatrix (reg : Registry) : GoMap String (List FaultScenarioDef) :=
  groupOn (fun fs => (fs.matrix.map (·.scenarioName)).getD "")
    (reg.faultScenarioDefs.filter fun fs => fs.matrix.isSome)

def sortCells (cells : List FaultScenarioDef) : List FaultScenarioDef :=
  cells.insertionSort fun a b => a.name ≤ b.name

def Registry.freeScenarios (reg : Registry) : GoMap String FaultScenarioDef :=
  storeAll ∅ ((reg.faultScenarioDefs.filter fun fs => fs.matrix.isNone).map fun fs => (fs.name, fs))

def Registry.defTestNames (reg : Registry) : List String :=
  reg.globalCallableNames.filter fun name =>
    hasPrefix name "test_" && !hasPrefix name "test_matrix_" &&
      !decide (name ∈ reg.testConfigs) &&
      !decide (trimPrefix name "test_" ∈ reg.scenarios) &&
      !decide (trimPrefix name "test_" ∈ reg.freeScenarios)

def cellNames (cells : List FaultScenarioDef) : List String :=
  sortStrings (cells.map fun c => "test_" ++ c.name)

def sortedSetValues (values : List String) : List String := sortStrings values.dedup

def matrixComposition (scenarioName : String) (cells : List FaultScenarioDef) : PlanComposition :=
  let infos := cells.filterMap (·.matrix)
  ⟨.faultMatrix,
    [⟨"scenarios", sortedSetValues (infos.flatMap fun m => [m.scenarioName, scenarioName]), false⟩,
      ⟨"faults", sortedSetValues (infos.map (·.faultName)), false⟩]⟩

/-- The entry of a whole matrix. -/
def matrixEntry (reg : Registry) (scenarioName : String) : PlanTest :=
  let cells := sortCells ((reg.cellsByMatrix.lookup scenarioName).getD [])
  { name := "test_matrix_" ++ scenarioName
    kind := .faultMatrix
    instances := cells.length
    compositions := [matrixComposition scenarioName cells]
    matrixCells := cellNames cells }

/-- An entry is added unless its name was seen; `tests` holds the names seen. -/
def addEntry (tests : List PlanTest) (entry : PlanTest) : List PlanTest :=
  if entry.name ∈ tests.map (·.name) then tests else tests ++ [entry]

/-- The entries of buildTests before the last sort. -/
def planEntries (reg : Registry) : List PlanTest :=
  let chooseAxes := chooseAxesInSource reg.source
  let tests := (sortStrings reg.defTestNames).map (defEntry chooseAxes)
  let tests := (sortStrings reg.testConfigs.keys).foldl
    (fun tests n => addEntry tests ⟨n, .testBuiltin, 1, false, [], []⟩) tests
  let tests := (sortStrings reg.cellsByMatrix.keys).foldl
    (fun tests n => addEntry tests (matrixEntry reg n)) tests
  let tests := (sortStrings reg.freeScenarios.keys).foldl
    (fun tests n => addEntry tests ⟨"test_" ++ n, .faultScenario, 1, false, [], []⟩) tests
  (sortStrings reg.scenarios.dedup).foldl
    (fun tests n => addEntry tests ⟨"test_" ++ n, .scenario, 1, false, [], []⟩) tests

def buildTests (reg : Registry) : List PlanTest :=
  (planEntries reg).insertionSort fun a b => a.name ≤ b.name

/-- `Totals.Instances` and `Totals.Estimated`. -/
def computeTotals (tests : List PlanTest) : Int × Bool :=
  (tests.foldl (fun n t => wrap (n + t.instances)) 0, tests.any (·.estimated))

end faultbox.plan
