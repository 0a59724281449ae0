-- The cells of fault_matrix(), and the row of cells that a collapsed name selects.
-- A cell is registered under the names of its scenario and its fault with an
-- underscore between, so the laws turn on the underscores of the names: each cell
-- is registered once exactly when no two cells read the same, and a row is selected
-- alone exactly when no other test begins like the row.
import Faultbox.PlanTotals
import Faultbox.Suite

open goval faultbox.test_result faultbox.plan faultbox.suite

namespace faultbox.fault_matrix

/-! ## The builtin -/

/-- A callable of the spec, by its identity and its `Name()`. -/
structure Callable where
  id : Nat
  name : String
deriving DecidableEq

/-- `FaultAssumptionDef`, by its identity and its name. -/
structure FaultAssumption where
  id : Nat
  name : String
deriving DecidableEq

abbrev Cell : Type := Callable × FaultAssumption

/-- `cellKey`. -/
def cellKey (p : Cell) : String × String := (p.1.name, p.2.name)

def cellName (p : Cell) : String := "matrix_" ++ p.1.name ++ "_" ++ p.2.name

/-- `FaultScenarioDef`. -/
structure FaultScenario where
  name : String
  scenario : Callable
  faults : List FaultAssumption
  expect : Option Callable
  monitors : List Nat
  timeoutSeconds : Nat
  matrix : Option MatrixInfo
  requireFaultsFire : Bool
deriving DecidableEq

/-- The arguments of `fault_matrix()` once their types are checked. -/
structure MatrixArgs where
  scenarios : List Callable
  faults : List FaultAssumption
  defaultExpect : Option Callable := none
  overrides : List (Cell × Callable) := []
  monitors : List Nat := []
  exclude : List Cell := []
  requireFaultsFire : Bool := false

/-- `excluded[ck]`: the exclusions are kept by names. -/
def MatrixArgs.excluded (args : MatrixArgs) (p : Cell) : Bool :=
  (args.exclude.map cellKey).contains (cellKey p)

def MatrixArgs.overridesByKey (args : MatrixArgs) : GoMap (String × String) Callable :=
  storeAll ∅ (args.overrides.map fun o => (cellKey o.1, o.2))

def MatrixArgs.cellDef (args : MatrixArgs) (p : Cell) : FaultScenario where
  name := cellName p
  scenario := p.1
  faults := [p.2]
  expect := (args.overridesByKey.lookup (cellKey p)).or args.defaultExpect
  monitors := args.monitors
  timeoutSeconds := 30
  matrix := some ⟨p.1.name, p.2.name⟩
  requireFaultsFire := args.requireFaultsFire

/-- `rt.faultScenarios`: a cell of a matrix stands under its own name. -/
structure FaultScenarios where
  byName : GoMap String FaultScenario
  keyed : ∀ k fs, byName.lookup k = some fs → fs.name = k
  celled : ∀ k fs m, byName.lookup k = some fs → fs.matrix = some m →
    ∃ fa, fs.faults = [fa] ∧ m = ⟨fs.scenario.name, fa.name⟩ ∧ k = cellName (fs.scenario, fa)

def FaultScenarios.empty : FaultScenarios := ⟨∅, by simp, by simp⟩

/-- `rt.faultScenarios[name] = fs` for a cell. -/
def FaultScenarios.addCell (reg : FaultScenarios) (args : MatrixArgs) (p : Cell) :
    FaultScenarios where
  byName := reg.byName.insert (cellName p) (args.cellDef p)
  keyed := by
    intro k fs h
    by_cases hk : k = cellName p
    · subst hk
      rw [AList.lookup_insert, Option.some.injEq] at h
      rw [← h]
      rfl
    · rw [AList.lookup_insert_ne hk] at h
      exact reg.keyed k fs h
  celled := by
    intro k fs m h hm
    by_cases hk : k = cellName p
    · subst hk
      rw [AList.lookup_insert, Option.some.injEq] at h
      subst h
      cases hm
      exact ⟨p.2, rfl, rfl, rfl⟩
    · rw [AList.lookup_insert_ne hk] at h
      exact reg.celled k fs m h hm

def addUnlessExcluded (args : MatrixArgs) (reg : FaultScenarios) (p : Cell) : FaultScenarios :=
  if args.excluded p then reg else reg.addCell args p

def faultMatrix (reg : FaultScenarios) (args : MatrixArgs) : Except String FaultScenarios :=
  if args.scenarios.isEmpty then
    .error "fault_matrix() requires scenarios= with at least one scenario"
  else if args.faults.isEmpty then
    .error "fault_matrix() requires faults= with at least one fault_assumption"
  else
    .ok (args.scenarios.foldl (fun reg sc =>
      args.faults.foldl (fun reg fa => addUnlessExcluded args reg (sc, fa)) reg) reg)

def afterCall (reg : FaultScenarios) (args : MatrixArgs) : FaultScenarios :=
  match faultMatrix reg args with
  | .ok reg' => reg'
  | .error _ => reg

/-! ## What a call stores -/

variable {full : FaultScenarios}

def MatrixArgs.pairs (args : MatrixArgs) : List Cell :=
  args.scenarios.flatMap fun sc => args.faults.map fun fa => (sc, fa)

/-- The pairs that the author did not exclude. -/
def MatrixArgs.IsCell (args : MatrixArgs) (p : Cell) : Prop := p ∈ args.pairs ∧ p ∉ args.exclude

def MatrixArgs.stored (args : MatrixArgs) : List Cell :=
  args.pairs.filter fun p => !args.excluded p

/-- The registry has a test for the cell under the name. -/
def FaultScenarios.Registers (reg : FaultScenarios) (name : String) (p : Cell) : Prop :=
  ∃ fs m, reg.byName.lookup name = some fs ∧ fs.matrix = some m ∧ fs.scenario = p.1 ∧
    fs.faults = [p.2]

theorem foldl_addUnlessExcluded (args : MatrixArgs) (l : List Cell) (reg : FaultScenarios) :
    (l.foldl (addUnlessExcluded args) reg).byName =
      storeAll reg.byName ((l.filter fun p => !args.excluded p).map fun p =>
        (cellName p, args.cellDef p)) := by
  induction l generalizing reg with
  | nil => rfl
  | cons p l ih =>
    rw [List.foldl_cons, ih, List.filter_cons, addUnlessExcluded]
    cases h : args.excluded p with
    | true => simp
    | false => simp [storeAll, FaultScenarios.addCell]

theorem foldl_flatMap_pairs (args : MatrixArgs) (faults : List FaultAssumption)
    (scenarios : List Callable) (reg : FaultScenarios) :
    scenarios.foldl (fun reg sc =>
        faults.foldl (fun reg fa => addUnlessExcluded args reg (sc, fa)) reg) reg =
      (scenarios.flatMap fun sc => faults.map fun fa => (sc, fa)).foldl
        (addUnlessExcluded args) reg := by
  induction scenarios generalizing reg with
  | nil => rfl
  | cons sc rest ih =>
    rw [List.foldl_cons, ih, List.flatMap_cons, List.foldl_append, List.foldl_map]

theorem byName_afterCall (reg : FaultScenarios) (args : MatrixArgs) :
    (afterCall reg args).byName =
      storeAll reg.byName (args.stored.map fun p => (cellName p, args.cellDef p)) := by
  have hl := foldl_addUnlessExcluded args args.pairs reg
  rw [MatrixArgs.pairs, ← foldl_flatMap_pairs] at hl
  unfold afterCall faultMatrix
  split_ifs with hs hf
  · have hnil : args.stored = [] := by
      simp [MatrixArgs.stored, MatrixArgs.pairs, List.isEmpty_iff.mp hs]
    rw [hnil]
    rfl
  · have hnil : args.stored = [] := by
      simp [MatrixArgs.stored, MatrixArgs.pairs, List.isEmpty_iff.mp hf]
    rw [hnil]
    rfl
  · exact hl

/-! ## Names with underscores -/

/-- Two cells that read the same: by equal names, or because the name of the longer
scenario and the name of the other one's fault share a part `t`. -/
def ReadsAlike (p q : Cell) : Prop :=
  cellKey p = cellKey q ∨
    ∃ t, (q.1.name = p.1.name ++ "_" ++ t ∧ p.2.name = t ++ "_" ++ q.2.name) ∨
      (p.1.name = q.1.name ++ "_" ++ t ∧ q.2.name = t ++ "_" ++ p.2.name)

theorem append_cons_eq_iff {α : Type} (c : α) (s f s' f' : List α) :
    s ++ c :: f = s' ++ c :: f' ↔
      (s = s' ∧ f = f') ∨ (∃ t, s' = s ++ c :: t ∧ f = t ++ c :: f') ∨
        ∃ t, s = s' ++ c :: t ∧ f' = t ++ c :: f := by
  rw [List.append_eq_append_iff]
  constructor
  · rintro (⟨a, rfl, ha⟩ | ⟨a, rfl, ha⟩)
    · cases a with
      | nil => simp_all
      | cons d t =>
        obtain ⟨rfl, rfl⟩ := List.cons.inj ha
        exact .inr (.inl ⟨t, rfl, rfl⟩)
    · cases a with
      | nil => simp_all
      | cons d t =>
        obtain ⟨rfl, rfl⟩ := List.cons.inj ha
        exact .inr (.inr ⟨t, rfl, rfl⟩)
  · rintro (⟨rfl, rfl⟩ | ⟨t, rfl, rfl⟩ | ⟨t, rfl, rfl⟩)
    · exact .inl ⟨[], by simp, by simp⟩
    · exact .inl ⟨c :: t, rfl, rfl⟩
    · exact .inr ⟨c :: t, rfl, rfl⟩

theorem underscored_eq_iff (s f s' f' : String) :
    s ++ "_" ++ f = s' ++ "_" ++ f' ↔
      (s = s' ∧ f = f') ∨ (∃ t, s' = s ++ "_" ++ t ∧ f = t ++ "_" ++ f') ∨
        ∃ t, s = s' ++ "_" ++ t ∧ f' = t ++ "_" ++ f := by
  have hl : ∀ a b : String, (a ++ "_" ++ b).toList = a.toList ++ '_' :: b.toList := by
    intro a b
    simp
  have hp : ∀ a b x y : String,
      (∃ t, b.toList = a.toList ++ '_' :: t ∧ x.toList = t ++ '_' :: y.toList) ↔
        ∃ t : String, b = a ++ "_" ++ t ∧ x = t ++ "_" ++ y := by
    intro a b x y
    constructor
    · rintro ⟨t, hb, hx⟩
      refine ⟨String.ofList t, String.toList_inj.mp ?_, String.toList_inj.mp ?_⟩
      · rw [hl, hb, String.toList_ofList]
      · rw [hl, hx, String.toList_ofList]
    · rintro ⟨t, rfl, rfl⟩
      exact ⟨t.toList, hl _ _, hl _ _⟩
  rw [← String.toList_inj, hl, hl, append_cons_eq_iff, hp, hp, String.toList_inj,
    String.toList_inj]

theorem cellName_eq_iff (p q : Cell) : cellName p = cellName q ↔ ReadsAlike p q := by
  have hn : ∀ p : Cell, cellName p = "matrix_" ++ (p.1.name ++ "_" ++ p.2.name) := by
    intro p
    simp only [cellName, String.append_assoc]
  rw [hn, hn, (append_left_injective "matrix_").eq_iff, underscored_eq_iff, ReadsAlike,
    exists_or, cellKey, cellKey, Prod.mk.injEq]

/-! ## Every cell once -/

/-- Each pair that is not excluded has one test, and no two have tests of one name. -/
def RegistersEachOnce (reg : FaultScenarios) (args : MatrixArgs) : Prop :=
  (∀ p, args.IsCell p → ∃! name, (afterCall reg args).Registers name p) ∧
  ∀ p q, args.IsCell p → args.IsCell q → p ≠ q → cellName p ≠ cellName q

section

variable {reg : FaultScenarios} {args : MatrixArgs} {p q : Cell} {name : String}

theorem registers_name (h : reg.Registers name p) : name = cellName p := by
  obtain ⟨fs, m, hl, hm, hsc, hf⟩ := h
  obtain ⟨fa, hfa, -, rfl⟩ := reg.celled name fs m hl hm
  rw [hf] at hfa
  cases hfa
  rw [hsc]

theorem existsUnique_registers_iff :
    (∃! name, reg.Registers name p) ↔ reg.Registers (cellName p) p := by
  constructor
  · rintro ⟨name, h, -⟩
    rw [← registers_name h]
    exact h
  · intro h
    exact ⟨cellName p, h, fun _ h' => registers_name h'⟩

theorem mem_stored : p ∈ args.stored ↔ p ∈ args.pairs ∧ args.excluded p = false := by
  simp [MatrixArgs.stored]

theorem excluded_iff : args.excluded p = true ↔ ∃ x ∈ args.exclude, cellKey x = cellKey p := by
  simp [MatrixArgs.excluded]

theorem isCell_of_stored (h : p ∈ args.stored) : args.IsCell p := by
  obtain ⟨hp, hex⟩ := mem_stored.mp h
  refine ⟨hp, fun hmem => ?_⟩
  rw [excluded_iff.mpr ⟨p, hmem, rfl⟩] at hex
  cases hex

theorem lookup_stored (reg : FaultScenarios) (h : p ∈ args.stored) :
    ∃ q ∈ args.stored, cellName q = cellName p ∧
      (afterCall reg args).byName.lookup (cellName p) = some (args.cellDef q) := by
  have hkey : cellName p ∈ (args.stored.map fun q => (cellName q, args.cellDef q)).map Prod.fst :=
    List.mem_map.mpr ⟨_, List.mem_map.mpr ⟨p, h, rfl⟩, rfl⟩
  obtain ⟨fs, hmem, hl⟩ := lookup_storeAll_of_mem reg.byName hkey
  obtain ⟨q, hq, heq⟩ := List.mem_map.mp hmem
  obtain ⟨hn, rfl⟩ := Prod.mk.inj heq
  refine ⟨q, hq, hn, ?_⟩
  rw [byName_afterCall, hl]

theorem registers_of_not_stored (h : ∀ q ∈ args.stored, cellName q ≠ cellName p) :
    (afterCall reg args).Registers (cellName p) p ↔ reg.Registers (cellName p) p := by
  have hkey : cellName p ∉
      (args.stored.map fun q => (cellName q, args.cellDef q)).map Prod.fst := by
    simpa using h
  unfold FaultScenarios.Registers
  rw [byName_afterCall, lookup_storeAll_of_notMem _ hkey]

end

/-- A call registers each of its cells once exactly when no two of them read the same,
and a cell with the names of an excluded pair was registered before. -/
theorem registersEachOnce_iff (reg : FaultScenarios) (args : MatrixArgs) :
    RegistersEachOnce reg args ↔
      (∀ p q, args.IsCell p → args.IsCell q → p ≠ q → ¬ ReadsAlike p q) ∧
      ∀ p, args.IsCell p → (∃ x ∈ args.exclude, cellKey x = cellKey p) →
        reg.Registers (cellName p) p := by
  unfold RegistersEachOnce
  simp only [existsUnique_registers_iff, ne_eq, cellName_eq_iff]
  constructor
  · rintro ⟨hreg, hn⟩
    refine ⟨hn, fun p hp hex => ?_⟩
    refine (registers_of_not_stored fun q hq heq => ?_).mp (hreg p hp)
    have hne : ¬ q = p := by
      rintro rfl
      rw [mem_stored, excluded_iff.mpr hex] at hq
      cases hq.2
    exact hn q p (isCell_of_stored hq) hp hne ((cellName_eq_iff q p).mp heq)
  · rintro ⟨hn, hex⟩
    refine ⟨fun p hp => ?_, hn⟩
    have hs : ∀ q ∈ args.stored, cellName q = cellName p → q = p := by
      intro q hq heq
      by_contra hne
      exact hn q p (isCell_of_stored hq) hp hne ((cellName_eq_iff q p).mp heq)
    by_cases hsk : args.excluded p = true
    · refine (registers_of_not_stored fun q hq heq => ?_).mpr
        (hex p hp (excluded_iff.mp hsk))
      rw [hs q hq heq, mem_stored, hsk] at hq
      cases hq.2
    · have hst : p ∈ args.stored := mem_stored.mpr ⟨hp.1, Bool.eq_false_iff.mpr hsk⟩
      obtain ⟨q, hq, heq, hl⟩ := lookup_stored reg hst
      rw [hs q hq heq] at hl
      exact ⟨_, _, hl, rfl, rfl, rfl⟩

def underscored : MatrixArgs :=
  { scenarios := [⟨0, "a"⟩, ⟨1, "a_b"⟩], faults := [⟨0, "b_c"⟩, ⟨1, "c"⟩] }

theorem two_cells_under_one_name :
    underscored.pairs.map cellName =
        ["matrix_a_b_c", "matrix_a_c", "matrix_a_b_b_c", "matrix_a_b_c"] ∧
      (afterCall .empty underscored).byName.keys.length = 3 ∧
      ¬ RegistersEachOnce .empty underscored := by
  refine ⟨by decide, by decide, ?_⟩
  rintro ⟨-, hn⟩
  exact hn (⟨0, "a"⟩, ⟨0, "b_c"⟩) (⟨1, "a_b"⟩, ⟨1, "c"⟩) ⟨by decide, by decide⟩
    ⟨by decide, by decide⟩ (by decide) (by decide)

/-! ## The row of a scenario -/

/-- The last two modes of `matchTestFilter`: a regular expression after a tilde, else a
glob when the filter holds one of its characters. The two matchers are left open;
a regular expression that does not compile is none. -/
def filterPattern (regex : String → Option (String → Bool)) (glob : String → String → Bool)
    (filter testName : String) : Bool :=
  if hasPrefix filter "~" then
    match regex (trimPrefix filter "~") with
    | none => false
    | some matchString => matchString testName
  else if filter.toList.any (['*', '?', '['].contains ·) then
    glob filter testName || glob ("test_" ++ filter) testName
  else false

def collapsedName (scenario : String) : String := "test_matrix_" ++ scenario

/-- The test is a cell of the scenario. -/
def InRow (reg : Registry) (scenario t : String) : Prop :=
  ∃ fs ∈ reg.faultScenarioDefs, ∃ fault, fs.matrix = some ⟨scenario, fault⟩ ∧ t = "test_" ++ fs.name

/-- The collapsed name selects the cells of the scenario, and nothing else. -/
def SelectsRow (regex : String → Option (String → Bool)) (glob : String → String → Bool)
    (reg : Registry) (scenario : String) : Prop :=
  ∀ t ∈ (discoverTests reg).1,
    matchTestFilter (filterPattern regex glob) t (collapsedName scenario) (matrixBases reg) = true ↔
      InRow reg scenario t

/-- The scenario's name holds a character of a glob, and the glob matches. -/
def GlobMatches (glob : String → String → Bool) (scenario t : String) : Prop :=
  (scenario.toList.any (['*', '?', '['].contains ·)) = true ∧
    (glob (collapsedName scenario) t = true ∨ glob ("test_" ++ collapsedName scenario) t = true)

/-- The name is the collapsed name, or goes on with an underscore after it. -/
def BeginsLike (scenario t : String) : Prop :=
  t = collapsedName scenario ∨ hasPrefix t (collapsedName scenario ++ "_") = true

/-- A test from another place than a matrix. -/
def DeclaredOutside (reg : Registry) (t : String) : Prop :=
  (t ∈ reg.globalCallableNames ∧ hasPrefix t "test_" = true) ∨
  (∃ s ∈ reg.scenarios, "test_" ++ s = t) ∨
  (∃ fs ∈ reg.faultScenarioDefs, fs.matrix = none ∧ "test_" ++ fs.name = t) ∨
  t ∈ reg.testConfigs

/-- Nothing else reads like the row of the scenario: no cell of another scenario, by the
names of the two, and no test from elsewhere that is not named like a cell of it. -/
structure RowAlone (glob : String → String → Bool) (reg : Registry) (scenario : String) : Prop where
  cells : ∀ fs ∈ reg.faultScenarioDefs, ∀ other fault, fs.matrix = some ⟨other, fault⟩ →
    other ≠ scenario → other ++ "_" ++ fault ≠ scenario ∧
      hasPrefix (other ++ "_" ++ fault) (scenario ++ "_") = false ∧
      ¬ GlobMatches glob scenario (collapsedName (other ++ "_" ++ fault))
  others : ∀ t, DeclaredOutside reg t → ¬ InRow reg scenario t →
    ¬ BeginsLike scenario t ∧ t ≠ "test_" ++ collapsedName scenario ∧ ¬ GlobMatches glob scenario t

section row

variable {regex : String → Option (String → Bool)} {glob : String → String → Bool}
  {reg : Registry} {scenario : String}
variable {t : String}

theorem hasPrefix_append_left (pre s t : String) :
    hasPrefix (pre ++ s) (pre ++ t) = hasPrefix s t := by
  unfold hasPrefix
  rw [String.toList_append, String.toList_append, Bool.eq_iff_iff, List.isPrefixOf_iff_prefix,
    List.isPrefixOf_iff_prefix, List.prefix_append_right_inj]

theorem filterPattern_collapsed (t : String) :
    filterPattern regex glob (collapsedName scenario) t = true ↔ GlobMatches glob scenario t := by
  have ht : hasPrefix (collapsedName scenario) "~" = false := by
    simp [hasPrefix, collapsedName, List.isPrefixOf]
  have hany : (collapsedName scenario).toList.any (['*', '?', '['].contains ·) =
      scenario.toList.any (['*', '?', '['].contains ·) := by
    simp [collapsedName]
  unfold filterPattern GlobMatches
  rw [ht, hany]
  cases scenario.toList.any (['*', '?', '['].contains ·) <;> simp

theorem mem_matrixBases (base : String) :
    (matrixBases reg).contains base = true ↔
      ∃ fs ∈ reg.faultScenarioDefs, ∃ m, fs.matrix = some m ∧
        base = collapsedName m.scenarioName := by
  simp [matrixBases, collapsedName, eq_comm]

theorem shorthand_notMem :
    (matrixBases reg).contains ("test_" ++ collapsedName scenario) = false := by
  rw [Bool.eq_false_iff, ne_eq, mem_matrixBases]
  rintro ⟨fs, -, m, -, heq⟩
  have hl := congrArg String.toList heq
  simp [collapsedName] at hl

theorem selected_iff (hrow : ∃ t, InRow reg scenario t) (t : String) :
    matchTestFilter (filterPattern regex glob) t (collapsedName scenario) (matrixBases reg) = true ↔
      BeginsLike scenario t ∨ t = "test_" ++ collapsedName scenario ∨
        GlobMatches glob scenario t := by
  obtain ⟨_, fs, hfs, fault, hm, -⟩ := hrow
  have hb : (matrixBases reg).contains (collapsedName scenario) = true :=
    (mem_matrixBases _).mpr ⟨fs, hfs, _, hm, rfl⟩
  unfold matchTestFilter BeginsLike
  simp only [List.any_cons, List.any_nil, hb, shorthand_notMem, Bool.true_and, Bool.false_and,
    Bool.or_false, Bool.or_eq_true, beq_iff_eq, filterPattern_collapsed]
  tauto

theorem testName_of_cell {fs : plan.FaultScenarioDef} (h : fs ∈ reg.faultScenarioDefs)
    {other fault : String} (hm : fs.matrix = some ⟨other, fault⟩) :
    "test_" ++ fs.name = collapsedName (other ++ "_" ++ fault) := by
  rw [reg.celled fs.name fs _ ((mem_faultScenarioDefs reg fs).mp h) hm, collapsedName,
    String.append_assoc, String.append_assoc, test_matrix_append, String.append_assoc]

theorem beginsLike_collapsed (n : String) :
    BeginsLike scenario (collapsedName n) ↔
      n = scenario ∨ hasPrefix n (scenario ++ "_") = true := by
  unfold BeginsLike collapsedName
  rw [(append_left_injective "test_matrix_").eq_iff, String.append_assoc, hasPrefix_append_left]

theorem beginsLike_of_inRow (h : InRow reg scenario t) : BeginsLike scenario t := by
  obtain ⟨fs, hfs, fault, hm, rfl⟩ := h
  rw [testName_of_cell hfs hm, beginsLike_collapsed]
  exact .inr (hasPrefix_append _ _)

theorem discovered_cases (h : t ∈ (discoverTests reg).1) (hrow : ¬ InRow reg scenario t) :
    DeclaredOutside reg t ∨ ∃ fs ∈ reg.faultScenarioDefs, ∃ other fault,
      fs.matrix = some ⟨other, fault⟩ ∧ other ≠ scenario ∧
        t = collapsedName (other ++ "_" ++ fault) := by
  rcases (mem_discoverTests reg t).mp h with hdef | hsc | ⟨fs, hfs, rfl⟩ | ht
  · exact .inl (.inl hdef)
  · exact .inl (.inr (.inl hsc))
  · cases hm : fs.matrix with
    | none => exact .inl (.inr (.inr (.inl ⟨fs, hfs, hm, rfl⟩)))
    | some m =>
      refine .inr ⟨fs, hfs, m.scenarioName, m.faultName, hm, ?_, testName_of_cell hfs hm⟩
      rintro rfl
      exact hrow ⟨fs, hfs, m.faultName, hm, rfl⟩
  · exact .inl (.inr (.inr (.inr ht)))

theorem discovered_of_outside (h : DeclaredOutside reg t) : t ∈ (discoverTests reg).1 := by
  rw [mem_discoverTests]
  rcases h with hdef | hsc | ⟨fs, hfs, -, heq⟩ | ht
  · exact .inl hdef
  · exact .inr (.inl hsc)
  · exact .inr (.inr (.inl ⟨fs, hfs, heq⟩))
  · exact .inr (.inr (.inr ht))

theorem not_inRow_of_other {fs : plan.FaultScenarioDef} (h : fs ∈ reg.faultScenarioDefs)
    {other fault : String} (hm : fs.matrix = some ⟨other, fault⟩) (hne : other ≠ scenario) :
    ¬ InRow reg scenario ("test_" ++ fs.name) := by
  rintro ⟨fs', h', fault', hm', heq⟩
  have hn : fs.name = fs'.name := append_left_injective "test_" heq
  rw [faultScenarioDefs_unique reg h h' hn, hm'] at hm
  cases hm
  exact hne rfl

end row

/-- The collapsed name of a scenario selects its cells alone exactly when no cell of
another scenario, and no test from elsewhere, reads like the row. -/
theorem selectsRow_iff (regex : String → Option (String → Bool)) (glob : String → String → Bool)
    (reg : Registry) (scenario : String) (hrow : ∃ t, InRow reg scenario t) :
    SelectsRow regex glob reg scenario ↔ RowAlone glob reg scenario := by
  unfold SelectsRow
  simp only [selected_iff hrow]
  constructor
  · intro h
    constructor
    · intro fs hfs other fault hm hne
      have hd : "test_" ++ fs.name ∈ (discoverTests reg).1 :=
        (mem_discoverTests reg _).mpr (.inr (.inr (.inl ⟨fs, hfs, rfl⟩)))
      have hnot := mt (h _ hd).mp (not_inRow_of_other hfs hm hne)
      rw [testName_of_cell hfs hm, beginsLike_collapsed, not_or, not_or, not_or] at hnot
      exact ⟨hnot.1.1, Bool.eq_false_iff.mpr hnot.1.2, hnot.2.2⟩
    · intro t hout hn
      have hnot := mt (h t (discovered_of_outside hout)).mp hn
      rw [not_or, not_or] at hnot
      exact hnot
  · intro ha t ht
    refine ⟨fun hsel => ?_, fun hin => .inl (beginsLike_of_inRow hin)⟩
    by_contra hn
    rcases discovered_cases ht hn with hout | ⟨fs, hfs, other, fault, hm, hne, rfl⟩
    · obtain ⟨h1, h2, h3⟩ := ha.others t hout hn
      rcases hsel with hsel | hsel | hsel
      · exact h1 hsel
      · exact h2 hsel
      · exact h3 hsel
    · obtain ⟨h1, h2, h3⟩ := ha.cells fs hfs other fault hm hne
      rcases hsel with hsel | hsel | hsel
      · rcases (beginsLike_collapsed _).mp hsel with heq | hpre
        · exact h1 heq
        · rw [h2] at hpre
          cases hpre
      · have hl := congrArg String.toList hsel
        simp [collapsedName] at hl
      · exact h3 hsel

/-- A matrix of one scenario, next to a def that no test is named after. -/
theorem row_of_the_only_scenario :
    ∃ reg, specOf [.faultMatrix ["login"] ["outage", "disk_full"] []] ["login"] = .ok reg ∧
      SelectsRow (fun _ => none) (fun _ _ => false) reg "login" := by
  refine ⟨_, rfl, (selectsRow_iff _ _ _ _ ?_).mpr ⟨?_, ?_⟩⟩
  · exact ⟨"test_matrix_login_outage", ⟨"matrix_login_outage", some ⟨"login", "outage"⟩⟩,
      by decide, "outage", rfl, by decide⟩
  · intro fs hfs other fault hm hne
    have hall : ∀ fs ∈ [(⟨"matrix_login_disk_full", some ⟨"login", "disk_full"⟩⟩ :
        plan.FaultScenarioDef), ⟨"matrix_login_outage", some ⟨"login", "outage"⟩⟩],
        fs.matrix.map (·.scenarioName) = some "login" := by decide
    have hsa := hall fs hfs
    rw [hm] at hsa
    exact absurd (Option.some.inj hsa) hne
  · rintro t (⟨hdef, hpre⟩ | ⟨s, hs, -⟩ | ⟨fs, hfs, hm, -⟩ | ht) -
    · rw [List.mem_singleton.mp hdef] at hpre
      exact absurd hpre (by decide)
    · cases hs
    · have hall : ∀ fs ∈ [(⟨"matrix_login_disk_full", some ⟨"login", "disk_full"⟩⟩ :
          plan.FaultScenarioDef), ⟨"matrix_login_outage", some ⟨"login", "outage"⟩⟩],
          fs.matrix ≠ none := by decide
      exact absurd hm (hall fs hfs)
    · cases ht

/-- Two scenarios of one matrix, one named like the other with more after it. -/
theorem row_selects_the_longer_scenario :
    ∃ reg, specOf [.faultMatrix ["create", "create_order"] ["db_down"] []] [] = .ok reg ∧
      (discoverTests reg).1 = ["test_matrix_create_db_down", "test_matrix_create_order_db_down"] ∧
      (discoverTests reg).1.all (fun t => matchTestFilter (fun _ _ => false) t
        "test_matrix_create" (matrixBases reg)) = true ∧
      ¬ SelectsRow (fun _ => none) (fun _ _ => false) reg "create" := by
  refine ⟨_, rfl, by decide, by decide, ?_⟩
  intro h
  have hin := (h "test_matrix_create_order_db_down" (by decide)).mp (by decide)
  obtain ⟨fs, hfs, fault, hm, heq⟩ := hin
  have hall : ∀ fs ∈ [(⟨"matrix_create_order_db_down", some ⟨"create_order", "db_down"⟩⟩ :
      plan.FaultScenarioDef), ⟨"matrix_create_db_down", some ⟨"create", "db_down"⟩⟩],
      "test_matrix_create_order_db_down" = "test_" ++ fs.name →
        fs.matrix = some ⟨"create_order", "db_down"⟩ := by decide
  rw [hall fs hfs heq] at hm
  exact absurd (congrArg (Option.map MatrixInfo.scenarioName) hm) (by simp)

end faultbox.fault_matrix
