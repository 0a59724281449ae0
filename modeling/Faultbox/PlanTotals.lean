-- The plan and the runner sort tests into kinds by their names. The law: the
-- plan counts every test that the runner discovers exactly once as long as the
-- names that start with test_matrix_ are not ambiguous.
import Faultbox.SpecTests

open goval

namespace faultbox.plan

/-! ## Names -/

theorem test_matrix_append (s : String) : "test_" ++ ("matrix_" ++ s) = "test_matrix_" ++ s := by
  rw [← String.append_assoc]
  rfl

/-! ## What the runner discovers -/

theorem discover_mem (st : List String × GoMap String Bool) (testName n : String) :
    n ∈ (discover st testName).1 ↔ n ∈ st.1 ∨ testName = n := by
  unfold discover
  by_cases h : testName ∈ st.1
  · rw [if_pos h]
    constructor
    · exact .inl
    · rintro (hn | rfl)
      · exact hn
      · exact h
  · rw [if_neg h]
    simp [eq_comm]

theorem discover_nodup {st : List String × GoMap String Bool} (h : st.1.Nodup)
    (testName : String) : (discover st testName).1.Nodup := by
  unfold discover
  split
  · exact h
  · rename_i hn
    rw [List.nodup_append]
    refine ⟨h, List.nodup_singleton _, ?_⟩
    intro a ha b hb
    rw [List.mem_singleton.mp hb]
    rintro rfl
    exact hn ha

theorem foldl_discover_mem {α : Type} (f : α → String) (l : List α)
    (st : List String × GoMap String Bool) (n : String) :
    n ∈ (l.foldl (fun st x => discover st (f x)) st).1 ↔ n ∈ st.1 ∨ ∃ x ∈ l, f x = n := by
  induction l generalizing st with
  | nil => simp
  | cons x rest ih =>
    rw [List.foldl_cons, ih, discover_mem, or_assoc]
    simp

theorem foldl_discover_nodup {α : Type} (f : α → String) (l : List α)
    (st : List String × GoMap String Bool) (h : st.1.Nodup) :
    (l.foldl (fun st x => discover st (f x)) st).1.Nodup := by
  induction l generalizing st with
  | nil => exact h
  | cons x rest ih => exact ih _ (discover_nodup h (f x))

theorem globalCallableNames_nodup (reg : Registry) : reg.globalCallableNames.Nodup := by
  have hk : (reg.globals.entries.map (·.1)).Nodup := reg.globals.keys_nodup
  exact hk.sublist (List.Sublist.map _ List.filter_sublist)

theorem mem_discoverTests (reg : Registry) (n : String) :
    n ∈ (discoverTests reg).1 ↔
      (n ∈ reg.globalCallableNames ∧ hasPrefix n "test_" = true) ∨
      (∃ s ∈ reg.scenarios, "test_" ++ s = n) ∨
      (∃ fs ∈ reg.faultScenarioDefs, "test_" ++ fs.name = n) ∨ n ∈ reg.testConfigs := by
  unfold discoverTests
  simp only [(sortStrings_perm _).mem_iff]
  have hl := foldl_discover_mem id reg.testConfigs.keys
  simp only [id_eq] at hl
  rw [hl, foldl_discover_mem, foldl_discover_mem, List.mem_filter, AList.mem_keys]
  simp only [exists_eq_right]
  rw [or_assoc, or_assoc]

theorem discoverTests_nodup (reg : Registry) : (discoverTests reg).1.Nodup := by
  unfold discoverTests
  simp only
  rw [(sortStrings_perm _).nodup_iff]
  apply foldl_discover_nodup id
  apply foldl_discover_nodup
  apply foldl_discover_nodup
  exact (globalCallableNames_nodup reg).filter _

/-! ## What the plan counts -/

def PlanTest.covers (t : PlanTest) : List String :=
  if t.kind = .faultMatrix then t.matrixCells else [t.name]

def counted (reg : Registry) : List String := (buildTests reg).flatMap (·.covers)

def unseen (f : String → PlanTest) (names : List String) (tests : List PlanTest) : List String :=
  names.filter fun n => (f n).name ∉ tests.map (·.name)

theorem foldl_addEntry (f : String → PlanTest) (names : List String) (tests : List PlanTest)
    (h : (names.map fun n => (f n).name).Nodup) :
    names.foldl (fun tests n => addEntry tests (f n)) tests =
      tests ++ (unseen f names tests).map f := by
  induction names generalizing tests with
  | nil => simp [unseen]
  | cons n rest ih =>
    rw [List.map_cons, List.nodup_cons] at h
    rw [List.foldl_cons, ih _ h.2, addEntry]
    unfold unseen
    by_cases hn : (f n).name ∈ tests.map (·.name)
    · rw [if_pos hn, List.filter_cons_of_neg (by simpa using hn)]
    · rw [if_neg hn, List.filter_cons_of_pos (by simpa using hn), List.map_cons,
        List.append_assoc, List.singleton_append]
      congr 3
      apply List.filter_congr
      intro m hm
      have hne : (f m).name ≠ (f n).name := by
        intro he
        exact h.1 (List.mem_map.mpr ⟨m, hm, he⟩)
      simp [hne]

theorem mem_names_of_pass (f : String → PlanTest) (names : List String) (tests : List PlanTest)
    (n : String) :
    n ∈ (tests ++ (unseen f names tests).map f).map (·.name) ↔
      n ∈ tests.map (·.name) ∨ ∃ m ∈ names, (f m).name = n := by
  simp only [List.map_append, List.mem_append, List.map_map]
  constructor
  · rintro (h | h)
    · exact .inl h
    · obtain ⟨m, hm, rfl⟩ := List.mem_map.mp h
      exact .inr ⟨m, List.mem_of_mem_filter hm, rfl⟩
  · rintro (h | ⟨m, hm, rfl⟩)
    · exact .inl h
    · by_cases hs : (f m).name ∈ tests.map (·.name)
      · exact .inl hs
      · exact .inr (List.mem_map.mpr ⟨m, List.mem_filter.mpr ⟨hm, by simpa using hs⟩, rfl⟩)

theorem mem_unseen (f : String → PlanTest) (names : List String) (tests : List PlanTest)
    (n : String) : n ∈ unseen f names tests ↔ n ∈ names ∧ (f n).name ∉ tests.map (·.name) := by
  simp [unseen]

/-! ## The kinds of names -/

variable (reg : Registry)

/-- The name of a test() declaration. -/
def IsTest (n : String) : Prop := n ∈ reg.testConfigs

/-- The collapsed name of a matrix that has an entry in the plan. -/
def Heading (n : String) : Prop :=
  n ∉ reg.testConfigs ∧ ∃ g ∈ reg.cellsByMatrix, "test_matrix_" ++ g = n

/-- A cell of a matrix that has an entry in the plan. -/
def Cell (n : String) : Prop :=
  ∃ fs ∈ reg.faultScenarioDefs, ∃ m, fs.matrix = some m ∧ "test_" ++ fs.name = n ∧
    "test_matrix_" ++ m.scenarioName ∉ reg.testConfigs

/-- A fault_scenario() outside of any matrix. -/
def Free (n : String) : Prop :=
  ∃ fs ∈ reg.faultScenarioDefs, fs.matrix = none ∧ "test_" ++ fs.name = n

/-- A scenario(). -/
def Scenario (n : String) : Prop := ∃ s ∈ reg.scenarios, "test_" ++ s = n

/-- A scenario() or free fault_scenario() whose name no test() and no matrix has. -/
def Other (n : String) : Prop :=
  n ∉ reg.testConfigs ∧ ¬ Heading reg n ∧ (Free reg n ∨ Scenario reg n)

theorem mem_faultScenarioDefs (fs : FaultScenarioDef) :
    fs ∈ reg.faultScenarioDefs ↔ reg.faultScenarios.lookup fs.name = some fs := by
  unfold Registry.faultScenarioDefs
  rw [List.mem_map]
  constructor
  · rintro ⟨⟨k, fs'⟩, hmem, rfl⟩
    have hl := AList.mem_lookup_iff.mpr hmem
    rw [reg.keyed k fs' hl]
    exact hl
  · intro h
    exact ⟨⟨fs.name, fs⟩, AList.mem_lookup_iff.mp h, rfl⟩

theorem faultScenarioDefs_unique {fs fs' : FaultScenarioDef} (h : fs ∈ reg.faultScenarioDefs)
    (h' : fs' ∈ reg.faultScenarioDefs) (hn : fs.name = fs'.name) : fs = fs' := by
  rw [mem_faultScenarioDefs] at h h'
  rw [hn, h'] at h
  exact (Option.some.inj h).symm

theorem mem_freeScenarios (f : String) :
    f ∈ reg.freeScenarios ↔ ∃ fs ∈ reg.faultScenarioDefs, fs.matrix = none ∧ fs.name = f := by
  unfold Registry.freeScenarios
  rw [mem_storeAll]
  simp only [List.map_map, List.mem_map, List.mem_filter, Option.isNone_iff_eq_none]
  constructor
  · rintro (h | ⟨fs, ⟨hfs, hm⟩, rfl⟩)
    · cases h
    · exact ⟨fs, hfs, hm, rfl⟩
  · rintro ⟨fs, hfs, hm, rfl⟩
    exact .inr ⟨fs, ⟨hfs, hm⟩, rfl⟩

variable (g n : String)

theorem mem_cellsByMatrix :
    g ∈ reg.cellsByMatrix ↔ ∃ fs ∈ reg.faultScenarioDefs, ∃ m, fs.matrix = some m ∧
      m.scenarioName = g := by
  unfold Registry.cellsByMatrix
  rw [mem_groupOn]
  constructor
  · rintro ⟨fs, hfs, rfl⟩
    obtain ⟨hmem, hs⟩ := List.mem_filter.mp hfs
    obtain ⟨m, hm⟩ := Option.isSome_iff_exists.mp hs
    exact ⟨fs, hmem, m, hm, by simp [hm]⟩
  · rintro ⟨fs, hfs, m, hm, rfl⟩
    exact ⟨fs, List.mem_filter.mpr ⟨hfs, by simp [hm]⟩, by simp [hm]⟩

theorem mem_cells (fs : FaultScenarioDef) :
    fs ∈ sortCells ((reg.cellsByMatrix.lookup g).getD []) ↔
      fs ∈ reg.faultScenarioDefs ∧ ∃ m, fs.matrix = some m ∧ m.scenarioName = g := by
  unfold sortCells Registry.cellsByMatrix
  rw [(List.perm_insertionSort _ _).mem_iff, lookup_groupOn]
  simp only [List.mem_filter, decide_eq_true_eq]
  constructor
  · rintro ⟨⟨hmem, hs⟩, hg⟩
    obtain ⟨m, hm⟩ := Option.isSome_iff_exists.mp hs
    exact ⟨hmem, m, hm, by simpa [hm] using hg⟩
  · rintro ⟨hmem, m, hm, rfl⟩
    exact ⟨⟨hmem, by simp [hm]⟩, by simp [hm]⟩

theorem hasPrefix_of_cell {fs : FaultScenarioDef} (h : fs ∈ reg.faultScenarioDefs)
    {m : test_result.MatrixInfo} (hm : fs.matrix = some m) :
    hasPrefix ("test_" ++ fs.name) "test_matrix_" = true := by
  rw [mem_faultScenarioDefs] at h
  rw [reg.celled fs.name fs m h hm, String.append_assoc, String.append_assoc, test_matrix_append]
  exact hasPrefix_append _ _

theorem mem_defTestNames :
    n ∈ reg.defTestNames ↔ n ∈ reg.globalCallableNames ∧ hasPrefix n "test_" = true ∧
      hasPrefix n "test_matrix_" = false ∧ n ∉ reg.testConfigs ∧ ¬ Scenario reg n ∧
      ¬ Free reg n := by
  unfold Registry.defTestNames
  simp only [List.mem_filter, Bool.and_eq_true, Bool.not_eq_true', decide_eq_false_iff_not,
    mem_freeScenarios]
  constructor
  · rintro ⟨hg, ⟨⟨⟨hp, hm⟩, ht⟩, hs⟩, hf⟩
    refine ⟨hg, hp, hm, ht, ?_, ?_⟩
    · rintro ⟨s, hmem, rfl⟩
      rw [trimPrefix_append] at hs
      exact hs hmem
    · rintro ⟨fs, hfs, hn, rfl⟩
      rw [trimPrefix_append] at hf
      exact hf ⟨fs, hfs, hn, rfl⟩
  · rintro ⟨hg, hp, hm, ht, hs, hf⟩
    refine ⟨hg, ⟨⟨⟨hp, hm⟩, ht⟩, ?_⟩, ?_⟩
    · intro hmem
      exact hs ⟨_, hmem, append_trimPrefix hp⟩
    · rintro ⟨fs, hfs, hn, hna⟩
      exact hf ⟨fs, hfs, hn, by rw [hna, append_trimPrefix hp]⟩

theorem not_def_of_heading {n : String} (h : Heading reg n) : n ∉ reg.defTestNames := by
  obtain ⟨-, g, -, rfl⟩ := h
  intro hmem
  have := ((mem_defTestNames reg _).mp hmem).2.2.1
  rw [hasPrefix_append] at this
  cases this

/-! ## The passes of the plan -/

def testEntry (n : String) : PlanTest := ⟨n, .testBuiltin, 1, false, [], []⟩
def freeEntry (n : String) : PlanTest := ⟨"test_" ++ n, .faultScenario, 1, false, [], []⟩
def scenarioEntry (n : String) : PlanTest := ⟨"test_" ++ n, .scenario, 1, false, [], []⟩

/-- The entries after each pass: the defs, then the test() declarations, the
matrices, the free fault scenarios and the scenarios. -/
def afterDefs : List PlanTest :=
  (sortStrings reg.defTestNames).map (defEntry (chooseAxesInSource reg.source))

def newTests : List String := unseen testEntry (sortStrings reg.testConfigs.keys) (afterDefs reg)
def afterTests : List PlanTest := afterDefs reg ++ (newTests reg).map testEntry

def newMatrices : List String :=
  unseen (matrixEntry reg) (sortStrings reg.cellsByMatrix.keys) (afterTests reg)
def afterMatrices : List PlanTest := afterTests reg ++ (newMatrices reg).map (matrixEntry reg)

def newFree : List String :=
  unseen freeEntry (sortStrings reg.freeScenarios.keys) (afterMatrices reg)
def afterFree : List PlanTest := afterMatrices reg ++ (newFree reg).map freeEntry

def newScenarios : List String :=
  unseen scenarioEntry (sortStrings reg.scenarios.dedup) (afterFree reg)

theorem planEntries_eq :
    planEntries reg = afterFree reg ++ (newScenarios reg).map scenarioEntry := by
  have ht : ((sortStrings reg.testConfigs.keys).map fun n => (testEntry n).name).Nodup := by
    simp only [testEntry, List.map_id']
    exact (sortStrings_perm _).nodup_iff.mpr reg.testConfigs.keys_nodup
  have hm : ((sortStrings reg.cellsByMatrix.keys).map
      fun n => (matrixEntry reg n).name).Nodup := by
    apply List.Nodup.map (append_left_injective "test_matrix_")
    exact (sortStrings_perm _).nodup_iff.mpr reg.cellsByMatrix.keys_nodup
  have hf : ((sortStrings reg.freeScenarios.keys).map fun n => (freeEntry n).name).Nodup := by
    apply List.Nodup.map (append_left_injective "test_")
    exact (sortStrings_perm _).nodup_iff.mpr reg.freeScenarios.keys_nodup
  have hs : ((sortStrings reg.scenarios.dedup).map fun n => (scenarioEntry n).name).Nodup := by
    apply List.Nodup.map (append_left_injective "test_")
    exact (sortStrings_perm _).nodup_iff.mpr reg.scenarios.nodup_dedup
  have h1 : _ = afterTests reg := foldl_addEntry testEntry _ (afterDefs reg) ht
  have h2 : _ = afterMatrices reg := foldl_addEntry (matrixEntry reg) _ (afterTests reg) hm
  have h3 : _ = afterFree reg := foldl_addEntry freeEntry _ (afterMatrices reg) hf
  show (sortStrings reg.scenarios.dedup).foldl (fun tests n => addEntry tests (scenarioEntry n))
    ((sortStrings reg.freeScenarios.keys).foldl (fun tests n => addEntry tests (freeEntry n))
      ((sortStrings reg.cellsByMatrix.keys).foldl
        (fun tests n => addEntry tests (matrixEntry reg n))
        ((sortStrings reg.testConfigs.keys).foldl
          (fun tests n => addEntry tests (testEntry n)) (afterDefs reg)))) = _
  rw [h1, h2, h3]
  exact foldl_addEntry scenarioEntry _ (afterFree reg) hs

/-! ## Which names are seen before each pass -/

theorem defEntry_name (axes : GoMap String (List ChooseAxis)) (n : String) :
    (defEntry axes n).name = n ∧ (defEntry axes n).kind = .defTest := by
  unfold defEntry applyChooseAxes
  split <;> exact ⟨rfl, rfl⟩

theorem afterDefs_names : n ∈ (afterDefs reg).map (·.name) ↔ n ∈ reg.defTestNames := by
  unfold afterDefs
  rw [List.map_map, List.mem_map]
  simp only [Function.comp_apply, (defEntry_name _ _).1, exists_eq_right,
    (sortStrings_perm _).mem_iff]

theorem afterTests_names :
    n ∈ (afterTests reg).map (·.name) ↔ n ∈ reg.defTestNames ∨ IsTest reg n := by
  unfold afterTests newTests
  rw [mem_names_of_pass, afterDefs_names]
  simp only [testEntry, exists_eq_right, (sortStrings_perm _).mem_iff]
  rfl

theorem afterMatrices_names :
    n ∈ (afterMatrices reg).map (·.name) ↔
      n ∈ reg.defTestNames ∨ IsTest reg n ∨ Heading reg n := by
  unfold afterMatrices newMatrices
  rw [mem_names_of_pass, afterTests_names, or_assoc]
  simp only [(sortStrings_perm _).mem_iff]
  by_cases ht : IsTest reg n
  · simp [ht]
  · have hh : Heading reg n ↔ ∃ g ∈ reg.cellsByMatrix.keys, (matrixEntry reg g).name = n := by
      constructor
      · rintro ⟨-, g, hg, rfl⟩
        exact ⟨g, hg, rfl⟩
      · rintro ⟨g, hg, rfl⟩
        exact ⟨ht, g, hg, rfl⟩
    rw [hh]

theorem exists_free :
    (∃ f ∈ reg.freeScenarios.keys, (freeEntry f).name = n) ↔ Free reg n := by
  constructor
  · rintro ⟨f, hf, rfl⟩
    obtain ⟨fs, hfs, hn, rfl⟩ := (mem_freeScenarios reg f).mp hf
    exact ⟨fs, hfs, hn, rfl⟩
  · rintro ⟨fs, hfs, hn, rfl⟩
    exact ⟨fs.name, (mem_freeScenarios reg _).mpr ⟨fs, hfs, hn, rfl⟩, rfl⟩

theorem afterFree_names :
    n ∈ (afterFree reg).map (·.name) ↔
      n ∈ reg.defTestNames ∨ IsTest reg n ∨ Heading reg n ∨ Free reg n := by
  unfold afterFree newFree
  rw [mem_names_of_pass, afterMatrices_names, or_assoc, or_assoc]
  simp only [(sortStrings_perm _).mem_iff, exists_free]

/-! ## What each pass counts -/

theorem mem_newTests : n ∈ newTests reg ↔ IsTest reg n := by
  unfold newTests
  rw [mem_unseen, (sortStrings_perm _).mem_iff, afterDefs_names]
  constructor
  · exact fun h => h.1
  · intro h
    refine ⟨h, ?_⟩
    intro hdef
    exact ((mem_defTestNames reg n).mp hdef).2.2.2.1 h

theorem mem_newMatrices :
    g ∈ newMatrices reg ↔ g ∈ reg.cellsByMatrix ∧ "test_matrix_" ++ g ∉ reg.testConfigs := by
  unfold newMatrices
  rw [mem_unseen, (sortStrings_perm _).mem_iff, afterTests_names]
  constructor
  · rintro ⟨hg, hnot⟩
    exact ⟨hg, fun ht => hnot (.inr ht)⟩
  · rintro ⟨hg, hnot⟩
    refine ⟨hg, ?_⟩
    rintro (hdef | ht)
    · exact not_def_of_heading reg ⟨hnot, g, hg, rfl⟩ hdef
    · exact hnot ht

def countedCells : List String := (newMatrices reg).flatMap fun g => (matrixEntry reg g).matrixCells

theorem mem_matrixCells :
    n ∈ (matrixEntry reg g).matrixCells ↔ ∃ fs ∈ reg.faultScenarioDefs,
      ∃ m, fs.matrix = some m ∧ "test_" ++ fs.name = n ∧ m.scenarioName = g := by
  unfold matrixEntry cellNames
  simp only [(sortStrings_perm _).mem_iff, List.mem_map, mem_cells]
  constructor
  · rintro ⟨fs, ⟨hfs, m, hm, hg⟩, rfl⟩
    exact ⟨fs, hfs, m, hm, rfl, hg⟩
  · rintro ⟨fs, hfs, m, hm, rfl, hg⟩
    exact ⟨fs, ⟨hfs, m, hm, hg⟩, rfl⟩

theorem mem_countedCells : n ∈ countedCells reg ↔ Cell reg n := by
  unfold countedCells
  simp only [List.mem_flatMap, mem_newMatrices, mem_matrixCells]
  constructor
  · rintro ⟨g, ⟨-, hnot⟩, fs, hfs, m, hm, rfl, rfl⟩
    exact ⟨fs, hfs, m, hm, rfl, hnot⟩
  · rintro ⟨fs, hfs, m, hm, rfl, hnot⟩
    exact ⟨m.scenarioName, ⟨(mem_cellsByMatrix reg _).mpr ⟨fs, hfs, m, hm, rfl⟩, hnot⟩,
      fs, hfs, m, hm, rfl, rfl⟩

theorem mem_newFree :
    n ∈ (newFree reg).map ("test_" ++ ·) ↔ Free reg n ∧ ¬ IsTest reg n ∧ ¬ Heading reg n := by
  unfold newFree
  rw [List.mem_map]
  constructor
  · rintro ⟨f, hmem, rfl⟩
    rw [mem_unseen, (sortStrings_perm _).mem_iff, afterMatrices_names] at hmem
    obtain ⟨hf, hnot⟩ := hmem
    push Not at hnot
    exact ⟨(exists_free reg _).mp ⟨f, hf, rfl⟩, hnot.2.1, hnot.2.2⟩
  · rintro ⟨hfr, ht, hh⟩
    obtain ⟨f, hf, rfl⟩ := (exists_free reg n).mpr hfr
    refine ⟨f, ?_, rfl⟩
    rw [mem_unseen, (sortStrings_perm _).mem_iff, afterMatrices_names]
    refine ⟨hf, ?_⟩
    rintro (hdef | h | h)
    · exact ((mem_defTestNames reg _).mp hdef).2.2.2.2.2 hfr
    · exact ht h
    · exact hh h

theorem mem_newScenarios :
    n ∈ (newScenarios reg).map ("test_" ++ ·) ↔
      Scenario reg n ∧ ¬ IsTest reg n ∧ ¬ Heading reg n ∧ ¬ Free reg n := by
  unfold newScenarios
  rw [List.mem_map]
  constructor
  · rintro ⟨s, hmem, rfl⟩
    rw [mem_unseen, (sortStrings_perm _).mem_iff, List.mem_dedup, afterFree_names] at hmem
    obtain ⟨hs, hnot⟩ := hmem
    push Not at hnot
    exact ⟨⟨s, hs, rfl⟩, hnot.2.1, hnot.2.2.1, hnot.2.2.2⟩
  · rintro ⟨⟨s, hs, rfl⟩, ht, hh, hf⟩
    refine ⟨s, ?_, rfl⟩
    rw [mem_unseen, (sortStrings_perm _).mem_iff, List.mem_dedup, afterFree_names]
    refine ⟨hs, ?_⟩
    rintro (hdef | h | h | h)
    · exact ((mem_defTestNames reg _).mp hdef).2.2.2.2.1 ⟨s, hs, rfl⟩
    · exact ht h
    · exact hh h
    · exact hf h

/-! ## The count as a whole -/

def countedOthers : List String :=
  (newFree reg).map ("test_" ++ ·) ++ (newScenarios reg).map ("test_" ++ ·)

theorem mem_countedOthers : n ∈ countedOthers reg ↔ Other reg n := by
  unfold countedOthers
  rw [List.mem_append, mem_newFree, mem_newScenarios]
  constructor
  · rintro (⟨hf, ht, hh⟩ | ⟨hs, ht, hh, -⟩)
    · exact ⟨ht, hh, .inl hf⟩
    · exact ⟨ht, hh, .inr hs⟩
  · rintro ⟨ht, hh, hk⟩
    by_cases hf : Free reg n
    · exact .inl ⟨hf, ht, hh⟩
    · exact .inr ⟨hk.resolve_left hf, ht, hh, hf⟩

theorem counted_perm :
    (counted reg).Perm (sortStrings reg.defTestNames ++
      (newTests reg ++ (countedCells reg ++ countedOthers reg))) := by
  have hs : (counted reg).Perm ((planEntries reg).flatMap (·.covers)) :=
    (List.perm_insertionSort _ _).flatMap_right _
  have hd : (afterDefs reg).flatMap (·.covers) = sortStrings reg.defTestNames := by
    unfold afterDefs
    rw [List.flatMap_map]
    simp [PlanTest.covers, defEntry_name]
  have ht : ((newTests reg).map testEntry).flatMap (·.covers) = newTests reg := by
    rw [List.flatMap_map]
    simp [PlanTest.covers, testEntry]
  have hc :
      ((newMatrices reg).map (matrixEntry reg)).flatMap (·.covers) = countedCells reg := by
    rw [List.flatMap_map]
    rfl
  have hf : ((newFree reg).map freeEntry).flatMap (·.covers) =
      (newFree reg).map ("test_" ++ ·) := by
    rw [List.flatMap_map]
    exact List.map_eq_flatMap.symm
  have hsc : ((newScenarios reg).map scenarioEntry).flatMap (·.covers) =
      (newScenarios reg).map ("test_" ++ ·) := by
    rw [List.flatMap_map]
    exact List.map_eq_flatMap.symm
  rw [planEntries_eq, afterFree, afterMatrices, afterTests] at hs
  simp only [List.flatMap_append, hd, ht, hc, hf, hsc, List.append_assoc] at hs
  exact hs

theorem mem_counted :
    n ∈ counted reg ↔ n ∈ reg.defTestNames ∨ IsTest reg n ∨ Cell reg n ∨ Other reg n := by
  rw [(counted_perm reg).mem_iff, List.mem_append, List.mem_append, List.mem_append,
    (sortStrings_perm _).mem_iff, mem_newTests, mem_countedCells, mem_countedOthers]

/-- No two matrices share a cell, and no cell is listed twice. -/
theorem countedCells_nodup : (countedCells reg).Nodup := by
  have hd : (reg.faultScenarioDefs.map (·.name)).Nodup := by
    have hk : (reg.faultScenarios.entries.map (·.1)).Nodup := reg.faultScenarios.keys_nodup
    have hs : reg.faultScenarioDefs.map (·.name) = reg.faultScenarios.entries.map (·.1) := by
      unfold Registry.faultScenarioDefs
      rw [List.map_map]
      apply List.map_congr_left
      rintro ⟨k, fs⟩ hmem
      exact reg.keyed k fs (AList.mem_lookup_iff.mpr hmem)
    rw [hs]
    exact hk
  unfold countedCells
  rw [List.nodup_flatMap]
  constructor
  · intro g _
    unfold matrixEntry cellNames
    rw [(sortStrings_perm _).nodup_iff]
    unfold sortCells Registry.cellsByMatrix
    rw [((List.perm_insertionSort _ _).map _).nodup_iff, lookup_groupOn]
    have ht : (reg.faultScenarioDefs.map fun fs => "test_" ++ fs.name).Nodup := by
      have := hd.map (append_left_injective "test_")
      rwa [List.map_map] at this
    exact ht.sublist ((List.filter_sublist.trans List.filter_sublist).map _)
  · have hg : (newMatrices reg).Nodup := by
      unfold newMatrices unseen
      exact ((sortStrings_perm _).nodup_iff.mpr reg.cellsByMatrix.keys_nodup).filter _
    apply hg.pairwise_of_forall_ne
    intro g _ g' _ hne n hn hn'
    -- A cell belongs to one scenario name only.
    obtain ⟨fs, hfs, m, hm, hna, rfl⟩ := (mem_matrixCells reg g n).mp hn
    obtain ⟨fs', hfs', m', hm', hna', rfl⟩ := (mem_matrixCells reg g' n).mp hn'
    have hs : fs = fs' := by
      apply faultScenarioDefs_unique reg hfs hfs'
      exact append_left_injective "test_" (hna.trans hna'.symm)
    rw [hs, hm'] at hm
    cases hm
    exact hne rfl

theorem countedOthers_nodup : (countedOthers reg).Nodup := by
  unfold countedOthers
  rw [List.nodup_append]
  refine ⟨?_, ?_, ?_⟩
  · apply List.Nodup.map (append_left_injective "test_")
    unfold newFree unseen
    exact ((sortStrings_perm _).nodup_iff.mpr reg.freeScenarios.keys_nodup).filter _
  · apply List.Nodup.map (append_left_injective "test_")
    unfold newScenarios unseen
    exact ((sortStrings_perm _).nodup_iff.mpr reg.scenarios.nodup_dedup).filter _
  · intro a ha b hb
    rw [mem_newFree] at ha
    rw [mem_newScenarios] at hb
    rintro rfl
    exact hb.2.2.2 ha.1

/-- The only names that the plan can count twice are cells. -/
theorem counted_nodup_iff :
    (counted reg).Nodup ↔ ∀ n, Cell reg n → ¬ IsTest reg n ∧ ¬ Other reg n := by
  have hd : (sortStrings reg.defTestNames).Nodup := by
    rw [(sortStrings_perm _).nodup_iff]
    exact (globalCallableNames_nodup reg).filter _
  have hte : (newTests reg).Nodup := by
    unfold newTests unseen
    exact ((sortStrings_perm _).nodup_iff.mpr reg.testConfigs.keys_nodup).filter _
  rw [(counted_perm reg).nodup_iff]
  simp only [List.nodup_append, List.mem_append, (sortStrings_perm _).mem_iff, mem_newTests,
    mem_countedCells, mem_countedOthers]
  constructor
  · rintro ⟨-, ⟨-, ⟨-, -, hce⟩, htes⟩, -⟩ n hc
    constructor
    · intro ht
      exact htes n ht n (.inl hc) rfl
    · intro ho
      exact hce n hc n ho rfl
  · intro h
    refine ⟨hd, ⟨hte, ⟨countedCells_nodup reg, countedOthers_nodup reg, ?_⟩, ?_⟩, ?_⟩
    · rintro a ha b hb rfl
      exact (h a ha).2 hb
    · rintro a ha b hb rfl
      rcases hb with hb | hb
      · exact (h a hb).1 ha
      · exact hb.1 ha
    · rintro a ha b hb rfl
      obtain ⟨-, -, hp, htes, hs, hf⟩ := (mem_defTestNames reg a).mp ha
      rcases hb with hb | hb | hb
      · exact htes hb
      · obtain ⟨fs, hfs, m, hm, rfl, -⟩ := hb
        rw [hasPrefix_of_cell reg hfs hm] at hp
        cases hp
      · rcases hb.2.2 with hb | hb
        · exact hf hb
        · exact hs hb

theorem discovered_of_counted {n : String} (h : n ∈ counted reg) : n ∈ (discoverTests reg).1 := by
  rw [mem_discoverTests]
  rcases (mem_counted reg n).mp h with hdef | ht | hc | ho
  · obtain ⟨hg, hp, -⟩ := (mem_defTestNames reg n).mp hdef
    exact .inl ⟨hg, hp⟩
  · exact .inr (.inr (.inr ht))
  · obtain ⟨fs, hfs, -, -, hn, -⟩ := hc
    exact .inr (.inr (.inl ⟨fs, hfs, hn⟩))
  · rcases ho.2.2 with ⟨fs, hfs, -, hn⟩ | hs
    · exact .inr (.inr (.inl ⟨fs, hfs, hn⟩))
    · exact .inr (.inl hs)

theorem counted_of_plain {n : String} (h : n ∈ (discoverTests reg).1)
    (hpl : hasPrefix n "test_matrix_" = false) : n ∈ counted reg := by
  have hh : ¬ Heading reg n := by
    rintro ⟨-, g, -, rfl⟩
    rw [hasPrefix_append] at hpl
    cases hpl
  rw [mem_counted]
  by_cases ht : IsTest reg n
  · exact .inr (.inl ht)
  by_cases ho : Free reg n ∨ Scenario reg n
  · exact .inr (.inr (.inr ⟨ht, hh, ho⟩))
  push Not at ho
  rcases (mem_discoverTests reg n).mp h with ⟨hg, hp⟩ | hs | ⟨fs, hfs, rfl⟩ | ht'
  · exact .inl ((mem_defTestNames reg n).mpr ⟨hg, hp, hpl, ht, ho.2, ho.1⟩)
  · exact absurd hs ho.2
  · cases hm : fs.matrix with
    | none => exact absurd ⟨fs, hfs, hm, rfl⟩ ho.1
    | some m =>
      rw [hasPrefix_of_cell reg hfs hm] at hpl
      cases hpl
  · exact absurd ht' ht

/-! ## The law -/

/-- Each discovered name that starts with test_matrix_ is exactly one of a test()
declaration, a counted cell, and a scenario under a name of its own. -/
def Unambiguous : Prop :=
  ∀ n ∈ (discoverTests reg).1, hasPrefix n "test_matrix_" = true →
    (IsTest reg n ∨ Cell reg n ∨ Other reg n) ∧ (Cell reg n → ¬ IsTest reg n ∧ ¬ Other reg n)

theorem counted_perm_discovered_iff :
    (counted reg).Perm (discoverTests reg).1 ↔ Unambiguous reg := by
  constructor
  · intro hp n hn hpr
    constructor
    · rcases (mem_counted reg n).mp (hp.symm.subset hn) with hdef | h
      · rw [((mem_defTestNames reg n).mp hdef).2.2.1] at hpr
        cases hpr
      · exact h
    · exact (counted_nodup_iff reg).mp (hp.nodup_iff.mpr (discoverTests_nodup reg)) n
  · intro h
    have hce : ∀ n, Cell reg n → ¬ IsTest reg n ∧ ¬ Other reg n := by
      intro n hc
      have hn := discovered_of_counted reg ((mem_counted reg n).mpr (.inr (.inr (.inl hc))))
      apply (h n hn ?_).2 hc
      obtain ⟨fs, hfs, m, hm, rfl, -⟩ := hc
      exact hasPrefix_of_cell reg hfs hm
    rw [List.perm_ext_iff_of_nodup ((counted_nodup_iff reg).mpr hce) (discoverTests_nodup reg)]
    intro n
    constructor
    · exact discovered_of_counted reg
    · intro hn
      by_cases hpr : hasPrefix n "test_matrix_" = true
      · exact (mem_counted reg n).mpr (.inr (h n hn hpr).1)
      · exact counted_of_plain reg hn (by simpa using hpr)

theorem instances_eq_covers (hp : ∀ name, (chooseAxesInSource reg.source).lookup name = none)
    {t : PlanTest} (h : t ∈ buildTests reg) : t.instances = t.covers.length := by
  have hmem : t ∈ planEntries reg := (List.perm_insertionSort _ _).mem_iff.mp h
  rw [planEntries_eq, afterFree, afterMatrices, afterTests] at hmem
  simp only [List.mem_append, List.mem_map] at hmem
  obtain (((hdef | ⟨n, -, rfl⟩) | ⟨g, -, rfl⟩) | ⟨n, -, rfl⟩) | ⟨n, -, rfl⟩ := hmem
  · obtain ⟨n, -, rfl⟩ := List.mem_map.mp hdef
    simp [defEntry, applyChooseAxes, hp, PlanTest.covers]
  · rfl
  · have hlen := (sortStrings_perm ((sortCells ((reg.cellsByMatrix.lookup g).getD [])).map
      fun c => "test_" ++ c.name)).length_eq
    rw [List.length_map] at hlen
    simp only [matrixEntry, PlanTest.covers, cellNames, if_true, hlen]
  · rfl
  · rfl

theorem totals_eq_counted (hp : ∀ name, (chooseAxesInSource reg.source).lookup name = none)
    (hfit : (counted reg).length < 2 ^ 63) :
    (computeTotals (buildTests reg)).1 = (counted reg).length := by
  have hsum : ((buildTests reg).map (·.instances)).sum = ((counted reg).length : Nat) := by
    have hmap : (buildTests reg).map (·.instances) =
        ((buildTests reg).map fun t => t.covers.length).map Int.ofNat := by
      rw [List.map_map]
      apply List.map_congr_left
      intro t ht
      exact instances_eq_covers reg hp ht
    unfold counted
    rw [hmap, List.length_flatMap]
    exact (Nat.cast_list_sum _).symm
  have hl := foldl_wrap_add (·.instances) (buildTests reg) 0
  have hz : wrap 0 = 0 := by decide
  rw [hz, Int.zero_add, hsum] at hl
  have hf : Fits ((counted reg).length : Nat) := ⟨by omega, by exact_mod_cast hfit⟩
  exact hl.trans (wrap_of_fits hf)

/-- Without choose() axes, the total of the plan is the number of discovered
tests with each of them counted once exactly when no name that starts with
test_matrix_ is ambiguous. -/
theorem the_plan_counts_every_test_once_iff
    (hplain : ∀ name, (chooseAxesInSource reg.source).lookup name = none)
    (hfit : (discoverTests reg).1.length < 2 ^ 63) :
    ((computeTotals (buildTests reg)).1 = (discoverTests reg).1.length ∧
      (counted reg).Perm (discoverTests reg).1) ↔ Unambiguous reg := by
  rw [← counted_perm_discovered_iff]
  constructor
  · exact fun h => h.2
  · intro hp
    refine ⟨?_, hp⟩
    rw [totals_eq_counted reg hplain (hp.length_eq ▸ hfit), hp.length_eq]

def specOf (declarations : List Declaration) (defs : List String) : Except String Registry :=
  load (defs.map fun n => .defStmt n (.other [])) declarations
    (storeAll ∅ (defs.map fun n => (n, true)))

theorem one_test_of_each_kind_is_counted_once :
    ∃ reg, specOf [.scenario "login", .faultMatrix ["login"] ["disk_full", "outage"] [],
        .faultScenario "restart", .test "ping"] ["login", "test_smoke"] = .ok reg ∧
      (computeTotals (buildTests reg)).1 = 6 ∧ Unambiguous reg := by
  refine ⟨_, rfl, by decide, ?_⟩
  apply (the_plan_counts_every_test_once_iff _ (fun _ => rfl) (by decide)).mp
  constructor
  · decide
  · decide

/-- A def named test_matrix_login is discovered and not counted; a test() under
the name of a matrix cell is discovered once and counted twice. -/
theorem the_plan_loses_and_doubles_matrix_names :
    (∃ reg, specOf [] ["test_matrix_login"] = .ok reg ∧
      (discoverTests reg).1 = ["test_matrix_login"] ∧ (computeTotals (buildTests reg)).1 = 0) ∧
    (∃ reg, specOf [.faultMatrix ["login"] ["outage"] [], .test "matrix_login_outage"]
        ["login"] = .ok reg ∧
      (discoverTests reg).1 = ["test_matrix_login_outage"] ∧
      (computeTotals (buildTests reg)).1 = 2) := by
  constructor
  · exact ⟨_, rfl, by decide, by decide⟩
  · exact ⟨_, rfl, by decide, by decide⟩

end faultbox.plan
