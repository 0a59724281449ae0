-- Running one test as one or more leaves: a discovery run records the axes of
-- the body, the plan tree is enumerated, and every leaf runs on its own.
import Faultbox.CrossProduct
import Faultbox.TestResult

open goval faultbox.plan_tree faultbox.test_result

namespace faultbox.fanout

variable {V σ : Type}

/-! ## One leaf -/

/-- What runTestImpl leaves behind: its result, and whether the test asked that
its faults fire; or a Go panic with its value and stack. -/
inductive ImplOutcome (V : Type) where
  | returned (tr : TestResult V) (requireFaultsFire : Bool)
  | panicked (value stack : String)

/-- What the body records while it runs, in order: its choose() calls, the
probability faults it installs, its parallel() calls. -/
structure BodyTrace (V : Type) where
  choices : List (ChoiceVal V)
  probFaults : List ProbFaultSite
  parallelSites : List ParallelSite

/-- A protocol fault that never fired marks a passing result, or fails it when
the test requires its faults to fire. -/
def enforceFaultsFire (requireFaultsFire : Bool) (tr : TestResult V) : TestResult V :=
  match tr.result, protocolFaultDiagnostics tr.events with
  | .pass, message :: _ =>
    if requireFaultsFire then
      { tr with result := .fail, reason := "FAULT_NOT_FIRED: " ++ message, faultBypassed := false }
    else { tr with faultBypassed := true }
  | _, _ => tr

/-- The number of the leaf and the maps it pins, copied onto its result. -/
def stampLeaf (leaf : PlanLeaf) (tr : TestResult V) : TestResult V :=
  { tr with
    leafID := toString leaf.index
    leafChoices := if leaf.choices.keys.isEmpty then tr.leafChoices else some leaf.choices
    leafProbabilityOutcomes :=
      if leaf.probabilityOutcomes.keys.isEmpty then tr.leafProbabilityOutcomes
      else some leaf.probabilityOutcomes
    leafInterleavingIDs :=
      if leaf.interleavingIDs.keys.isEmpty then tr.leafInterleavingIDs
      else some leaf.interleavingIDs }

/-- `RunTestLeaf` after runTestImpl returned, and `runTestSafelyLeaf` around it:
a panic becomes an error result. -/
def runTestSafelyLeaf (name : String) (leaf : PlanLeaf) : ImplOutcome V → TestResult V
  | .returned tr requireFaultsFire =>
    stampLeaf leaf (enforceFaultsFire requireFaultsFire
      (enforceShutdownErrors (enforceMockErrors tr)))
  | .panicked value stack =>
    { name := name
      result := .error
      reason := "panic: " ++ value ++ "\n\n" ++ stack
      leafID := toString leaf.index }

/-! ## The leaves of a test -/

/-- How the leaves of a test run in the state `σ` of everything else: the axes
known so far, the leaf, and what comes out; and whether the context of the run
is cancelled. -/
structure Runner (σ V : Type) where
  impl : σ → List (ChoiceVal V) → PlanLeaf → ImplOutcome V × BodyTrace V × σ
  cancelled : σ → Bool

/-- The loop over the leaves after the first: the results, and how many leaves
were skipped because the run was cancelled. -/
def runLeaves (r : Runner σ V) (name : String) (planAxes : List (ChoiceVal V)) :
    List PlanLeaf → σ → List (TestResult V) × Nat × σ
  | [], s => ([], 0, s)
  | leaf :: rest, s =>
    if r.cancelled s then ([], rest.length + 1, s)
    else
      let (out, _, s) := r.impl s planAxes leaf
      let (results, skipped, s) := runLeaves r name planAxes rest s
      (runTestSafelyLeaf name leaf out :: results, skipped, s)

def discoveryLeaf : PlanLeaf := { PlanLeaf.blank 0 with isDiscovery := true }

def BodyTrace.axes (t : BodyTrace V) : List (ChoiceVal V) := collectNamedAxes t.choices
def BodyTrace.probAxes (t : BodyTrace V) : List ProbFaultSite :=
  t.probFaults.foldl recordProbFault []
def BodyTrace.parAxes (t : BodyTrace V) : List ParallelSite :=
  t.parallelSites.foldl recordParallelSite []

def BodyTrace.single (t : BodyTrace V) : Bool :=
  t.axes.isEmpty && t.probAxes.isEmpty &&
    !(t.parAxes.any fun p => 0 < interleavingCardinality p)

/-- The results of the leaves that ran, and the number of leaves skipped. None
when Go panics: a negative length for `make`, or no leaf 0 to run. -/
def runTestFanout (r : Runner σ V) (name : String) (s : σ) :
    Option (List (TestResult V) × Nat × σ) :=
  let (out, trace, s) := r.impl s [] discoveryLeaf
  if trace.single then
    some ([{ runTestSafelyLeaf name discoveryLeaf out with leafID := "" }], 0, s)
  else
    match enumerateLeaves trace.axes trace.probAxes trace.parAxes with
    | some (leaf :: rest) =>
      let (out, _, s) := r.impl s trace.axes leaf
      let (results, skipped, s) := runLeaves r name trace.axes rest s
      some (runTestSafelyLeaf name leaf out :: results, skipped, s)
    | _ => none

/-! ## How many leaves run -/

theorem runLeaves_live (r : Runner σ V) (name : String) (planAxes : List (ChoiceVal V))
    (leaf : PlanLeaf) (rest : List PlanLeaf) {s : σ} (h : r.cancelled s = false) :
    runLeaves r name planAxes (leaf :: rest) s =
      (runTestSafelyLeaf name leaf (r.impl s planAxes leaf).1 ::
          (runLeaves r name planAxes rest (r.impl s planAxes leaf).2.2).1,
        (runLeaves r name planAxes rest (r.impl s planAxes leaf).2.2).2) := by
  rw [runLeaves, if_neg (by simp [h])]

theorem runLeaves_length (r : Runner σ V) (name : String) (planAxes : List (ChoiceVal V))
    (leaves : List PlanLeaf) (s : σ) :
    (runLeaves r name planAxes leaves s).1.length +
      (runLeaves r name planAxes leaves s).2.1 = leaves.length := by
  induction leaves generalizing s with
  | nil => rfl
  | cons leaf rest ih =>
    by_cases hc : r.cancelled s = true
    · simp [runLeaves, hc]
    · rw [runLeaves_live r name planAxes leaf rest (by simpa using hc)]
      have := ih (r.impl s planAxes leaf).2.2
      simp only [List.length_cons]
      omega

theorem runLeaves_skipped (r : Runner σ V) (name : String) (planAxes : List (ChoiceVal V))
    (leaves : List PlanLeaf) (s : σ) (hl : ∀ s, r.cancelled s = false) :
    (runLeaves r name planAxes leaves s).2.1 = 0 := by
  induction leaves generalizing s with
  | nil => rfl
  | cons leaf rest ih =>
    rw [runLeaves_live r name planAxes leaf rest (hl s)]
    exact ih _

def BodyTrace.siteSizes (t : BodyTrace V) : List Nat :=
  (t.probAxes.filter fun p => 0 < p.cardinality).map (·.cardinality.toNat) ++
    (active t.parAxes).map fun p => (interleavingCardinality p).toNat

def BodyTrace.sizes (t : BodyTrace V) : List Nat :=
  t.axes.map (·.options.length) ++ t.siteSizes

theorem namedAxesFrom_mem (seen : List String) (choices : List (ChoiceVal V)) {a : ChoiceVal V}
    (h : a ∈ namedAxesFrom seen choices) :
    a ∈ choices ∧ a.name ≠ "" ∧ 2 ≤ a.options.length ∧ a.name ∉ seen := by
  induction choices generalizing seen with
  | nil => simp [namedAxesFrom] at h
  | cons c rest ih =>
    unfold namedAxesFrom at h
    split at h
    · obtain ⟨hm, hr⟩ := ih seen h
      exact ⟨List.mem_cons_of_mem _ hm, hr⟩
    · rename_i hsk
      split at h
      · obtain ⟨hm, hr⟩ := ih seen h
        exact ⟨List.mem_cons_of_mem _ hm, hr⟩
      · rename_i hse
        rcases List.mem_cons.mp h with rfl | hmem
        · push Not at hsk
          exact ⟨List.mem_cons_self, hsk.1, hsk.2, hse⟩
        · obtain ⟨hm, hn, ho, hs⟩ := ih (c.name :: seen) hmem
          exact ⟨List.mem_cons_of_mem _ hm, hn, ho, fun hin => hs (List.mem_cons_of_mem _ hin)⟩

theorem namedAxesFrom_nodup (seen : List String) (choices : List (ChoiceVal V)) :
    ((namedAxesFrom seen choices).map (·.name)).Nodup := by
  induction choices generalizing seen with
  | nil => simp [namedAxesFrom]
  | cons c rest ih =>
    unfold namedAxesFrom
    split
    · exact ih seen
    · split
      · exact ih seen
      · rw [List.map_cons, List.nodup_cons]
        refine ⟨?_, ih _⟩
        intro hmem
        obtain ⟨a, ha, hn⟩ := List.mem_map.mp hmem
        obtain ⟨-, -, -, hs⟩ := namedAxesFrom_mem _ _ ha
        exact hs (hn ▸ List.mem_cons_self)

theorem axis_cardinality (t : BodyTrace V) {a : ChoiceVal V} (h : a ∈ t.axes) :
    a.cardinality = a.options.length := by
  obtain ⟨-, hn, ho, -⟩ := namedAxesFrom_mem _ _ h
  unfold ChoiceVal.cardinality
  rw [if_neg]
  simp only [hn, false_or]
  omega

theorem sizes_eq (t : BodyTrace V) :
    (collectChoices t.axes t.probAxes t.parAxes).map (·.cardinality) =
      t.sizes.map Int.ofNat := by
  have hall : t.axes.filter (fun a => 0 < a.cardinality) = t.axes := by
    rw [List.filter_eq_self]
    intro a ha
    obtain ⟨-, -, ho, -⟩ := namedAxesFrom_mem _ _ ha
    rw [axis_cardinality t ha]
    simp only [decide_eq_true_eq]
    omega
  unfold collectChoices BodyTrace.sizes BodyTrace.siteSizes
  rw [hall, List.append_assoc]
  simp only [List.map_append, List.map_map]
  refine congrArg₂ _ ?_ (congrArg₂ _ ?_ ?_)
  · apply List.map_congr_left
    intro a ha
    exact axis_cardinality t ha
  · apply List.map_congr_left
    intro p hp
    have hpos := (List.mem_filter.mp hp).2
    simp only [decide_eq_true_eq] at hpos
    simp only [Function.comp_apply, NonDeterministicChoice.cardinality, Int.ofNat_eq_natCast]
    omega
  · apply List.map_congr_left
    intro p hp
    have := active_pos hp
    simp only [Function.comp_apply, NonDeterministicChoice.cardinality, Int.ofNat_eq_natCast]
    omega

theorem sizes_of_single {t : BodyTrace V} (h : t.single = true) : t.sizes = [] := by
  simp only [BodyTrace.single, Bool.and_eq_true, List.isEmpty_iff, Bool.not_eq_true'] at h
  obtain ⟨⟨ha, hpr⟩, hpa⟩ := h
  have hac : active t.parAxes = [] := by
    unfold active
    rw [List.filter_eq_nil_iff]
    intro p hp
    have := List.any_eq_false.mp hpa p hp
    simpa using this
  simp [BodyTrace.sizes, BodyTrace.siteSizes, ha, hpr, hac]

theorem sizes_pos (t : BodyTrace V) : 0 < t.sizes.prod := by
  apply List.prod_pos
  intro b hb
  simp only [BodyTrace.sizes, BodyTrace.siteSizes, List.mem_append, List.mem_map,
    List.mem_filter, decide_eq_true_eq] at hb
  obtain ⟨a, ha, rfl⟩ | ⟨p, ⟨-, hp⟩, rfl⟩ | ⟨p, hp, rfl⟩ := hb
  · obtain ⟨-, -, ho, -⟩ := namedAxesFrom_mem _ _ ha
    omega
  · omega
  · have := active_pos hp
    omega

def discovery (r : Runner σ V) (s : σ) : BodyTrace V := (r.impl s [] discoveryLeaf).2.1

theorem runTestFanout_length (r : Runner σ V) (name : String) (s : σ)
    (hl : ∀ s, r.cancelled s = false) (hfit : (discovery r s).sizes.prod < 2 ^ 63) :
    ∃ results s', runTestFanout r name s = some (results, 0, s') ∧
      results.length = (discovery r s).sizes.prod := by
  have hdef : discovery r s = (r.impl s [] discoveryLeaf).2.1 := rfl
  unfold runTestFanout
  simp only [← hdef]
  by_cases hs : (discovery r s).single = true
  · rw [if_pos hs]
    exact ⟨_, _, rfl, by simp [sizes_of_single hs]⟩
  · rw [if_neg hs]
    obtain ⟨leaves, hle, hlen⟩ := expandLeaves_length _ _ (sizes_eq (discovery r s)) hfit
    have hpos := sizes_pos (discovery r s)
    cases leaves with
    | nil => simp at hlen; omega
    | cons leaf rest =>
      have hrun := runLeaves_length r name (discovery r s).axes rest
        (r.impl (r.impl s [] discoveryLeaf).2.2 (discovery r s).axes leaf).2.2
      have hsk := runLeaves_skipped r name (discovery r s).axes rest
        (r.impl (r.impl s [] discoveryLeaf).2.2 (discovery r s).axes leaf).2.2 hl
      rw [hsk, Nat.add_zero] at hrun
      rw [enumerateLeaves, hle]
      refine ⟨_, _, congrArg some (Prod.ext rfl (Prod.ext hsk rfl)), ?_⟩
      rw [← hlen]
      exact congrArg Nat.succ hrun

end faultbox.fanout
