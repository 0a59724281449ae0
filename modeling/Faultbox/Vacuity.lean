-- The counters behind the vacuity diagnostics: assertions by the name of the test, and the
-- interfaces with a positive control. The law: each run reports its own assertions, and only its
-- own assertions confirm a control. The counters outlive the run, so the law holds exactly where
-- no run follows an asserting run of the same name.
import Faultbox.Runs
import Mathlib.Algebra.Order.BigOperators.Group.List
import Mathlib.Algebra.Order.Ring.Nat
import Mathlib.Data.Finset.Basic

namespace faultbox.vacuity

/-! ## The state -/

structure IfaceRef where
  service : String
  iface : String
deriving DecidableEq

/-- `vacuityState`. -/
structure VacuityState where
  assertions : String → Nat
  stepped : Finset IfaceRef
  candidates : Finset IfaceRef
  positiveControl : Finset IfaceRef

def newVacuityState : VacuityState := ⟨fun _ => 0, ∅, ∅, ∅⟩

def VacuityState.noteAssertion (v : VacuityState) (test : String) : VacuityState :=
  if test = "" then v
  else { v with assertions := Function.update v.assertions test (v.assertions test + 1) }

def VacuityState.noteStep (v : VacuityState) (svc iface : String) (success : Bool) :
    VacuityState :=
  if svc = "" then v
  else
    { v with
      stepped := insert ⟨svc, iface⟩ v.stepped
      candidates := if success then insert ⟨svc, iface⟩ v.candidates else v.candidates }

def VacuityState.endTest (v : VacuityState) (test result : String) : VacuityState :=
  { v with
    positiveControl :=
      if result = "pass" ∧ 0 < v.assertions test then v.positiveControl ∪ v.candidates
      else v.positiveControl
    candidates := ∅ }

/-! ## Runs -/

/-- What a run notes: an assertion is evaluated, or a step was executed. -/
inductive Act where
  | assertion
  | step (svc iface : String) (success : Bool)
deriving DecidableEq

/-- One run of a test, as a leaf, for a seed or for discovery, with the result that it ends with. A
test is a function, and has a name. -/
structure Run where
  name : String
  named : name ≠ ""
  acts : List Act
  result : String

def VacuityState.act (test : String) (v : VacuityState) : Act → VacuityState
  | .assertion => v.noteAssertion test
  | .step svc iface success => v.noteStep svc iface success

/-- `RunTestLeaf`: the `Assertions` of the result. -/
def runTestLeaf (v : VacuityState) (r : Run) : Nat × VacuityState :=
  let v := r.acts.foldl (VacuityState.act r.name) v
  (v.assertions r.name, v.endTest r.name r.result)

def after (rs : List Run) : VacuityState := runs.after runTestLeaf newVacuityState rs

/-- The assertions that the run evaluates. -/
def Run.assertions (r : Run) : Nat := r.acts.count .assertion

/-- The run passes, asserts, and has a successful step on the interface. -/
def Run.Controls (r : Run) (ref : IfaceRef) : Prop :=
  r.result = "pass" ∧ 0 < r.assertions ∧ .step ref.service ref.iface true ∈ r.acts

/-- Every run reports its own assertions, and the controls are those of the runs. -/
def BelongToRuns (rs : List Run) : Prop :=
  (∀ pre r post, rs = pre ++ r :: post → (runTestLeaf (after pre) r).1 = r.assertions) ∧
    ∀ ref : IfaceRef, ref.service ≠ "" →
      (ref ∈ (after rs).positiveControl ↔ ∃ r ∈ rs, r.Controls ref)

/-! ## What a run leaves -/

theorem foldl_act {name : String} (hn : name ≠ "") (acts : List Act) (v : VacuityState) :
    (acts.foldl (VacuityState.act name) v).assertions =
        Function.update v.assertions name (v.assertions name + acts.count .assertion) ∧
      (acts.foldl (VacuityState.act name) v).positiveControl = v.positiveControl ∧
      ∀ ref : IfaceRef, ref.service ≠ "" →
        (ref ∈ (acts.foldl (VacuityState.act name) v).candidates ↔
          ref ∈ v.candidates ∨ .step ref.service ref.iface true ∈ acts) := by
  induction acts generalizing v with
  | nil => simp
  | cons a acts ih =>
    obtain ⟨hcount, hpos, hcand⟩ := ih (v.act name a)
    rw [List.foldl_cons, hcount, hpos]
    cases a with
    | assertion =>
      refine ⟨?_, by simp [VacuityState.act, VacuityState.noteAssertion, hn], fun ref href => ?_⟩
      · simp [VacuityState.act, VacuityState.noteAssertion, hn, Nat.add_right_comm, Nat.add_assoc]
      · rw [hcand ref href]
        simp [VacuityState.act, VacuityState.noteAssertion, hn]
    | step svc iface success =>
      by_cases hsvc : svc = ""
      · refine ⟨by simp [VacuityState.act, VacuityState.noteStep, hsvc],
          by simp [VacuityState.act, VacuityState.noteStep, hsvc], fun ref href => ?_⟩
        rw [hcand ref href]
        simp [VacuityState.act, VacuityState.noteStep, hsvc, href]
      · refine ⟨by simp [VacuityState.act, VacuityState.noteStep, hsvc],
          by simp [VacuityState.act, VacuityState.noteStep, hsvc], fun ref href => ?_⟩
        rw [hcand ref href]
        cases success with
        | false => simp [VacuityState.act, VacuityState.noteStep, hsvc]
        | true =>
          obtain ⟨service, i⟩ := ref
          simp only [VacuityState.act, VacuityState.noteStep, hsvc, if_false, if_true,
            Finset.mem_insert, IfaceRef.mk.injEq, List.mem_cons, Act.step.injEq, and_true]
          tauto

theorem after_snoc (rs : List Run) (r : Run) :
    after (rs ++ [r]) = (runTestLeaf (after rs) r).2 := runs.after_append _ rs [r]

/-- The counter of a name adds up over its runs, and no candidate outlives its run. -/
theorem after_counts (rs : List Run) :
    (after rs).candidates = ∅ ∧ ∀ name,
      (after rs).assertions name = ((rs.filter (·.name = name)).map Run.assertions).sum := by
  induction rs using List.reverseRecOn with
  | nil => exact ⟨rfl, fun _ => rfl⟩
  | append_singleton rs r ih =>
    rw [after_snoc]
    refine ⟨rfl, fun name => ?_⟩
    simp only [runTestLeaf, VacuityState.endTest, (foldl_act r.named r.acts (after rs)).1]
    by_cases hname : r.name = name
    · simp [← hname, ih.2, Run.assertions]
    · simp [hname, Ne.symm hname, ih.2]

theorem count_run (rs : List Run) (r : Run) : (runTestLeaf (after rs) r).1 =
    ((rs.filter (·.name = r.name)).map Run.assertions).sum + r.assertions := by
  simp only [runTestLeaf, (foldl_act r.named r.acts (after rs)).1, Function.update_self,
    (after_counts rs).2]
  rfl

theorem mem_positiveControl (rs : List Run) (r : Run) {ref : IfaceRef} (h : ref.service ≠ "") :
    ref ∈ (after (rs ++ [r])).positiveControl ↔ ref ∈ (after rs).positiveControl ∨
      r.result = "pass" ∧ 0 < (runTestLeaf (after rs) r).1 ∧
        .step ref.service ref.iface true ∈ r.acts := by
  obtain ⟨-, hpos, hcand⟩ := foldl_act r.named r.acts (after rs)
  have hown := hcand ref h
  rw [(after_counts rs).1] at hown
  simp only [Finset.notMem_empty, false_or] at hown
  rw [after_snoc]
  simp only [runTestLeaf, VacuityState.endTest, hpos]
  split
  · rename_i hpass
    rw [Finset.mem_union, hown]
    simp [hpass]
  · rename_i hpass
    rw [iff_self_or]
    exact fun hr => absurd ⟨hr.1, hr.2.1⟩ hpass

/-! ## The law -/

/-- No asserting run of the same name comes before a run. -/
def Fresh (rs : List Run) : Prop :=
  ∀ pre r post, rs = pre ++ r :: post → ∀ q ∈ pre, q.name = r.name → q.assertions = 0

theorem counts_iff (rs : List Run) (r : Run) :
    (runTestLeaf (after rs) r).1 = r.assertions ↔
      ∀ q ∈ rs, q.name = r.name → q.assertions = 0 := by
  rw [count_run, Nat.add_eq_right, List.sum_eq_zero_iff, List.forall_mem_map]
  simp

/-- Assertions and controls belong to their runs exactly where no run follows an asserting run of
the same name. -/
theorem belongToRuns_iff (rs : List Run) : BelongToRuns rs ↔ Fresh rs := by
  constructor
  · intro h pre r post hrs
    exact (counts_iff pre r).mp (h.1 pre r post hrs)
  · intro h
    refine ⟨fun pre r post hrs => (counts_iff pre r).mpr (h pre r post hrs), fun ref href => ?_⟩
    induction rs using List.reverseRecOn with
    | nil => simp [after, runs.after, newVacuityState]
    | append_singleton rs r ih =>
      have hown := (counts_iff rs r).mpr (h rs r [] rfl)
      have hbefore : Fresh rs := fun pre q post hrs => h pre q (post ++ [r]) (by simp [hrs])
      rw [mem_positiveControl rs r href, hown, ih hbefore]
      simp [Run.Controls, or_and_right, exists_or]

/-- A leaf of a test that asserts, and a leaf of the same test that asserts nothing. -/
def assertingLeaf : Run := ⟨"test_api", by decide, [.assertion], "pass"⟩

def silentLeaf : Run := ⟨"test_api", by decide, [.step "api" "main" true], "pass"⟩

/-- The second leaf reports the assertion of the first one, and confirms a control. -/
theorem silent_leaf_is_confirmed :
    (runTestLeaf (after [assertingLeaf]) silentLeaf).1 = 1 ∧ silentLeaf.assertions = 0 ∧
      (⟨"api", "main"⟩ : IfaceRef) ∈ (after [assertingLeaf, silentLeaf]).positiveControl := by
  decide

end faultbox.vacuity
