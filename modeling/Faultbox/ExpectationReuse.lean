-- Runs of a test, one after the other on one runtime. The expectations of test()
-- are built once, at spec load, and every run registers the same objects again:
-- a run is on its own as long as no earlier run left a mark on them.
import Faultbox.RunHistory

open goval faultbox.event_log faultbox.temporal faultbox.test_result

namespace faultbox.temporal

variable {x y : ExpectationVal} {a : AlwaysExpectation}

/-! ## The marks that a call leaves -/

/-- An evaluation at this log leaves a mark: it reaches the anchor or, without
an anchor, it satisfies the expectation. -/
def EventuallyExpectation.marksAt (e : EventuallyExpectation) (log : EventLog) : Bool :=
  match e.anchor with
  | some m => log.holdsMatch m
  | none => e.predicate.holds log

/-- An evaluation at this log leaves a mark: it opens a window that had to wait
or, in a window that is open from the start, it closes or it fails. -/
def AlwaysExpectation.marksAt (a : AlwaysExpectation) (log : EventLog) : Bool :=
  if a.betweenStart.opensAtOnce then a.betweenEnd.closesAt log || !a.predicate.holds log
  else a.betweenStart.opensAt log

/-- A lifecycle signal leaves a mark: it opens a window that had to wait, or it
closes a window. -/
def AlwaysExpectation.marksOn (a : AlwaysExpectation) (anchor : LifecycleAnchor) : Bool :=
  (!a.betweenStart.opensAtOnce && a.betweenStart.isNamed anchor) || a.betweenEnd.isNamed anchor

/-- The call leaves a mark on the expectation. -/
def ExpectationVal.marks (x : ExpectationVal) (c : Call) : Bool :=
  match c, x with
  | .evaluate log, .eventually e | .finalize log _, .eventually e => e.marksAt log
  | .evaluate log, .always a | .finalize log _, .always a => a.marksAt log
  | .signal _, .eventually _ => false
  | .signal anchor, .always a => a.marksOn anchor

/-- Two expectations that no call tells apart: they are the same, or they differ
in the start of a window that opens at once. -/
inductive Alike : ExpectationVal → ExpectationVal → Prop where
  | refl (x : ExpectationVal) : Alike x x
  | started (a : AlwaysExpectation) (h : a.betweenStart.opensAtOnce = true) :
      Alike (.always a) (.always { a with windowStarted := true })

theorem Alike.trans {z : ExpectationVal} (h : Alike x y) (h' : Alike y z) : Alike x z := by
  cases h with
  | refl x => exact h'
  | started a ha =>
    cases h' with
    | refl x => exact .started a ha
    | started a' ha' => exact .started a ha

theorem opensAt_of_opensAtOnce {b : BetweenAnchor} (h : b.opensAtOnce = true) (log : EventLog) :
    b.opensAt log = true := by
  cases b with
  | unset => rfl
  | named x => cases x <;> simp_all [BetweenAnchor.opensAtOnce, BetweenAnchor.opensAt]
  | matcher m => cases h

theorem AlwaysExpectation.evaluate_started_eq (ha : a.betweenStart.opensAtOnce = true)
    (hv : a.violated = false) (log : EventLog) :
    ({ a with windowStarted := true } : AlwaysExpectation).evaluate log = a.evaluate log := by
  obtain ⟨p, A, B, v, msg, ws, we⟩ := a
  obtain rfl : v = false := hv
  have ho : A.opensAt log = true := opensAt_of_opensAtOnce ha log
  simp [AlwaysExpectation.evaluate, AlwaysExpectation.pollStart_eq, ho]

theorem AlwaysExpectation.finalize_started_eq (ha : a.betweenStart.opensAtOnce = true)
    (hv : a.violated = false) (log : EventLog) (cause : TerminationCause) :
    ({ a with windowStarted := true } : AlwaysExpectation).finalize log cause =
      a.finalize log cause := by
  unfold AlwaysExpectation.finalize
  rw [AlwaysExpectation.evaluate_started_eq ha hv]

theorem AlwaysExpectation.evaluate_of_violated (hv : a.violated = true) (log : EventLog) :
    a.evaluate log = (⟨.fail, a.violationMsg, none⟩, a) := by
  simp [AlwaysExpectation.evaluate, hv]

theorem AlwaysExpectation.finalize_of_violated (hv : a.violated = true) (log : EventLog)
    (cause : TerminationCause) : a.finalize log cause = ((.fail, a.violationMsg), a) := by
  simp [AlwaysExpectation.finalize, AlwaysExpectation.evaluate_of_violated hv]

theorem Alike.answer (h : Alike x y) (c : Call) :
    (x.answer c).1 = (y.answer c).1 ∧ Alike (x.answer c).2 (y.answer c).2 := by
  cases h with
  | refl x => exact ⟨rfl, .refl _⟩
  | started a ha =>
    cases c with
    | signal anchor =>
      refine ⟨rfl, ?_⟩
      have hs := a.signal_eq anchor
      have hs' := AlwaysExpectation.signal_eq { a with windowStarted := true } anchor
      simp only [ExpectationVal.answer, ExpectationVal.signal, hs, hs', Bool.true_or]
      exact .started _ ha
    | evaluate log =>
      simp only [ExpectationVal.answer, ExpectationVal.evaluate]
      rcases Bool.eq_false_or_eq_true a.violated with hv | hv
      · rw [AlwaysExpectation.evaluate_of_violated hv,
          AlwaysExpectation.evaluate_of_violated (a := { a with windowStarted := true }) hv]
        exact ⟨rfl, .started a ha⟩
      · rw [AlwaysExpectation.evaluate_started_eq ha hv]
        exact ⟨rfl, .refl _⟩
    | finalize log cause =>
      simp only [ExpectationVal.answer, ExpectationVal.finalize]
      rcases Bool.eq_false_or_eq_true a.violated with hv | hv
      · rw [AlwaysExpectation.finalize_of_violated hv,
          AlwaysExpectation.finalize_of_violated (a := { a with windowStarted := true }) hv]
        exact ⟨rfl, .started a ha⟩
      · rw [AlwaysExpectation.finalize_started_eq ha hv]
        exact ⟨rfl, .refl _⟩

theorem EventuallyExpectation.evaluate_of_unmarked {e : EventuallyExpectation} {log : EventLog}
    (he : newEventually e.predicate e.anchor = e) (hm : e.marksAt log = false) :
    (e.evaluate log).2 = e := by
  obtain ⟨p, anchor, s, reached⟩ := e
  cases he
  cases anchor with
  | none =>
    have hp : p.holds log = false := hm
    rcases EventuallyExpectation.evaluate_cases ⟨p, none, false, false⟩ log with
      ⟨_, h⟩ | ⟨_, _, h⟩ | ⟨_, _, _, h⟩ | ⟨_, hp', h⟩ | ⟨_, _, h⟩
    · rw [h]
    · rw [h, EventuallyExpectation.pollAnchor_eq]; rfl
    · rw [h, EventuallyExpectation.pollAnchor_eq]; rfl
    · rw [hp] at hp'; cases hp'
    · rw [h, EventuallyExpectation.pollAnchor_eq]; rfl
  | some m =>
    have hno : log.holdsMatch m = false := hm
    simp [EventuallyExpectation.evaluate, EventuallyExpectation.pollAnchor_eq,
      EventuallyExpectation.started, hno]

theorem alike_evaluate_of_unmarked {log : EventLog}
    (ha : newAlways a.predicate a.betweenStart a.betweenEnd = a) (hm : a.marksAt log = false) :
    Alike (.always a) (.always (a.evaluate log).2) := by
  obtain ⟨p, A, B, v, msg, ws, we⟩ := a
  cases ha
  unfold AlwaysExpectation.marksAt at hm
  cases ho : A.opensAtOnce with
  | true =>
    simp only [ho, if_true, Bool.or_eq_false_iff, Bool.not_eq_false'] at hm
    rcases AlwaysExpectation.evaluate_cases ⟨p, A, B, false, "", false, false⟩ log with
      ⟨hv, _⟩ | ⟨_, _, h⟩ | ⟨_, _, hend, _⟩ | ⟨_, hp, _⟩ | ⟨_, _, h⟩
    · cases hv
    · rw [h]
      exact .refl _
    · simp [hm.1] at hend
    · rw [hm.2] at hp
      cases hp
    · rw [h]
      exact .started _ ho
  | false =>
    simp only [ho, Bool.false_eq_true, if_false] at hm
    have he : AlwaysExpectation.evaluate ⟨p, A, B, false, "", false, false⟩ log =
        (⟨.pending, "", none⟩, ⟨p, A, B, false, "", false, false⟩) := by
      simp [AlwaysExpectation.evaluate, AlwaysExpectation.pollStart_eq, hm]
    rw [he]
    exact .refl _

theorem alike_signal_of_unmarked {anchor : LifecycleAnchor} (hm : a.marksOn anchor = false) :
    Alike (.always a) ((ExpectationVal.always a).signal anchor) := by
  simp only [AlwaysExpectation.marksOn, Bool.or_eq_false_iff, Bool.and_eq_false_iff,
    Bool.not_eq_false'] at hm
  simp only [ExpectationVal.signal, a.signal_eq, hm.2, Bool.or_false]
  cases hs : a.betweenStart.isNamed anchor with
  | false =>
    rw [Bool.or_false]
    exact .refl _
  | true =>
    rw [Bool.or_true]
    exact .started a (hm.1.resolve_right (by simp [hs]))

theorem alike_answer_of_unmarked {c : Call} (hx : x.fresh = x) (hc : x.marks c = false) :
    Alike x (x.answer c).2 := by
  cases hl : c.log with
  | none =>
    obtain ⟨anchor, rfl, hs⟩ := answer_snd_of_noLog (x := x) hl
    rw [hs]
    cases x with
    | eventually e => exact .refl _
    | always a => exact alike_signal_of_unmarked hc
  | some log =>
    rw [answer_snd_of_log hl]
    cases x with
    | eventually e =>
      have hm : e.marksAt log = false := by cases c <;> cases hl <;> exact hc
      have he : (e.evaluate log).2 = e := e.evaluate_of_unmarked (by injection hx) hm
      simp only [ExpectationVal.evaluate, he]
      exact .refl _
    | always a =>
      have hm : a.marksAt log = false := by cases c <;> cases hl <;> exact hc
      exact alike_evaluate_of_unmarked (by injection hx) hm

theorem Alike.after (h : Alike x y) (calls : List Call) :
    Alike (runs.after ExpectationVal.answer x calls) (runs.after ExpectationVal.answer y calls) :=
  runs.after_related (fun _ _ c hxy => (hxy.answer c).2) h calls

theorem alike_after_of_unmarked {calls : List Call} (hx : x.fresh = x)
    (hca : ∀ c ∈ calls, x.marks c = false) :
    Alike x (runs.after ExpectationVal.answer x calls) :=
  runs.after_preserves (Alike x)
    (fun _ c hc hy => (alike_answer_of_unmarked hx (hca c hc)).trans (hy.answer c).2) (.refl x)

end faultbox.temporal

namespace faultbox.test_run

variable {V : Type}

/-! ## Runs on one runtime -/

theorem playRuns_alike {rt : RunState V} {before : List (RunSpec V × List (Step V))}
    {states : List (RunState V)} {r : Nat} {x y : ExpectationVal} (hf : x.fresh = x)
    (hp : playRuns rt before = some states) (hy : rt.objects[r]? = some y) (ha : Alike x y)
    (hu : ∀ s ∈ states, ∀ o ∈ s.history, o.ref = r → x.marks o.call = false) :
    ∃ z, (states.getLastD rt).objects[r]? = some z ∧ Alike x z := by
  induction before generalizing rt y states with
  | nil =>
    cases hp
    exact ⟨y, hy, ha⟩
  | cons first rest ih =>
    obtain ⟨spec, steps⟩ := first
    obtain ⟨st, hrun, hr⟩ := Option.bind_eq_some_iff.mp hp
    obtain ⟨later, hl, rfl⟩ := Option.map_eq_some_iff.mp hr
    have ht := run_tracks hrun hy
    have hca : ∀ c ∈ callsOf r st.history, x.marks c = false := by
      intro c hc
      obtain ⟨o, ho, rfl⟩ := List.mem_map.mp hc
      obtain ⟨ho, href⟩ := List.mem_filter.mp ho
      exact hu st List.mem_cons_self o ho (beq_iff_eq.mp href)
    have hend : Alike x (runs.after ExpectationVal.answer y (callsOf r st.history)) :=
      (alike_after_of_unmarked hf hca).trans (ha.after _)
    rw [List.getLastD_cons]
    exact ih hl ht.object hend fun s hs => hu s (List.mem_cons_of_mem _ hs)

/-- The answers of an expectation in a run are those of a fresh one, whatever the
runs before it, unless one of them left a mark on it. -/
theorem a_run_after_unmarked_runs_answers_as_fresh {rt st : RunState V}
    {before : List (RunSpec V × List (Step V))} {states : List (RunState V)} {spec : RunSpec V}
    {steps : List (Step V)} {r : Nat} {x : ExpectationVal}
    (hload : rt.objects[r]? = some x) (hfresh : x.fresh = x)
    (hbefore : playRuns rt before = some states)
    (hunmarked : ∀ s ∈ states, ∀ o ∈ s.history, o.ref = r → x.marks o.call = false)
    (hrun : Reaches spec (states.getLastD rt) steps st) :
    (observed r st.history).map (fun o => o.2.2) =
      runs.answers ExpectationVal.answer x (callsOf r st.history) := by
  obtain ⟨z, hz, ha⟩ := playRuns_alike hfresh hbefore hload (.refl x) hunmarked
  rw [(run_tracks hrun hz).trace]
  exact (runs.answers_eq_of_simulation (fun _ _ c h => h.answer c) ha _).symm

/-- After a run that left no mark, the next run is on its own. -/
theorem the_run_after_an_idle_run_answers_as_fresh :
    ∃ states st,
      playRuns (loaded [eventuallyReady]) [(expectingTest, idleRun ++ toResult 0)] = some states ∧
      Reaches expectingTest (states.getLastD (loaded [eventuallyReady]))
        (readyRun ++ toResult 1) st ∧
      (observed 0 st.history).map (fun o => o.2.2) =
        runs.answers ExpectationVal.answer eventuallyReady (callsOf 0 st.history) := by
  obtain ⟨states, hb, hu, st, hrun⟩ :
      ∃ states, playRuns (loaded [eventuallyReady]) [(expectingTest, idleRun ++ toResult 0)] =
          some states ∧
        (∀ s ∈ states, ∀ o ∈ s.history, o.ref = 0 → eventuallyReady.marks o.call = false) ∧
        ∃ st, Reaches expectingTest (states.getLastD (loaded [eventuallyReady]))
          (readyRun ++ toResult 1) st := by
    refine ⟨_, rfl, by decide, ?_⟩
    exact ⟨_, rfl⟩
  exact ⟨states, st, hb, hrun,
    a_run_after_unmarked_runs_answers_as_fresh rfl rfl hb hu hrun⟩

/-- The service that was ready in one run counts as ready in the next one, where
it never gets ready: `Finalize` passes, and a fresh expectation would fail. -/
theorem a_satisfied_expectation_leaks_into_the_next_run :
    ¬ ∀ states st,
      playRuns (loaded [eventuallyReady]) [(expectingTest, readyRun ++ toResult 1)] = some states →
      Reaches expectingTest (states.getLastD (loaded [eventuallyReady]))
        (idleRun ++ toResult 1) st →
      (observed 0 st.history).map (fun o => o.2.2) =
        runs.answers ExpectationVal.answer eventuallyReady (callsOf 0 st.history) := by
  intro h
  have hl := h _ _ rfl rfl
  revert hl
  decide

end faultbox.test_run
