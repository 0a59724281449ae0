-- The verdict of a run (internal/star/runtime.go, docs/temporal.md "Final verdict
-- per cause"): when a violation or a failed body makes the result red, for every
-- order of the signals and every return of `runTestImpl`.
import Faultbox.RunHistory

open goval faultbox.event_log faultbox.temporal faultbox.test_result

namespace faultbox.test_run

variable {V : Type} {spec : RunSpec V} {rt st st' stEnd : RunState V}
variable {j : Judgement V} {res : TestResult V} {steps : List (Step V)}

/-! ## The returns of the cascade -/

/-- The body called `halt()` and the run counts as ended by itself. -/
def Judgement.halts (j : Judgement V) : Prop :=
  j.cause = .natural ∧ ∃ err, j.bo.err = some err ∧ err.halt ≠ none

/-- The body error is passed over. -/
def Judgement.skipsError (j : Judgement V) : Prop :=
  j.bo.err = none ∨ j.cause = .timeout ∨ j.cause = .terminateWhen

theorem bodyFailure_red (j : Judgement V) (err : BodyErr) :
    (spec.bodyFailure j err).result.red = true := by
  unfold RunSpec.bodyFailure
  dsimp only
  split_ifs <;> rfl

theorem bodyVerdict_eq_none_iff : spec.bodyVerdict j = none ↔ j.skipsError := by
  unfold RunSpec.bodyVerdict Judgement.skipsError
  cases j.bo.err with
  | none => simp
  | some err =>
    dsimp only
    split_ifs with hc
    · simp [hc]
    · split <;> simp [hc]

theorem bodyVerdict_red_iff (h : spec.bodyVerdict j = some res) :
    res.result.red = true ↔ ¬ j.halts := by
  unfold RunSpec.bodyVerdict at h
  unfold Judgement.halts
  cases herr : j.bo.err with
  | none => simp [herr] at h
  | some err =>
    simp only [herr] at h
    split_ifs at h with hc
    split at h
    · rename_i reason hh hca
      cases h
      simp [hca, hh, RunSpec.verdict, ResultKind.red]
    · rename_i hn
      cases h
      simp only [bodyFailure_red, true_iff]
      rintro ⟨hnat, e, he, hne⟩
      cases he
      obtain ⟨reason, hr⟩ := Option.ne_none_iff_exists'.mp hne
      exact hn reason hr hnat

theorem not_halts_of_skipsError (h : j.skipsError) : ¬ j.halts := by
  rintro ⟨hnat, err, herr, _⟩
  rcases h with hn | hc | hc
  · rw [hn] at herr
    cases herr
  · rw [hnat] at hc
    cases hc
  · rw [hnat] at hc
    cases hc

theorem checkVerdict_fails (h : spec.checkVerdict j = some res) : res.result = .fail := by
  unfold RunSpec.checkVerdict at h
  split at h
  · cases h
    rfl
  · obtain ⟨ev, _, rfl⟩ := Option.map_eq_some_iff.mp h
    rfl

theorem monitorErrors_of_checkVerdict_none (h : spec.checkVerdict j = none) :
    j.monitorErrors = [] := by
  cases he : j.monitorErrors with
  | nil => rfl
  | cons err rest => simp [RunSpec.checkVerdict, failureReason, he] at h

theorem finalVerdict_not_red (j : Judgement V) (anyPending : Bool) (t : Elapsed) :
    (spec.finalVerdict j anyPending t).result.red = false := by
  unfold RunSpec.finalVerdict
  split_ifs <;> rfl

/-! ## From the verdict to the result -/

theorem run_of_done {j : Option (Judgement V)} (hrun : runs.run (step spec) st steps = some stEnd)
    (h : st.phase = .done j res) : stEnd.phase = .done j res := by
  refine runs.run_preserves (fun s => s.phase = .done j res) ?_ hrun h
  intro s a t hs hph
  rcases step_cases hs with hq | ⟨m, _, hm⟩
  · exact hq.phase.trans hph
  · simp [advance, hph] at hm

theorem run_of_reporting (hrun : runs.run (step spec) st steps = some stEnd)
    (h : st.phase = .reporting res) {j : Option (Judgement V)} {resEnd : TestResult V}
    (hd : stEnd.phase = .done j resEnd) : resEnd.result = res.result := by
  have hinv : stEnd.phase = .reporting res ∨
      ∃ res', stEnd.phase = .done none res' ∧ res'.result = res.result := by
    refine runs.run_preserves (fun s => s.phase = .reporting res ∨
      ∃ res', s.phase = .done none res' ∧ res'.result = res.result) ?_ hrun (.inl h)
    rintro s a t hs (hph | ⟨res', hph, hres⟩)
    · rcases step_cases hs with hq | ⟨m, _, hm⟩
      · exact .inl (hq.phase.trans hph)
      · exact .inr (advance_of_reporting hm hph).2
    · rcases step_cases hs with hq | ⟨m, _, hm⟩
      · exact .inr ⟨res', hq.phase.trans hph, hres⟩
      · simp [advance, hph] at hm
  rcases hinv with hph | ⟨res', hph, hres⟩
  · rw [hph] at hd
    cases hd
  · rw [hph] at hd
    cases hd
    exact hres

theorem finals_of_undecided (hrun : Reaches spec rt steps st) (hu : st.phase.undecided = true) :
    finals st.history = [] := by
  refine runs.run_preserves (fun s => s.phase.undecided = true → finals s.history = []) ?_ hrun
    ?_ hu
  · intro s a t hs hinv ht
    rcases step_cases hs with hq | ⟨m, _, hm⟩
    · rw [hq.finals]
      exact hinv (by rw [← hq.phase]; exact ht)
    · cases hus : s.phase.undecided with
      | true =>
        have hnil := hinv hus
        cases advance_of_undecided hm hus with
        | onward plain _ _ => rw [plain.history]; exact hnil
        | early plain _ _ _ _ => rw [plain.history]; exact hnil
        | verdict cause bo checks _ _ judged =>
          subst judged
          cases hsup : checks.supervisorFailure with
          | none => rw [(judge_cases spec cause bo checks hsup).1.history]; exact hnil
          | some err => rw [(judge_of_supervisor spec cause bo checks hsup).1.history]; exact hnil
      | false =>
        rw [not_undecided_of_advance hm hus] at ht
        cases ht
  · intro _
    rw [startRun_history]
    rfl

/-! ## Violations -/

/-- A monitor recorded an error, or an evaluation of a registered `always` failed. -/
def Violation (st : RunState V) : Prop :=
  st.monitorErrors ≠ [] ∨
    ∃ o ∈ st.history, o.ref ∈ st.registered ∧ (∃ a, o.before = .always a) ∧
      ∃ reason err, o.answer = .evaluation ⟨.fail, reason, err⟩

/-- The run ends here by a halt: an assume= predicate rejects the leaf, or the
body called `halt()` and the run counts as ended by itself. -/
def Halts (spec : RunSpec V) (st : RunState V) : Prop :=
  AssumeRejects spec st ∨
    ∃ bo err, st.phase = .closing .natural bo ∧ bo.err = some err ∧ err.halt ≠ none

theorem violated_of_grows (g : Grows st st') {r : Nat} {x : ExpectationVal}
    (hx : st.objects[r]? = some x) (hv : x.violated = true) :
    ∃ x', st'.objects[r]? = some x' ∧ x'.violated = true := by
  have hlt := (List.getElem?_eq_some_iff.mp hx).1
  cases g.moves with
  | same ho hh => exact ⟨x, by rw [ho]; exact hx, hv⟩
  | register y hf ho hr hh => exact ⟨x, by rw [ho, List.getElem?_append_left hlt]; exact hx, hv⟩
  | call r' y c found reads ho hh =>
    by_cases hr : r' = r
    · subst hr
      cases hx.symm.trans found
      exact ⟨_, by rw [ho, List.getElem?_set_self hlt], by rw [answer_violated, hv, Bool.true_or]⟩
    · exact ⟨x, by rw [ho, List.getElem?_set_ne hr]; exact hx, hv⟩

/-- An evaluation that failed left its `always` violated. -/
theorem violated_of_failed_evaluation (h : Tracked rt st) {o : Observation} (ho : o ∈ st.history)
    {a : AlwaysExpectation} (hb : o.before = .always a) {reason : String} {err : Option String}
    (ha : o.answer = .evaluation ⟨.fail, reason, err⟩) :
    ∃ x, st.objects[o.ref]? = some x ∧ x.violated = true := by
  obtain ⟨x, ht⟩ := h.exists_tracks (h.recorded.refs o ho)
  refine ⟨_, ht.object, ?_⟩
  have hmem : (o.before, o.call, o.answer) ∈ observed o.ref st.history :=
    mem_observed.mpr ⟨o, ho, rfl, rfl⟩
  rw [ht.trace] at hmem
  refine runs.after_of_mem_trace (P := fun y : ExpectationVal => y.violated = true)
    (fun y c hy => by rw [answer_violated, hy, Bool.true_or]) hmem ?_
  have hans := ht.answered ho rfl
  rw [ha, hb] at hans
  dsimp only
  rw [hb]
  cases hc : o.call with
  | evaluate log =>
    rw [hc] at hans
    simp only [ExpectationVal.answer, ExpectationVal.evaluate, Answer.evaluation.injEq] at hans
    exact (a.evaluate_fail_iff log).mp (by rw [hans])
  | finalize log cause =>
    rw [hc] at hans
    cases hans
  | signal anchor =>
    rw [hc] at hans
    cases hans

/-- The loop has a violated `always` ahead of it, or the run failed. -/
def Doomed (st : RunState V) : Prop :=
  (∃ j rest anyPending r x, st.phase = .finalizing j rest anyPending ∧ r ∈ rest ∧
    st.objects[r]? = some x ∧ x.violated = true) ∨
  ∃ j res, st.phase = .done j res ∧ res.result = .fail

theorem final_fail_of_violated_val {x : ExpectationVal} (hv : x.violated = true) (log : EventLog)
    (cause : TerminationCause) : (x.finalize log cause).1.1 = .fail := by
  cases x with
  | eventually e => cases hv
  | always a =>
    rw [final_fail_of_violated, answer_violated, hv, Bool.true_or]

theorem doomed_of_step {s : Step V} (hs : step spec st s = some st') (h : Doomed st) :
    Doomed st' := by
  rcases h with ⟨j, rest, anyPending, r, x, hph, hmem, hx, hv⟩ | ⟨j, res, hph, hres⟩
  · obtain ⟨x', hx', hv'⟩ := violated_of_grows (step_grows hs) hx hv
    rcases step_cases hs with hq | ⟨m, _, hm⟩
    · exact .inl ⟨j, rest, anyPending, r, x', hq.phase.trans hph, hmem, hx', hv'⟩
    · cases advance_of_finalizing hm hph with
      | finished => cases hmem
      | missing r₀ rest absent plain phase =>
        rcases List.mem_cons.mp hmem with rfl | hmem
        · rw [absent] at hx
          cases hx
        · exact .inl ⟨j, rest, anyPending, r, x', phase, hmem, hx', hv'⟩
      | one r₀ rest y _ _ found _ _ _ phase =>
        rcases List.mem_cons.mp hmem with rfl | hmem
        -- The violated `always` itself: its verdict is fail.
        · cases hx.symm.trans found
          rw [final_fail_of_violated_val hv] at phase
          exact .inr ⟨_, phase⟩
        · split at phase
          · exact .inr ⟨_, phase⟩
          · exact .inl ⟨j, rest, true, r, x', phase, hmem, hx', hv'⟩
          · exact .inl ⟨j, rest, anyPending, r, x', phase, hmem, hx', hv'⟩
  · rcases step_cases hs with hq | ⟨m, _, hm⟩
    · exact .inr ⟨j, res, hq.phase.trans hph, hres⟩
    · simp [advance, hph] at hm

/-- A run that took its verdict with a violation fails, unless it halts there. -/
theorem a_violation_fails_every_run_that_does_not_halt {before after : List (Step V)} {s : Step V}
    {j : Option (Judgement V)} {res : TestResult V} (hbefore : Reaches spec rt before st)
    (hopen : st.phase.undecided = true) (hstep : step spec st s = some st')
    (hdecided : st'.phase.undecided = false)
    (hsup : ∀ checks, s = .main (.judge checks) → checks.supervisorFailure = none)
    (hafter : runs.run (step spec) st' after = some stEnd) (hdone : stEnd.phase = .done j res)
    (hviolation : Violation st) : res.result.red = true ↔ ¬ Halts spec st := by
  rcases step_cases hstep with hq | ⟨m, rfl, hm⟩
  · rw [hq.phase, hopen] at hdecided
    cases hdecided
  cases advance_of_undecided hm hopen with
  | onward plain undecided _ =>
    rw [undecided] at hdecided
    cases hdecided
  | early plain running res₀ phase kind =>
    have hres : res.result = res₀.result := run_of_reporting hafter phase hdone
    have hh : Halts spec st ↔ AssumeRejects spec st :=
      ⟨fun h => h.resolve_right fun ⟨bo, err, hph, _⟩ => running _ bo hph, .inl⟩
    rw [hres, hh]
    rcases kind with ⟨hred, hrej⟩ | ⟨hha, hrej⟩
    · simp [hred, hrej]
    · simp [hha, hrej, ResultKind.red]
  | verdict cause bo checks closing judge judged =>
    subst judge judged
    have hh : Halts spec st ↔ (st.judgement cause bo checks).halts := by
      constructor
      · rintro (⟨hph, _⟩ | ⟨bo', err, hph, herr, hne⟩)
        · rw [closing] at hph
          cases hph
        · rw [closing] at hph
          cases hph
          exact ⟨rfl, err, herr, hne⟩
      · rintro ⟨hnat, err, herr, hne⟩
        have hnat : cause = .natural := hnat
        subst hnat
        exact .inr ⟨bo, err, closing, herr, hne⟩
    rw [hh]
    obtain ⟨plain, ⟨res₀, hor, hph⟩ | ⟨hor, hph⟩⟩ :=
      judge_cases spec cause bo checks (hsup checks rfl)
    · rw [run_of_done hafter hph] at hdone
      cases hdone
      cases hb : spec.bodyVerdict (st.judgement cause bo checks) with
      | some res₁ =>
        rw [hb] at hor
        cases hor
        exact bodyVerdict_red_iff hb
      | none =>
        rw [hb, Option.none_or] at hor
        have hsk := bodyVerdict_eq_none_iff.mp hb
        rw [checkVerdict_fails hor]
        simp only [ResultKind.red, true_iff]
        exact not_halts_of_skipsError hsk
    -- Past the checks there is no monitor error, so an `always` was violated, and
    -- the loop over the expectations meets it.
    · obtain ⟨hb, hc⟩ := Option.or_eq_none_iff.mp hor
      have hd : Doomed (st.judge spec cause bo checks) := by
        rcases hviolation with herr | ⟨o, ho, hreg, ⟨a, ha⟩, reason, err, hans⟩
        · exact absurd (monitorErrors_of_checkVerdict_none hc) herr
        · obtain ⟨x, hx, hv⟩ := violated_of_failed_evaluation (reaches_tracked hbefore) ho ha hans
          exact .inl ⟨_, _, _, o.ref, x, hph, hreg, by rw [plain.objects]; exact hx, hv⟩
      have hend := runs.run_preserves Doomed (fun _ _ _ hs h => doomed_of_step hs h) hafter hd
      rcases hend with ⟨j', rest, p, r, x, hph', _⟩ | ⟨j', res', hph', hf⟩
      · rw [hph'] at hdone
        cases hdone
      · rw [hph'] at hdone
        cases hdone
        rw [hf]
        simp only [ResultKind.red, true_iff]
        exact not_halts_of_skipsError (bodyVerdict_eq_none_iff.mp hb)

/-- A monitor that no "error" event gets past. -/
def noErrors : MonitorDef Unit :=
  { name := "no_errors"
    on := some (matchType "error")
    stateInit := ()
    update := none
    check := some fun _ _ _ => .ok false }

/-- A plain test function in a spec with that monitor. -/
def monitoredTest : RunSpec Unit :=
  { name := "test_orders"
    callable := true
    mockStateError := none
    cfg := none
    specMonitors := [noErrors]
    isDiscovery := false
    choices := ∅ }

def errorThen (bo : BodyOutcome Unit) : List (Step Unit) :=
  toBody 0 ++ [.env (.emit "error" "db" ∅)] ++ List.replicate 4 (.env (.work 0)) ++
    [.env (.bodyExit bo), .main .selectBody, .main (.drain .default), .main .endBody,
      .main .ownWork]

/-- The violation of the monitor fails a run whose body returns. -/
theorem a_monitor_violation_fails_a_returning_body :
    ∃ st st' j res, Reaches monitoredTest (loaded []) (errorThen ⟨none, none, ""⟩) st ∧
      Violation st ∧ step monitoredTest st (.main (.judge nothingReported)) = some st' ∧
      st'.phase = .done j res ∧ (res.result.red = true ↔ ¬ Halts monitoredTest st) := by
  obtain ⟨st, hst, hv, ho, st', hst', hd, j, res, hdo⟩ :
      ∃ st, Reaches monitoredTest (loaded []) (errorThen ⟨none, none, ""⟩) st ∧ Violation st ∧
        st.phase.undecided = true ∧
        ∃ st', step monitoredTest st (.main (.judge nothingReported)) = some st' ∧
          st'.phase.undecided = false ∧ ∃ j res, st'.phase = .done j res := by
    refine ⟨_, rfl, .inl (by decide), by decide, ?_⟩
    refine ⟨_, rfl, by decide, ?_⟩
    exact ⟨_, _, rfl⟩
  refine ⟨st, st', j, res, hst, hv, hst', hdo, ?_⟩
  have hend : runs.run (step monitoredTest) st' [] = some st' := rfl
  refine a_violation_fails_every_run_that_does_not_halt hst ho hst' hd ?_ hend hdo
    hv
  rintro checks ⟨⟩
  rfl

/-- The same violation does not show when the body calls `halt()`: the result is "halted". -/
theorem a_halt_hides_a_monitor_violation :
    ∃ st st' j res,
      Reaches monitoredTest (loaded []) (errorThen ⟨none, some ⟨"halt", some "", false⟩, ""⟩) st ∧
      Violation st ∧ step monitoredTest st (.main (.judge nothingReported)) = some st' ∧
      st'.phase = .done j res ∧ res.result = .halted := by
  refine ⟨_, _, _, _, rfl, .inl ?_, rfl, rfl, rfl⟩
  decide

/-! ## Failed bodies -/

/-- The loop has failed no expectation so far, or the result is red exactly when
it failed one. -/
def LoopFails (st : RunState V) : Prop :=
  (∃ j rest anyPending, st.phase = .finalizing j rest anyPending ∧
    ∀ r, (r, Verdict.fail) ∉ finals st.history) ∨
  ∃ j res, st.phase = .done (some j) res ∧
    (res.result.red = true ↔ ∃ r, (r, Verdict.fail) ∈ finals st.history)

theorem loopFails_of_step {s : Step V} (hs : step spec st s = some st') (h : LoopFails st) :
    LoopFails st' := by
  rcases h with ⟨j, rest, anyPending, hph, hn⟩ | ⟨j, res, hph, hiff⟩
  · rcases step_cases hs with hq | ⟨m, _, hm⟩
    · exact .inl ⟨j, rest, anyPending, hq.phase.trans hph, by rw [hq.finals]; exact hn⟩
    · cases advance_of_finalizing hm hph with
      | finished t plain phase =>
        refine .inr ⟨j, _, phase, ?_⟩
        rw [finalVerdict_not_red, plain.history]
        simp [hn]
      | missing r rest absent plain phase =>
        exact .inl ⟨j, rest, anyPending, phase, by rw [plain.history]; exact hn⟩
      | one r rest x grows keeps found objects history registered phase =>
        have hf : finals st'.history =
            finals st.history ++ [(r, (x.finalize st.log j.cause).1.1)] := by
          rw [history, finals_append]
          rfl
        split at phase <;> rename_i hv
        · obtain ⟨res, hres, hfa⟩ := phase
          refine .inr ⟨j, res, hres, ?_⟩
          rw [hfa, hf, hv]
          simp only [ResultKind.red, true_iff]
          exact ⟨r, List.mem_append_right _ (List.mem_singleton.mpr rfl)⟩
        · refine .inl ⟨j, rest, true, phase, ?_⟩
          rw [hf, hv]
          simpa using hn
        · refine .inl ⟨j, rest, anyPending, phase, ?_⟩
          rw [hf, hv]
          simpa using hn
  · rcases step_cases hs with hq | ⟨m, _, hm⟩
    · exact .inr ⟨j, res, hq.phase.trans hph, by rw [hq.finals]; exact hiff⟩
    · simp [advance, hph] at hm

/-- A body error of its own fails the run exactly when the cause is neither a
timeout nor `terminate_when`, or something else fails the run as well. -/
theorem a_failed_body_fails_the_run_iff {before after : List (Step V)} {cause : TerminationCause}
    {bo : BodyOutcome V} {err : BodyErr} {checks : Checks} {j : Option (Judgement V)}
    {res : TestResult V} (hbefore : Reaches spec rt before st)
    (hbody : st.phase = .closing cause bo)
    (herr : bo.err = some err) (hown : err.halt = none ∧ err.cancelled = false)
    (hstep : step spec st (.main (.judge checks)) = some st')
    (hafter : runs.run (step spec) st' after = some stEnd) (hdone : stEnd.phase = .done j res) :
    res.result.red = true ↔ (cause ≠ .timeout ∧ cause ≠ .terminateWhen) ∨
      checks.supervisorFailure ≠ none ∨
      spec.checkVerdict (st.judgement cause bo checks) ≠ none ∨
      ∃ r, (r, Verdict.fail) ∈ finals stEnd.history := by
  have hj : st' = st.judge spec cause bo checks := by
    have hadv := advance_of_step hstep (by simp)
    simp only [advance, hbody, Option.some.injEq] at hadv
    exact hadv.symm
  subst hj
  have hn : ¬ (st.judgement cause bo checks).halts := by
    rintro ⟨_, e, he, hne⟩
    cases herr.symm.trans he
    exact hne hown.1
  cases hsup : checks.supervisorFailure with
  | some e =>
    rw [run_of_reporting hafter (judge_of_supervisor spec cause bo checks hsup).2 hdone]
    simp [RunSpec.early, ResultKind.red]
  | none =>
    have hsk : (st.judgement cause bo checks).skipsError ↔
        ¬ (cause ≠ .timeout ∧ cause ≠ .terminateWhen) := by
      simp only [Judgement.skipsError, RunState.judgement, herr, reduceCtorEq, false_or]
      tauto
    obtain ⟨plain, ⟨res₀, hor, hph⟩ | ⟨hor, hph⟩⟩ := judge_cases spec cause bo checks hsup
    · rw [run_of_done hafter hph] at hdone
      cases hdone
      cases hv : spec.bodyVerdict (st.judgement cause bo checks) with
      | some res₁ =>
        rw [hv] at hor
        cases hor
        have hca : cause ≠ .timeout ∧ cause ≠ .terminateWhen := by
          by_contra hc
          rw [bodyVerdict_eq_none_iff.mpr (hsk.mpr hc)] at hv
          cases hv
        simp [(bodyVerdict_red_iff hv).mpr hn, hca]
      | none =>
        rw [hv, Option.none_or] at hor
        simp [checkVerdict_fails hor, hor, ResultKind.red]
    · obtain ⟨hv, hch⟩ := Option.or_eq_none_iff.mp hor
      have hca := hsk.mp (bodyVerdict_eq_none_iff.mp hv)
      have hnil : finals (st.judge spec cause bo checks).history = [] := by
        rw [plain.history]
        exact finals_of_undecided hbefore (by rw [hbody]; rfl)
      have hl := runs.run_preserves LoopFails (fun _ _ _ hs h => loopFails_of_step hs h) hafter
        (.inl ⟨_, _, _, hph, by simp [hnil]⟩)
      rcases hl with ⟨j', rest, p, hph', _⟩ | ⟨j', res', hph', hiff⟩
      · rw [hph'] at hdone
        cases hdone
      · rw [hph'] at hdone
        cases hdone
        simp only [hiff, hca, hch, false_or, ne_eq, not_true_eq_false]

/-- A test that ends once the service is ready. -/
def terminatingTest : RunSpec Unit :=
  { name := "test_boot"
    callable := true
    mockStateError := none
    cfg := some ⟨false, none, some 0, []⟩
    specMonitors := []
    isDiscovery := false
    choices := ∅ }

def failedAssertion : BodyOutcome Unit := ⟨none, some ⟨"assert_eq failed", none, false⟩, ""⟩

def failAlone : List (Step Unit) :=
  toBody 0 ++ [.env (.bodyExit failedAssertion), .main .selectBody, .main (.drain .default),
    .main .endBody, .main .ownWork]

/-- The assertion fails, then the service gets ready, then the test goroutine
looks; up to the verdict. -/
def failThenReady : List (Step Unit) :=
  toBody 0 ++ [.env (.bodyExit failedAssertion), .env (.emit "ready" "db" ∅)] ++
    List.replicate 4 (.env (.work 0)) ++
    [.main .selectBody, .main (.drain .terminateWhen), .main .endBody, .main .ownWork]

/-- An assertion that fails alone fails the run. -/
theorem a_failed_assertion_fails_the_run :
    ∃ st st' j res, Reaches terminatingTest (loaded [eventuallyReady]) failAlone st ∧
      st.phase = .closing .immediateFail failedAssertion ∧
      step terminatingTest st (.main (.judge nothingReported)) = some st' ∧
      st'.phase = .done j res ∧ res.result.red = true := by
  obtain ⟨st, hst, hph, st', hst', j, res, hd⟩ :
      ∃ st, Reaches terminatingTest (loaded [eventuallyReady]) failAlone st ∧
        st.phase = .closing .immediateFail failedAssertion ∧
        ∃ st', step terminatingTest st (.main (.judge nothingReported)) = some st' ∧
          ∃ j res, st'.phase = .done j res := by
    refine ⟨_, rfl, rfl, ?_⟩
    refine ⟨_, rfl, ?_⟩
    exact ⟨_, _, rfl⟩
  have hend : runs.run (step terminatingTest) st' [] = some st' := rfl
  have hiff := a_failed_body_fails_the_run_iff hst hph rfl ⟨rfl, rfl⟩ hst' hend hd
  exact ⟨st, st', j, res, hst, hph, hst', hd, hiff.mpr (.inl (by decide))⟩

/-- The same assertion does not show once `terminate_when` fired: the result is "pass". -/
theorem terminate_when_hides_a_failed_assertion :
    ∃ st stEnd j res, Reaches terminatingTest (loaded [eventuallyReady]) failThenReady st ∧
      st.phase = .closing .terminateWhen failedAssertion ∧
      runs.run (step terminatingTest) st (.main (.judge nothingReported) :: toResult 0) =
        some stEnd ∧
      stEnd.phase = .done j res ∧ res.result = .pass := by
  refine ⟨_, _, _, _, rfl, rfl, rfl, rfl, rfl⟩

end faultbox.test_run
