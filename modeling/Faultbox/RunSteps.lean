-- What one step of a run can do: the log, the registrations and the monitor
-- errors only grow, an expectation changes by one call at a time, and only the
-- test goroutine moves the phase.
import Faultbox.ExpectationCalls
import Faultbox.TestRun

open goval faultbox.event_log faultbox.temporal faultbox.test_result

namespace faultbox.test_run

variable {V : Type} {st st' : RunState V}
variable {spec : RunSpec V} {m : MainStep}

/-! ## The moves on the expectations -/

/-- The call looks at this log, if it looks at one. -/
def ReadsLog (log : EventLog) (c : Call) : Prop := ∀ l, c.log = some l → l = log

theorem readsLog_evaluate (log : EventLog) : ReadsLog log (.evaluate log) := by
  rintro l ⟨⟩
  rfl

theorem readsLog_finalize (log : EventLog) (cause : TerminationCause) :
    ReadsLog log (.finalize log cause) := by
  rintro l ⟨⟩
  rfl

theorem readsLog_signal (log : EventLog) (anchor : LifecycleAnchor) :
    ReadsLog log (.signal anchor) := by
  rintro l ⟨⟩

/-- The store and the history move by nothing, by one call or by one new object. -/
inductive Moves (st st' : RunState V) : Prop where
  | same (objects : st'.objects = st.objects) (history : st'.history = st.history)
  | call (r : Nat) (x : ExpectationVal) (c : Call) (found : st.objects[r]? = some x)
      (reads : ReadsLog st.log c) (objects : st'.objects = st.objects.set r (x.answer c).2)
      (history : st'.history = st.history ++ [⟨r, x, c, (x.answer c).1⟩])
  | register (x : ExpectationVal) (isFresh : x.fresh = x)
      (objects : st'.objects = st.objects ++ [x])
      (registered : st'.registered = st.registered ++ [st.objects.length])
      (history : st'.history = st.history)

/-- What every step keeps. -/
structure Grows (st st' : RunState V) : Prop where
  run : st'.run = st.run
  log : st.log.events <+: st'.log.events
  monitorErrors : st.monitorErrors <+: st'.monitorErrors
  registered : st.registered <+: st'.registered
  moves : Moves st st'

/-- The verdicts that `Finalize` gave, each with the expectation it was given to. -/
def finals (history : List Observation) : List (Nat × Verdict) :=
  history.filterMap fun o =>
    match o.answer with
    | .final v _ => some (o.ref, v)
    | _ => none

@[simp] theorem finals_append (h h' : List Observation) :
    finals (h ++ h') = finals h ++ finals h' := List.filterMap_append ..

/-- A step that leaves the phase alone and finalizes nothing. -/
structure Quiet (st st' : RunState V) : Prop extends Grows st st' where
  phase : st'.phase = st.phase
  finals : finals st'.history = finals st.history
  built : ∀ r ∈ st'.registered, r ∈ st.registered ∨
    (r = st.objects.length ∧ r < st'.objects.length)

/-- The parts of the state that `Quiet` looks at decide it. -/
theorem Quiet.congr {st₁ st₂ : RunState V} (h : Quiet st st₁) (hrun : st₂.run = st₁.run)
    (hlog : st₂.log = st₁.log) (herr : st₂.monitorErrors = st₁.monitorErrors)
    (hreg : st₂.registered = st₁.registered) (hobj : st₂.objects = st₁.objects)
    (hhi : st₂.history = st₁.history) (hp : st₂.phase = st₁.phase) : Quiet st st₂ := by
  refine ⟨⟨hrun.trans h.run, hlog ▸ h.log, herr ▸ h.monitorErrors, hreg ▸ h.registered, ?_⟩,
    hp.trans h.phase, hhi ▸ h.finals, by rw [hreg, hobj]; exact h.built⟩
  cases h.moves with
  | same ho hh => exact .same (hobj.trans ho) (hhi.trans hh)
  | call r x c hx hc ho hh => exact .call r x c hx hc (hobj.trans ho) (hhi.trans hh)
  | register x hf ho hr hh =>
    exact .register x hf (hobj.trans ho) (hreg.trans hr) (hhi.trans hh)

theorem Quiet.of_logs (hrun : st'.run = st.run) (hlog : st.log.events <+: st'.log.events)
    (herr : st.monitorErrors <+: st'.monitorErrors) (hreg : st'.registered = st.registered)
    (hobj : st'.objects = st.objects) (hh : st'.history = st.history)
    (hp : st'.phase = st.phase) : Quiet st st' := by
  refine ⟨⟨hrun, hlog, herr, hreg ▸ List.prefix_rfl, .same hobj hh⟩, hp, by rw [hh], ?_⟩
  intro r hr
  exact .inl (hreg ▸ hr)

theorem Quiet.refl : Quiet st st :=
  .of_logs rfl List.prefix_rfl List.prefix_rfl rfl rfl rfl rfl

/-! ## The steps of the other goroutines -/

theorem callObject_of_none {r : Nat} {c : Call} (h : st.objects[r]? = none) :
    st.callObject r c = (none, st) := by
  simp [RunState.callObject, h]

theorem callObject_of_some {r : Nat} {c : Call} {x : ExpectationVal} (h : st.objects[r]? = some x) :
    st.callObject r c = (some (x.answer c).1,
      { st with
        objects := st.objects.set r (x.answer c).2
        history := st.history ++ [⟨r, x, c, (x.answer c).1⟩] }) := by
  simp [RunState.callObject, h]

theorem callObject_grows (r : Nat) (c : Call) (hc : ReadsLog st.log c) :
    Grows st (st.callObject r c).2 := by
  cases hx : st.objects[r]? with
  | none =>
    rw [callObject_of_none hx]
    exact Quiet.refl.toGrows
  | some x =>
    rw [callObject_of_some hx]
    exact ⟨rfl, List.prefix_rfl, List.prefix_rfl, List.prefix_rfl, .call r x c hx hc rfl rfl⟩

/-- A call other than `Finalize` is quiet. -/
theorem callObject_quiet (r : Nat) (c : Call) (hc : ReadsLog st.log c)
    (hfin : ∀ log cause, c ≠ .finalize log cause) : Quiet st (st.callObject r c).2 := by
  have hg := callObject_grows r c hc
  cases hx : st.objects[r]? with
  | none =>
    rw [callObject_of_none hx]
    exact Quiet.refl
  | some x =>
    rw [callObject_of_some hx] at hg ⊢
    refine ⟨hg, rfl, ?_, fun _ h => .inl h⟩
    cases c with
    | evaluate log => simp [finals, ExpectationVal.answer]
    | finalize log cause => exact absurd rfl (hfin log cause)
    | signal anchor => simp [finals, ExpectationVal.answer]

theorem runMonitor_quiet (id : Nat) (ev : Event) : Quiet st (st.runMonitor id ev) := by
  unfold RunState.runMonitor
  split
  · exact Quiet.refl
  · split_ifs
    · exact Quiet.refl
    · split
      · exact .of_logs rfl List.prefix_rfl (List.prefix_append _ _) rfl rfl rfl rfl
      · exact .of_logs rfl List.prefix_rfl List.prefix_rfl rfl rfl rfl rfl

theorem Quiet.fireAlways (h : Quiet st st') (run : Nat) : Quiet st (st'.fireAlways run) := by
  unfold RunState.fireAlways
  split_ifs
  · exact h.congr rfl rfl rfl rfl rfl rfl rfl
  · exact h

theorem Quiet.fireTerminateWhen (h : Quiet st st') (run : Nat) :
    Quiet st (st'.fireTerminateWhen run) := by
  unfold RunState.fireTerminateWhen
  split_ifs
  · exact h.congr rfl rfl rfl rfl rfl rfl rfl
  · exact h

/-- Every piece of a job is quiet. -/
theorem perform_quiet (job : Job) : Quiet st (st.perform job).2 := by
  have he : ∀ r, Quiet st (st.callObject r (.evaluate st.log)).2 := fun r =>
    callObject_quiet r _ (readsLog_evaluate _) (by simp)
  cases job with
  | dispatch ev => exact Quiet.refl
  | callback sub ev =>
    cases sub with
    | monitor id => exact runMonitor_quiet id ev
    | alwaysWatch run => exact Quiet.refl
    | terminateWhen run ref =>
      have h := he ref
      simp only [RunState.perform]
      split
      · rename_i heq
        rw [heq] at h
        exact h.fireTerminateWhen run
      · rename_i heq
        rw [heq] at h
        exact h
  | evalAlways run refs =>
    cases refs with
    | nil => exact Quiet.refl
    | cons r rs =>
      have h := he r
      simp only [RunState.perform]
      split_ifs
      · split
        · rename_i heq
          rw [heq] at h
          exact h.fireAlways run
        · rename_i heq
          rw [heq] at h
          exact h
      · exact Quiet.refl
  | signal anchor refs =>
    cases refs with
    | nil => exact Quiet.refl
    | cons r rs =>
      simp only [RunState.perform]
      split_ifs
      · exact callObject_quiet r _ (readsLog_signal _ _) (by simp)
      · exact Quiet.refl

/-- The other goroutines leave the phase to the test goroutine. -/
theorem envStep_quiet {e : EnvStep V} (h : envStep st e = some st') : Quiet st st' := by
  have hreg : ∀ x : ExpectationVal, x.fresh = x → Quiet st (st.register x) := by
    intro x hx
    refine ⟨⟨rfl, List.prefix_rfl, List.prefix_rfl, List.prefix_append _ _,
      .register x hx rfl rfl rfl⟩, rfl, rfl, fun r hr => ?_⟩
    rcases List.mem_append.mp hr with hold | hnew
    · exact .inl hold
    · obtain rfl := List.mem_singleton.mp hnew
      exact .inr ⟨rfl, by simp [RunState.register]⟩
  cases e with
  | emit | recordOnly =>
    cases h
    exact .of_logs rfl (List.prefix_append _ _) List.prefix_rfl rfl rfl rfl rfl
  | mergeClock localName remote =>
    cases h
    exact .of_logs rfl (by simp) List.prefix_rfl rfl rfl rfl rfl
  | work i =>
    simp only [envStep] at h
    split at h
    · cases h
      exact (perform_quiet _).congr rfl rfl rfl rfl rfl rfl rfl
    · cases h
  | eventually predicate anchor =>
    cases h
    exact hreg _ rfl
  | always predicate betweenStart betweenEnd =>
    cases h
    exact hreg _ rfl
  | bodyExit bo =>
    simp only [envStep] at h
    split at h
    · split_ifs at h
      cases h
      exact Quiet.refl.congr rfl rfl rfl rfl rfl rfl rfl
    · cases h
  | registerMonitor | unregisterMonitor | stable | cancel | cleanupFails =>
    cases h
    exact Quiet.refl.congr rfl rfl rfl rfl rfl rfl rfl

/-! ## The steps of the test goroutine -/

def Phase.undecided : Phase V → Bool
  | .idle | .finalizing _ _ _ | .reporting _ | .done _ _ => false
  | _ => true

theorem registerSpecMonitors_same (ms : List (MonitorDef V)) (st : RunState V) :
    ∃ monitors, ∃ new : List Nat, ∃ ids, st.registerSpecMonitors ms =
      { st with
        monitors := monitors
        subscribers := st.subscribers ++ new.map .monitor
        specMonitorIDs := ids } := by
  induction ms generalizing st with
  | nil => exact ⟨_, [], _, by simp [RunState.registerSpecMonitors]; rfl⟩
  | cons m ms ih =>
    obtain ⟨monitors, new, ids, h⟩ := ih { st.registerMonitor m with
      specMonitorIDs := st.specMonitorIDs ++ [st.monitors.length] }
    refine ⟨monitors, st.monitors.length :: new, ids, ?_⟩
    rw [RunState.registerSpecMonitors, h]
    simp [RunState.registerMonitor]

def Job.unwatched : Job → Bool
  | .dispatch _ | .signal _ _ => true
  | .callback _ _ | .evalAlways _ _ => false

/-- What a step of the test goroutine keeps of the signals of the other goroutines. -/
structure Keeps (st st' : RunState V) : Prop where
  inflight : st'.inflight = st.inflight
  alwaysFired : st'.alwaysFired = st.alwaysFired
  watchers : ∀ run, .alwaysWatch run ∈ st'.subscribers →
    .alwaysWatch run ∈ st.subscribers ∨ run = st.run
  own : ∀ job ∈ st'.own, job ∈ st.own ∨ job.unwatched = true

theorem Keeps.of_same (hi : st'.inflight = st.inflight)
    (hf : st'.alwaysFired = st.alwaysFired) (hsub : st'.subscribers = st.subscribers)
    (hown : st'.own = st.own) : Keeps st st' :=
  ⟨hi, hf, fun _ h => .inl (hsub ▸ h), fun _ h => .inl (hown ▸ h)⟩

theorem Keeps.of_own {job : Job} (hi : st'.inflight = st.inflight)
    (hf : st'.alwaysFired = st.alwaysFired) (hsub : st'.subscribers = st.subscribers)
    (hown : st'.own = st.own ++ [job]) (hjob : job.unwatched = true) : Keeps st st' := by
  refine ⟨hi, hf, fun _ h => .inl (hsub ▸ h), fun job' h => ?_⟩
  rw [hown, List.mem_append, List.mem_singleton] at h
  rcases h with h | rfl
  · exact .inl h
  · exact .inr hjob

/-- What a step of the test goroutine keeps when it calls no expectation. -/
structure Plain (spec : RunSpec V) (st st' : RunState V) : Prop where
  run : st'.run = st.run
  log : st.log.events <+: st'.log.events
  monitorErrors : st'.monitorErrors = st.monitorErrors
  objects : st'.objects = st.objects
  history : st'.history = st.history
  registered : st'.registered = st.registered ∨
    st'.registered = st.registered ++ (spec.cfg.bind (·.expect)).toList
  keeps : Keeps st st'

theorem Plain.grows (h : Plain spec st st') : Grows st st' := by
  refine ⟨h.run, h.log, h.monitorErrors ▸ List.prefix_rfl, ?_, .same h.objects h.history⟩
  rcases h.registered with hr | hr
  · exact hr ▸ List.prefix_rfl
  · exact hr ▸ List.prefix_append _ _

theorem plain_of_phase (spec : RunSpec V) (phase : Phase V) (body : BodyState V) :
    Plain spec st { st with phase := phase, body := body } :=
  ⟨rfl, List.prefix_rfl, rfl, rfl, rfl, .inl rfl, .of_same rfl rfl rfl rfl⟩

theorem prepare_plain (spec : RunSpec V) :
    Plain spec st (st.prepare spec) ∧ (st.prepare spec).phase = .setup := by
  obtain ⟨monitors, new, ids, h⟩ := registerSpecMonitors_same spec.specMonitors st
  unfold RunState.prepare
  rw [h]
  refine ⟨⟨rfl, List.prefix_rfl, rfl, rfl, rfl, .inr rfl, rfl, rfl, fun run hrun => ?_,
    fun _ h => .inl h⟩,
    rfl⟩
  exact .inl (by simpa using hrun)

def Phase.immediate : Phase V → Bool
  | .waitBody .immediateFail | .exited .immediateFail _ => true
  | .closing .immediateFail bo => bo.err.isNone
  | _ => false

/-- An assume= predicate rejects the leaf here. -/
def AssumeRejects (spec : RunSpec V) (st : RunState V) : Prop :=
  st.phase = .assuming ∧ ∃ msg, spec.assumeOutcome = .rejected msg

/-- Where a step from an undecided phase leads: to another such phase, to an
early result, or to the verdict. -/
inductive Leads (spec : RunSpec V) (st : RunState V) (m : MainStep) (st' : RunState V) : Prop where
  | onward (plain : Plain spec st st') (undecided : st'.phase.undecided = true)
      (immediate : st'.phase.immediate = true →
        st.phase.immediate = true ∨ st.alwaysFired = true)
  | early (plain : Plain spec st st') (running : ∀ cause bo, st.phase ≠ .closing cause bo)
      (res : TestResult V) (phase : st'.phase = .reporting res)
      (kind : (res.result.red = true ∧ ¬ AssumeRejects spec st) ∨
        (res.result = .halted ∧ AssumeRejects spec st))
  | verdict (cause : TerminationCause) (bo : BodyOutcome V) (checks : Checks)
      (closing : st.phase = .closing cause bo) (judge : m = .judge checks)
      (judged : st' = st.judge spec cause bo checks)

theorem drained_immediate {otherwise : TerminationCause} {arm : DrainArm}
    (hne : otherwise ≠ .immediateFail) (h : st.drained otherwise arm = some .immediateFail) :
    st.alwaysFired = true := by
  cases arm with
  | always =>
    simp only [RunState.drained] at h
    split_ifs at h with hf
    exact hf
  | terminateWhen =>
    simp only [RunState.drained] at h
    split_ifs at h
    cases h
  | default =>
    simp only [RunState.drained] at h
    split_ifs at h
    cases h
    exact absurd rfl hne

theorem immediate_of_promote {cause : TerminationCause} {bo : BodyOutcome V}
    (h : (Phase.closing (promote cause bo) bo).immediate = true) :
    (Phase.exited cause bo).immediate = true := by
  cases herr : bo.err with
  | none =>
    have hp : promote cause bo = cause := by simp [promote, herr]
    rw [hp] at h
    cases cause <;> simp_all [Phase.immediate]
  | some err =>
    cases hp : promote cause bo <;> simp [hp, Phase.immediate, herr] at h

theorem advance_of_undecided (h : advance spec st m = some st') (hu : st.phase.undecided = true) :
    Leads spec st m st' := by
  have notRejected : st.phase ≠ .assuming → ¬ AssumeRejects spec st := fun hne hr => hne hr.1
  cases hph : st.phase with
  | idle => simp [hph, Phase.undecided] at hu
  | starting =>
    simp only [advance, hph] at h
    split at h <;> cases h
    · exact .onward (prepare_plain spec).1 (by rw [(prepare_plain spec).2]; rfl)
        (by rw [(prepare_plain spec).2]; simp [Phase.immediate])
    · exact .early ⟨rfl, List.prefix_append _ _, rfl, rfl, rfl, .inl rfl,
        .of_own rfl rfl rfl rfl rfl⟩
        (by simp [hph]) _ rfl (.inl ⟨rfl, notRejected (by simp [hph])⟩)
  | setup =>
    simp only [advance, hph] at h
    split at h
    · cases h
      exact .onward (plain_of_phase spec _ _) rfl (by simp [Phase.immediate])
    · split_ifs at h
      cases h
      exact .early (plain_of_phase spec _ _) (by simp [hph]) _ rfl
        (.inl ⟨rfl, notRejected (by simp [hph])⟩)
    · cases h
  | assuming =>
    simp only [advance, hph] at h
    split at h
    · split at h <;> rename_i hout <;> cases h
      · exact .onward (plain_of_phase spec _ _) rfl (by simp [Phase.immediate])
      · exact .early (plain_of_phase spec _ _) (by simp [hph]) _ rfl (.inr ⟨rfl, hph, _, hout⟩)
      · refine .early (plain_of_phase spec _ _) (by simp [hph]) _ rfl (.inl ⟨rfl, ?_⟩)
        rintro ⟨_, msg, hmsg⟩
        rw [hout] at hmsg
        cases hmsg
    · cases h
  | watchAlways =>
    simp only [advance, hph] at h
    split at h <;> cases h
    refine .onward ⟨rfl, List.prefix_rfl, rfl, rfl, rfl, .inl rfl, rfl, rfl, fun run hrun => ?_,
      fun _ h => .inl h⟩ rfl (by simp [Phase.immediate])
    simpa using hrun
  | watchTerminateWhen =>
    simp only [advance, hph] at h
    split at h <;> cases h
    refine .onward ⟨rfl, List.prefix_rfl, rfl, rfl, rfl, .inl rfl, rfl, rfl, fun run hrun => ?_,
      fun _ h => .inl h⟩ rfl (by simp [Phase.immediate])
    exact .inl (by simpa using hrun)
  | entering =>
    simp only [advance, hph] at h
    split at h <;> cases h
    exact .onward ⟨rfl, List.prefix_rfl, rfl, rfl, rfl, .inl rfl, .of_own rfl rfl rfl rfl rfl⟩ rfl
      (by simp [Phase.immediate])
  | spawning =>
    simp only [advance, hph] at h
    split at h <;> cases h
    exact .onward (plain_of_phase spec _ _) rfl (by simp [Phase.immediate])
  | selecting =>
    simp only [advance, hph] at h
    split at h
    · cases h
      exact .onward (plain_of_phase spec _ _) rfl (by simp [Phase.immediate])
    · split_ifs at h with hf
      cases h
      exact .onward (plain_of_phase spec _ _) rfl fun _ => .inr hf
    iterate 2
      · split_ifs at h
        cases h
        exact .onward (plain_of_phase spec _ _) rfl (by simp [Phase.immediate])
    · cases h
  | draining bo =>
    cases bo with
    | none | some =>
      simp only [advance, hph] at h
      split at h
      · obtain ⟨cause, hc, rfl⟩ := Option.map_eq_some_iff.mp h
        refine .onward (plain_of_phase spec _ _) rfl fun himm => .inr ?_
        cases cause <;> simp only [Phase.immediate, Bool.false_eq_true] at himm
        exact drained_immediate (by simp) hc
      · cases h
  | waitBody cause =>
    simp only [advance, hph] at h
    split at h <;> cases h
    all_goals
      refine .onward (plain_of_phase spec _ _) rfl fun himm => .inl ?_
      cases cause <;> simp_all [Phase.immediate]
  | exited cause bo =>
    simp only [advance, hph] at h
    split at h <;> cases h
    refine .onward ⟨rfl, List.prefix_rfl, rfl, rfl, rfl, .inl rfl, .of_own rfl rfl rfl rfl rfl⟩ rfl
      fun himm => .inl ?_
    rw [hph]
    exact immediate_of_promote himm
  | closing cause bo =>
    simp only [advance, hph] at h
    split at h <;> cases h
    exact .verdict cause bo _ hph rfl rfl
  | finalizing j rest anyPending => simp [hph, Phase.undecided] at hu
  | reporting res => simp [hph, Phase.undecided] at hu
  | done j res => simp [hph, Phase.undecided] at hu

theorem Keeps.finish (h : Keeps st st') (j : Option (Judgement V)) (res : TestResult V) :
    Keeps st (st'.finish j res) :=
  ⟨h.inflight, h.alwaysFired, fun run hrun => h.watchers run (List.mem_of_mem_filter hrun), h.own⟩

theorem finish_plain (spec : RunSpec V) (j : Option (Judgement V)) (res : TestResult V) :
    Plain spec st (st.finish j res) :=
  ⟨rfl, List.prefix_rfl, rfl, rfl, rfl, .inl rfl, (Keeps.of_same rfl rfl rfl rfl).finish j res⟩

theorem advance_of_reporting {res : TestResult V} (h : advance spec st m = some st')
    (hph : st.phase = .reporting res) :
    Plain spec st st' ∧ ∃ res', st'.phase = .done none res' ∧ res'.result = res.result := by
  simp only [advance, hph] at h
  split at h <;> cases h
  exact ⟨finish_plain spec _ _, _, rfl, rfl⟩

theorem judge_cases (spec : RunSpec V) (cause : TerminationCause) (bo : BodyOutcome V)
    (checks : Checks) (hsup : checks.supervisorFailure = none) :
    Plain spec st (st.judge spec cause bo checks) ∧
    ((∃ res, (spec.bodyVerdict (st.judgement cause bo checks)).or
        (spec.checkVerdict (st.judgement cause bo checks)) = some res ∧
        (st.judge spec cause bo checks).phase = .done (some (st.judgement cause bo checks)) res) ∨
      ((spec.bodyVerdict (st.judgement cause bo checks)).or
        (spec.checkVerdict (st.judgement cause bo checks)) = none ∧
        (st.judge spec cause bo checks).phase =
          .finalizing (st.judgement cause bo checks) st.registered false)) := by
  unfold RunState.judge
  simp only [hsup]
  split
  · rename_i res hres
    exact ⟨finish_plain spec _ _, .inl ⟨res, hres, rfl⟩⟩
  · rename_i hn
    exact ⟨plain_of_phase spec _ _, .inr ⟨hn, rfl⟩⟩

theorem judge_of_supervisor (spec : RunSpec V) (cause : TerminationCause) (bo : BodyOutcome V)
    (checks : Checks) {err : String} (hsup : checks.supervisorFailure = some err) :
    Plain spec st (st.judge spec cause bo checks) ∧
      (st.judge spec cause bo checks).phase = .reporting (spec.early .error err) := by
  unfold RunState.judge
  simp only [hsup]
  exact ⟨⟨rfl, List.prefix_append _ _, rfl, rfl, rfl, .inl rfl,
    .of_own rfl rfl rfl rfl rfl⟩, trivial⟩

/-- A step of the `Finalize` loop: the loop is over, the object is missing, or
one `Finalize` gives its verdict. -/
inductive Finalizes (spec : RunSpec V) (j : Judgement V) (anyPending : Bool) (st st' : RunState V) :
    List Nat → Prop where
  | finished (t : Elapsed) (plain : Plain spec st st')
      (phase : st'.phase = .done (some j) (spec.finalVerdict j anyPending t)) :
      Finalizes spec j anyPending st st' []
  | missing (r : Nat) (rest : List Nat) (absent : st.objects[r]? = none)
      (plain : Plain spec st st') (phase : st'.phase = .finalizing j rest anyPending) :
      Finalizes spec j anyPending st st' (r :: rest)
  | one (r : Nat) (rest : List Nat) (x : ExpectationVal) (grows : Grows st st')
      (keeps : Keeps st st') (found : st.objects[r]? = some x)
      (objects : st'.objects = st.objects.set r (x.finalize st.log j.cause).2)
      (history : st'.history = st.history ++ [⟨r, x, .finalize st.log j.cause,
        .final (x.finalize st.log j.cause).1.1 (x.finalize st.log j.cause).1.2⟩])
      (registered : st'.registered = st.registered)
      (phase : match (x.finalize st.log j.cause).1.1 with
        | .fail => ∃ res, st'.phase = .done (some j) res ∧ res.result = .fail
        | .pending => st'.phase = .finalizing j rest true
        | .pass => st'.phase = .finalizing j rest anyPending) :
      Finalizes spec j anyPending st st' (r :: rest)

theorem warnVacuous_eq (st : RunState V) (r : Nat) (name : String) :
    ∃ log own, st.log.events <+: log.events ∧
      (∀ job ∈ own, job ∈ st.own ∨ job.unwatched = true) ∧
      st.warnVacuous r name = { st with log := log, own := own } := by
  unfold RunState.warnVacuous
  split_ifs
  · refine ⟨_, _, List.prefix_append _ _, fun job h => ?_, rfl⟩
    rcases List.mem_append.mp h with h | h
    · exact .inl h
    · rw [List.mem_singleton.mp h]
      exact .inr rfl
  · exact ⟨_, _, List.prefix_rfl, fun _ h => .inl h, rfl⟩

theorem finalizeOne_finalizes (spec : RunSpec V) (j : Judgement V) (t : Elapsed) (r : Nat)
    (rest : List Nat) (anyPending : Bool) :
    Finalizes spec j anyPending st (st.finalizeOne spec j t r rest anyPending) (r :: rest) := by
  unfold RunState.finalizeOne
  cases hx : st.objects[r]? with
  | none =>
    rw [callObject_of_none hx]
    exact .missing r rest hx (plain_of_phase spec _ _) rfl
  | some x =>
    rw [callObject_of_some hx]
    obtain ⟨log, own, hlog, hown, hw⟩ := warnVacuous_eq { st with
      objects := st.objects.set r (x.answer (.finalize st.log j.cause)).2
      history := st.history ++ [⟨r, x, .finalize st.log j.cause,
        (x.answer (.finalize st.log j.cause)).1⟩] } r x.name
    have hk : ∀ phase, Keeps st { st with
        objects := st.objects.set r (x.answer (.finalize st.log j.cause)).2
        history := st.history ++ [⟨r, x, .finalize st.log j.cause,
          (x.answer (.finalize st.log j.cause)).1⟩]
        log := log, own := own, phase := phase } := fun phase =>
      ⟨rfl, rfl, fun _ h => .inl h, hown⟩
    simp only [ExpectationVal.answer] at hw hk ⊢
    rw [hw]
    split <;> rename_i hv
    · refine .one r rest x ⟨rfl, hlog, List.prefix_rfl, List.prefix_rfl,
        .call r x _ hx (readsLog_finalize _ _) rfl rfl⟩ ((hk _).finish _ _) hx rfl rfl rfl ?_
      rw [hv]
      exact ⟨_, rfl, rfl⟩
    all_goals
      refine .one r rest x ⟨rfl, hlog, List.prefix_rfl, List.prefix_rfl,
        .call r x _ hx (readsLog_finalize _ _) rfl rfl⟩ (hk _) hx rfl rfl rfl ?_
      rw [hv]

theorem advance_of_finalizing {j : Judgement V} {rest : List Nat} {anyPending : Bool}
    (h : advance spec st m = some st') (hph : st.phase = .finalizing j rest anyPending) :
    Finalizes spec j anyPending st st' rest := by
  cases rest with
  | nil =>
    simp only [advance, hph] at h
    split at h <;> cases h
    exact .finished _ (finish_plain spec _ _) rfl
  | cons r rest =>
    simp only [advance, hph] at h
    split at h <;> cases h
    exact finalizeOne_finalizes spec j _ r rest anyPending

/-- A step of the test goroutine calls no expectation, or it finalizes one. -/
theorem advance_cases (h : advance spec st m = some st') :
    Plain spec st st' ∨ Grows st st' ∧ Keeps st st' := by
  cases hu : st.phase.undecided with
  | true =>
    cases advance_of_undecided h hu with
    | onward plain _ _ => exact .inl plain
    | early plain _ _ _ _ => exact .inl plain
    | verdict cause bo checks _ _ judged =>
      subst judged
      cases hsup : checks.supervisorFailure with
      | none => exact .inl (judge_cases spec cause bo checks hsup).1
      | some err => exact .inl (judge_of_supervisor spec cause bo checks hsup).1
  | false =>
    cases hph : st.phase with
    | finalizing j rest anyPending =>
      cases advance_of_finalizing h hph with
      | finished _ plain _ => exact .inl plain
      | missing _ _ _ plain _ => exact .inl plain
      | one _ _ _ grows keeps => exact .inr ⟨grows, keeps⟩
    | reporting res => exact .inl (advance_of_reporting h hph).1
    | done j res => simp [advance, hph] at h
    | idle => simp [advance, hph] at h
    | _ => simp [hph, Phase.undecided] at hu

theorem advance_grows (h : advance spec st m = some st') : Grows st st' :=
  (advance_cases h).elim (·.grows) (·.1)

theorem not_undecided_of_advance (h : advance spec st m = some st')
    (hu : st.phase.undecided = false) : st'.phase.undecided = false := by
  cases hph : st.phase with
  | finalizing j rest anyPending =>
    cases advance_of_finalizing h hph with
    | finished _ _ phase => rw [phase]; rfl
    | missing _ _ _ _ phase => rw [phase]; rfl
    | one r rest x _ _ _ _ _ _ phase =>
      split at phase
      · obtain ⟨res, hres, _⟩ := phase
        rw [hres]; rfl
      · rw [phase]; rfl
      · rw [phase]; rfl
  | reporting res =>
    obtain ⟨_, res', hres, _⟩ := advance_of_reporting h hph
    rw [hres]; rfl
  | done j res => simp [advance, hph] at h
  | idle => simp [advance, hph] at h
  | _ => simp [hph, Phase.undecided] at hu

/-! ## Any step -/

/-- A step is quiet, or it is a step of `runTestImpl` itself. -/
theorem step_cases {s : Step V} (h : step spec st s = some st') :
    Quiet st st' ∨ ∃ m, s = .main m ∧ advance spec st m = some st' := by
  cases s with
  | env e => exact .inl (envStep_quiet h)
  | main m =>
    simp only [step, mainStep] at h
    split at h
    · cases h
      exact .inl ((perform_quiet _).congr rfl rfl rfl rfl rfl rfl rfl)
    · cases h
    · exact .inr ⟨_, rfl, h⟩

/-- A step of `runTestImpl` itself. -/
theorem advance_of_step (h : step spec st (.main m) = some st') (hm : m ≠ .ownWork) :
    advance spec st m = some st' := by
  simp only [step, mainStep] at h
  split at h
  · exact absurd rfl hm
  · cases h
  · exact h

theorem step_grows {s : Step V} (h : step spec st s = some st') : Grows st st' := by
  rcases step_cases h with hq | ⟨m, _, hm⟩
  · exact hq.toGrows
  · exact advance_grows hm

end faultbox.test_run
