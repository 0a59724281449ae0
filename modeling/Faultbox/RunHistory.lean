-- The history of a run against its expectations: the calls that the history
-- records for an expectation, played on the object as the run found it, give the
-- object as it is now and the answers that the history records.
import Faultbox.RunSteps

open faultbox.event_log faultbox.temporal

namespace faultbox.test_run

variable {V : Type} {st st' : RunState V} {x : ExpectationVal} {r : Nat}
variable {spec : RunSpec V} {rt : RunState V}

/-! ## The calls on one expectation -/

def callsOf (r : Nat) (history : List Observation) : List Call :=
  (history.filter (·.ref == r)).map (·.call)

def observed (r : Nat) (history : List Observation) : List (ExpectationVal × Call × Answer) :=
  (history.filter (·.ref == r)).map fun o => (o.before, o.call, o.answer)

theorem callsOf_append (h h' : List Observation) :
    callsOf r (h ++ h') = callsOf r h ++ callsOf r h' := by
  simp [callsOf]

theorem observed_append (h h' : List Observation) :
    observed r (h ++ h') = observed r h ++ observed r h' := by
  simp [observed]

theorem length_observed (h : List Observation) : (observed r h).length = (callsOf r h).length := by
  simp [observed, callsOf]

theorem mem_observed {h : List Observation} {o : ExpectationVal × Call × Answer} :
    o ∈ observed r h ↔ ∃ answered ∈ h, answered.ref = r ∧
      (answered.before, answered.call, answered.answer) = o := by
  simp [observed, and_assoc]

/-- The object at `r` is what the calls of the history make of `x`, and the
history tells what they found and got. -/
structure Tracks (x : ExpectationVal) (r : Nat) (st : RunState V) : Prop where
  object : st.objects[r]? = some (runs.after ExpectationVal.answer x (callsOf r st.history))
  trace : observed r st.history = runs.trace ExpectationVal.answer x (callsOf r st.history)

theorem Tracks.lt_length (h : Tracks x r st) : r < st.objects.length :=
  (List.getElem?_eq_some_iff.mp h.object).1

theorem Tracks.of_grows (h : Tracks x r st) (g : Grows st st') : Tracks x r st' := by
  cases g.moves with
  | same ho hh => exact ⟨by rw [ho, hh]; exact h.object, by rw [hh]; exact h.trace⟩
  | register y hf ho hr hh =>
    refine ⟨?_, by rw [hh]; exact h.trace⟩
    rw [ho, hh, List.getElem?_append_left h.lt_length]
    exact h.object
  | call r' y c found reads ho hh =>
    by_cases hr : r' = r
    · subst hr
      have hy : y = runs.after ExpectationVal.answer x (callsOf r' st.history) :=
        Option.some.inj (found.symm.trans h.object)
      subst hy
      have hc : callsOf r' st'.history = callsOf r' st.history ++ [c] := by
        rw [hh, callsOf_append]
        simp [callsOf]
      refine ⟨?_, ?_⟩
      · rw [ho, hc, runs.after_append, List.getElem?_set_self h.lt_length]
        rfl
      · rw [hc, runs.trace_append, ← h.trace, hh, observed_append]
        simp [observed, runs.trace]
    · have hc : callsOf r st'.history = callsOf r st.history := by
        rw [hh, callsOf_append]
        simp [callsOf, hr]
      have hobs : observed r st'.history = observed r st.history := by
        rw [hh, observed_append]
        simp [observed, hr]
      refine ⟨?_, by rw [hc, hobs]; exact h.trace⟩
      rw [ho, hc, List.getElem?_set_ne hr]
      exact h.object

theorem Tracks.answered (h : Tracks x r st) {o : Observation} (ho : o ∈ st.history)
    (hr : o.ref = r) : (o.before.answer o.call).1 = o.answer := by
  have hmem : (o.before, o.call, o.answer) ∈ observed r st.history :=
    mem_observed.mpr ⟨o, ho, hr, rfl⟩
  rw [h.trace] at hmem
  exact runs.answer_of_mem_trace hmem

/-! ## What the history says -/

/-- The history names objects that exist, and the logs that its calls looked at
are prefixes of the log. -/
structure Recorded (st : RunState V) : Prop where
  refs : ∀ o ∈ st.history, o.ref < st.objects.length
  logs : ∀ o ∈ st.history, ∀ l, o.call.log = some l → l.events <+: st.log.events

theorem Recorded.of_grows (h : Recorded st) (g : Grows st st') : Recorded st' := by
  have hlo : ∀ o ∈ st.history, ∀ l, o.call.log = some l → l.events <+: st'.log.events :=
    fun o ho l hl => (h.logs o ho l hl).trans g.log
  cases g.moves with
  | same ho hh => exact ⟨by rw [ho, hh]; exact h.refs, by rw [hh]; exact hlo⟩
  | register y hf ho hr hh =>
    refine ⟨fun o hmem => ?_, by rw [hh]; exact hlo⟩
    rw [hh] at hmem
    rw [ho, List.length_append]
    exact Nat.lt_add_right _ (h.refs o hmem)
  | call r' y c found reads ho hh =>
    constructor
    · intro o hmem
      rw [hh, List.mem_append, List.mem_singleton] at hmem
      rw [ho, List.length_set]
      rcases hmem with hmem | rfl
      · exact h.refs o hmem
      · exact (List.getElem?_eq_some_iff.mp found).1
    · intro o hmem l hl
      rw [hh, List.mem_append, List.mem_singleton] at hmem
      rcases hmem with hmem | rfl
      · exact hlo o hmem l hl
      · rw [reads l hl]
        exact g.log

theorem Recorded.callsOf_length (h : Recorded st) : callsOf st.objects.length st.history = [] := by
  simp only [callsOf, List.map_eq_nil_iff, List.filter_eq_nil_iff, beq_iff_eq]
  intro o ho he
  exact absurd (h.refs o ho) (by omega)

/-! ## From the start of a run -/

theorem startRun_objects (spec : RunSpec V) (rt : RunState V) :
    (startRun spec rt).objects = rt.objects := by
  unfold startRun
  dsimp only
  split_ifs
  · rfl
  · rfl
  · cases spec.mockStateError <;> rfl

theorem startRun_history (spec : RunSpec V) (rt : RunState V) :
    (startRun spec rt).history = [] := by
  unfold startRun
  dsimp only
  split_ifs
  · rfl
  · rfl
  · cases spec.mockStateError <;> rfl

theorem startRun_tracks {r : Nat} {x : ExpectationVal} (h : rt.objects[r]? = some x) :
    Tracks x r (startRun spec rt) := by
  constructor
  · rw [startRun_objects, startRun_history, h]
    rfl
  · rw [startRun_history]
    rfl

theorem run_tracks {st : RunState V} {steps : List (Step V)} {r : Nat} {x : ExpectationVal}
    (hrun : runs.run (step spec) (startRun spec rt) steps = some st) (h : rt.objects[r]? = some x) :
    Tracks x r st :=
  runs.run_preserves (Tracks x r) (fun _ _ _ hs ht => ht.of_grows (step_grows hs)) hrun
    (startRun_tracks h)

/-- A run knows every object: those it found, and the fresh ones that it built. -/
structure Tracked (rt st : RunState V) : Prop where
  recorded : Recorded st
  old : ∀ r x, rt.objects[r]? = some x → Tracks x r st
  new : ∀ r, rt.objects.length ≤ r → r < st.objects.length → ∃ x, x.fresh = x ∧ Tracks x r st

theorem Tracked.of_grows (h : Tracked rt st) (g : Grows st st') : Tracked rt st' := by
  refine ⟨h.recorded.of_grows g, fun r x hx => (h.old r x hx).of_grows g, ?_⟩
  intro r hr hlt
  by_cases hlt' : r < st.objects.length
  · obtain ⟨x, hx, ht⟩ := h.new r hr hlt'
    exact ⟨x, hx, ht.of_grows g⟩
  -- Only a registration makes the store longer, and its object has no history yet.
  · cases g.moves with
    | same ho hh =>
      rw [ho] at hlt
      exact absurd hlt hlt'
    | call r' y c found reads ho hh =>
      rw [ho, List.length_set] at hlt
      exact absurd hlt hlt'
    | register y hf ho hreg hh =>
      rw [ho, List.length_append, List.length_singleton] at hlt
      obtain rfl : r = st.objects.length := by omega
      have hn := h.recorded.callsOf_length
      refine ⟨y, hf, ?_, ?_⟩
      · rw [hh, hn, ho, List.getElem?_append_right (Nat.le_refl _)]
        simp [runs.after]
      · have hlen := length_observed (r := st.objects.length) st.history
        rw [hn] at hlen
        rw [hh, hn, List.length_eq_zero_iff.mp hlen]
        rfl

theorem reaches_tracked {steps : List (Step V)} (hrun : Reaches spec rt steps st) :
    Tracked rt st := by
  refine runs.run_preserves (Tracked rt) (fun _ _ _ hs ht => ht.of_grows (step_grows hs)) hrun ?_
  refine ⟨⟨?_, ?_⟩, fun r x hx => startRun_tracks hx, ?_⟩
  · rw [startRun_history]
    exact fun o ho => nomatch ho
  · rw [startRun_history]
    exact fun o ho => nomatch ho
  · intro r hr hlt
    rw [startRun_objects] at hlt
    omega

theorem Tracked.exists_tracks (h : Tracked rt st) (hr : r < st.objects.length) :
    ∃ x, Tracks x r st := by
  by_cases hold : r < rt.objects.length
  · exact ⟨_, h.old r _ (List.getElem?_eq_getElem hold)⟩
  · obtain ⟨x, _, hx⟩ := h.new r (by omega) hr
    exact ⟨x, hx⟩

end faultbox.test_run
