-- `await_event` (internal/star/await.go) beside goroutines that emit. It looks at
-- the log, subscribes, looks again and then waits for its callback. No matching
-- event is lost between the looks and the callback, whatever the interleaving.
import Faultbox.MonitorOrder

open dispatch faultbox.event_log faultbox.monitors

namespace faultbox.await_event

/-! ## The goroutines -/

/-- A subscription to the log: the one of the call, or another one. -/
inductive Sub where
  | awaiting
  | other (id : Nat)
deriving DecidableEq

/-- The channel with its one place, and the `sync.Once` before it. -/
structure Hit where
  once : Bool
  hitCh : Option Event

/-- The callback of the call: the first matching event goes into the channel if
there is room. -/
def Hit.receive (h : Hit) (m : MatcherVal) (ev : Event) : Hit :=
  if m.matchesEvent ev then
    if h.once then h
    else
      match h.hitCh with
      | none => ⟨true, some ev⟩
      | some old => ⟨true, some old⟩
  else h

/-- `Emit`, as the call sees it. -/
def emitting (m : MatcherVal) : Protocol EventLog EmitArgs Event Sub Hit where
  entry l a := l.newEvent a.typ a.service a.fields
  record l a := l.emit a.typ a.service a.fields
  deliver s ev _ h :=
    match s with
    | .awaiting => h.receive m ev
    | .other _ => h

/-- Where the call stands. -/
inductive Awaiter where
  | entered
  | checked
  | subscribed
  | waiting
  | returning (ev : Event)
  | returned (ev : Event)

structure State where
  bus : Bus EventLog EmitArgs Event Sub Hit
  awaiter : Awaiter

/-- One step of `awaitEvent`: the eager check, the subscription, the second check,
the receive, and the deferred `Unsubscribe`. -/
def awaitStep (m : MatcherVal) (st : State) : Option State :=
  match st.awaiter with
  | .entered =>
    match st.bus.log.firstMatching m with
    | some ev => some { st with awaiter := .returned ev }
    | none => some { st with awaiter := .checked }
  | .checked =>
    some { bus := { st.bus with subs := st.bus.subs ++ [.awaiting] }, awaiter := .subscribed }
  | .subscribed =>
    match st.bus.log.firstMatching m with
    | some ev => some { st with awaiter := .returning ev }
    | none => some { st with awaiter := .waiting }
  | .waiting =>
    match st.bus.shared.hitCh with
    | some ev =>
      some { bus := { st.bus with shared := { st.bus.shared with hitCh := none } }
             awaiter := .returning ev }
    | none => none
  | .returning ev =>
    some { bus := { st.bus with subs := st.bus.subs.erase .awaiting }, awaiter := .returned ev }
  | .returned _ => none

inductive Move where
  | emitter (g : Nat)
  | awaiter

def step (m : MatcherVal) (st : State) : Move → Option State
  | .emitter g => (dispatch.step (emitting m) st.bus g).map fun bus => { st with bus }
  | .awaiter => awaitStep m st

/-- The call begins on any log, beside any other subscriptions. -/
def start (log : EventLog) (others : List Nat) (programs : List (List EmitArgs)) : State where
  bus :=
    { log
      subs := others.map .other
      emitters := programs.map fun todo => ⟨todo, .idle⟩
      shared := ⟨false, none⟩ }
  awaiter := .entered

def Reaches (m : MatcherVal) (log : EventLog) (others : List Nat) (programs : List (List EmitArgs))
    (st : State) : Prop :=
  ∃ sched, runs.run (step m) (start log others programs) sched = some st

/-! ## Nothing is lost -/

variable {m : MatcherVal} {st st' : State} {bus bus' : Bus EventLog EmitArgs Event Sub Hit}

/-- An event of the log that matches. -/
def Found (m : MatcherVal) (l : EventLog) (ev : Event) : Prop :=
  ev ∈ l.events ∧ m.matchesEvent ev = true

/-- What the emitters and the channel hold is in the log. -/
structure Sound (m : MatcherVal) (bus : Bus EventLog EmitArgs Event Sub Hit) : Prop where
  held : ∀ (g : Nat) (em : Emitter EmitArgs Event Sub) ev, bus.emitters[g]? = some em →
    em.holds = some ev → ev ∈ bus.log.events
  hit : ∀ ev, bus.shared.hitCh = some ev → Found m bus.log ev

/-- While the channel is empty, an emitter still owes every matching event. -/
def Pending (m : MatcherVal) (bus : Bus EventLog EmitArgs Event Sub Hit) : Prop :=
  bus.shared.hitCh = none → ∀ ev, Found m bus.log ev →
    ∃ g, bus.owed .awaiting m.matchesEvent g = some ev

/-- Before the call has received, its `once` stands for a full channel. -/
def Unused (h : Hit) : Prop := h.once = true → h.hitCh ≠ none

/-- What holds where the call stands. -/
def Kept (m : MatcherVal) (st : State) : Prop :=
  match st.awaiter with
  | .entered | .checked => Unused st.bus.shared
  | .subscribed => Unused st.bus.shared ∧ .awaiting ∈ st.bus.subs
  | .waiting => Unused st.bus.shared ∧ .awaiting ∈ st.bus.subs ∧ Pending m st.bus
  | .returning ev | .returned ev => Found m st.bus.log ev

theorem Found.mono {l l' : EventLog} {ev : Event} (h : Found m l ev)
    (hlog : l.events <+: l'.events) : Found m l' ev := ⟨hlog.subset h.1, h.2⟩

theorem found_of_firstMatching {l : EventLog} {ev : Event} (h : l.firstMatching m = some ev) :
    Found m l ev := ⟨List.mem_of_find?_eq_some h, List.find?_some h⟩

theorem not_found_of_firstMatching {l : EventLog} (h : l.firstMatching m = none) (ev : Event) :
    ¬ Found m l ev := fun hf => List.find?_eq_none.mp h ev hf.1 hf.2

/-! ## The steps of the emitters -/

section emitters

variable {g : Nat} {todo : List EmitArgs} {ev : Event} {rest : List Sub}

theorem moved_subs (h : Moved (emitting m) bus g bus') : bus'.subs = bus.subs := by
  cases h <;> rfl

theorem moved_log (h : Moved (emitting m) bus g bus') : bus.log.events <+: bus'.log.events := by
  cases h with
  | record h => exact List.prefix_append _ _
  | snapshot h => exact List.prefix_rfl
  | callback h => exact List.prefix_rfl
  | done h => exact List.prefix_rfl

theorem held_put {em em' : Emitter EmitArgs Event Sub} (h : Sound m bus)
    (hg : bus.emitters[g]? = some em) (hh : ∀ ev, em'.holds = some ev → em.holds = some ev)
    (k : Nat) (em₁ : Emitter EmitArgs Event Sub) (ev : Event)
    (hk : (bus.put g em').emitters[k]? = some em₁) (he : em₁.holds = some ev) :
    ev ∈ bus.log.events := by
  rw [put_emitters (lt_of_found hg)] at hk
  split at hk
  · cases hk
    exact h.held g em ev hg (hh ev he)
  · exact h.held k em₁ ev hk he

theorem receive_hit {h : Hit} {ev ev' : Event} (hr : (h.receive m ev).hitCh = some ev') :
    h.hitCh = some ev' ∨ (ev' = ev ∧ m.matchesEvent ev = true) := by
  unfold Hit.receive at hr
  split_ifs at hr with hm hone
  · exact Or.inl hr
  · split at hr
    · cases hr
      exact Or.inr ⟨rfl, hm⟩
    · rename_i hold
      exact Or.inl (hold.trans hr)
  · exact Or.inl hr

theorem sound_step (h : Sound m bus) (hm : Moved (emitting m) bus g bus') : Sound m bus' := by
  have hlog := moved_log hm
  cases hm with
  | @record a rest hg =>
    refine ⟨fun k em ev hk he => ?_, fun ev hev => (h.hit ev hev).mono hlog⟩
    have hk' : (bus.put g ⟨rest, .recorded ((emitting m).entry bus.log a)⟩).emitters[k]? =
        some em := hk
    rw [put_emitters (lt_of_found hg)] at hk'
    split at hk'
    · cases hk'
      cases he
      exact List.mem_append_right _ List.mem_cons_self
    · exact hlog.subset (h.held k em ev hk' he)
  | snapshot hg => exact ⟨held_put h hg fun _ he => he, h.hit⟩
  | @callback todo e s rest hg =>
    refine ⟨held_put h hg fun _ he => he, fun ev hev => ?_⟩
    cases s with
    | other id => exact h.hit ev hev
    | awaiting =>
      rcases receive_hit hev with hold | ⟨rfl, hma⟩
      · exact h.hit ev hold
      · exact ⟨h.held g _ ev hg rfl, hma⟩
  | done hg => exact ⟨held_put h hg (fun _ he => by cases he), h.hit⟩

theorem receive_unused {h : Hit} (hu : Unused h) (ev : Event) : Unused (h.receive m ev) := by
  unfold Hit.receive
  split_ifs with hm hone
  · exact hu
  · intro _
    split <;> exact Option.some_ne_none _
  · exact hu

theorem unused_step (h : Unused bus.shared) (hm : Moved (emitting m) bus g bus') :
    Unused bus'.shared := by
  cases hm with
  | record hg => exact h
  | snapshot hg => exact h
  | @callback todo e s rest hg =>
    cases s with
    | other id => exact h
    | awaiting => exact receive_unused h e
  | done hg => exact h

theorem pending_of_same (h : Pending m bus) (hlog : bus'.log = bus.log)
    (hhit : bus'.shared.hitCh = bus.shared.hitCh)
    (ho : bus'.owed .awaiting m.matchesEvent = bus.owed .awaiting m.matchesEvent) :
    Pending m bus' := by
  unfold Pending
  rw [hlog, hhit, ho]
  exact h

theorem pending_record {a : EmitArgs} {rest : List EmitArgs} (h : Pending m bus)
    (hg : bus.emitters[g]? = some ⟨a :: rest, .idle⟩) :
    Pending m { bus.put g ⟨rest, .recorded ((emitting m).entry bus.log a)⟩ with
      log := (emitting m).record bus.log a } := by
  intro hn ev hev
  have ho : ({ bus.put g ⟨rest, .recorded ((emitting m).entry bus.log a)⟩ with
      log := (emitting m).record bus.log a } : Bus EventLog EmitArgs Event Sub Hit).owed
        .awaiting m.matchesEvent =
      Function.update (bus.owed .awaiting m.matchesEvent) g
        ((some ((emitting m).entry bus.log a)).filter m.matchesEvent) :=
    owed_put _ (lt_of_found hg)
  rw [ho]
  rcases List.mem_append.mp hev.1 with hold | hnew
  · obtain ⟨k, hk⟩ := h hn ev ⟨hold, hev.2⟩
    have hne : k ≠ g := by
      rintro rfl
      rw [owed_of_found hg] at hk
      cases hk
    exact ⟨k, by rw [Function.update_of_ne hne, hk]⟩
  · rw [List.mem_singleton] at hnew
    subst hnew
    exact ⟨g, by rw [Function.update_self]; exact Option.filter_some_pos hev.2⟩

theorem pending_callback (h : Pending m bus) (hu : Unused bus.shared)
    (hg : bus.emitters[g]? = some ⟨todo, .dispatching ev (.awaiting :: rest)⟩) :
    Pending m { bus.put g ⟨todo, .dispatching ev rest⟩ with
      shared := bus.shared.receive m ev } := by
  intro hn ev' hev'
  by_cases hm : m.matchesEvent ev = true
  · -- an empty channel was not used yet, so the event went into it
    exfalso
    unfold Hit.receive at hn
    rw [if_pos hm] at hn
    split at hn
    · rename_i hone
      exact hu hone hn
    · split at hn <;> cases hn
  · have hs : bus.shared.receive m ev = bus.shared := if_neg hm
    have hn' : bus.shared.hitCh = none := by rw [← hs]; exact hn
    obtain ⟨k, hk⟩ := h hn' ev' hev'
    have hne : k ≠ g := by
      rintro rfl
      obtain ⟨em, hem, hh, hma⟩ := owed_some hk
      rw [hg] at hem
      cases hem
      cases hh
      exact hm hma
    refine ⟨k, ?_⟩
    have ho : ({ bus.put g ⟨todo, .dispatching ev rest⟩ with
        shared := bus.shared.receive m ev } : Bus EventLog EmitArgs Event Sub Hit).owed
          .awaiting m.matchesEvent = _ := owed_put _ (lt_of_found hg)
    rw [ho, Function.update_of_ne hne, hk]

theorem pending_step (h : Pending m bus) (hu : Unused bus.shared) (hsub : .awaiting ∈ bus.subs)
    (hm : Moved (emitting m) bus g bus') : Pending m bus' := by
  cases hm with
  | record hg => exact pending_record h hg
  | snapshot hg =>
    refine pending_of_same h rfl rfl (owed_put_same hg ?_)
    simp only [Emitter.owes, if_pos hsub]
  | @callback todo e s rest hg =>
    cases s with
    | awaiting => exact pending_callback h hu hg
    | other id =>
      refine pending_of_same h rfl rfl (owed_put_same hg ?_)
      simp only [Emitter.owes, List.mem_cons, reduceCtorEq, false_or]
  | done hg => exact pending_of_same h rfl rfl (owed_put_same hg rfl)

end emitters

/-! ## Whole runs -/

theorem kept_emitter {g : Nat} (h : Kept m st) (hm : Moved (emitting m) st.bus g bus') :
    Kept m { st with bus := bus' } := by
  unfold Kept at h ⊢
  cases hst : st.awaiter with
  | entered | checked => simp only [hst] at h ⊢; exact unused_step h hm
  | subscribed =>
    simp only [hst] at h ⊢
    exact ⟨unused_step h.1 hm, by rw [moved_subs hm]; exact h.2⟩
  | waiting =>
    simp only [hst] at h ⊢
    exact ⟨unused_step h.1 hm, by rw [moved_subs hm]; exact h.2.1, pending_step h.2.2 h.1 h.2.1 hm⟩
  | returning | returned => simp only [hst] at h ⊢; exact h.mono (moved_log hm)

theorem kept_awaiter (hs : Sound m st.bus) (h : Kept m st) (hste : awaitStep m st = some st') :
    Sound m st'.bus ∧ Kept m st' := by
  unfold awaitStep at hste
  unfold Kept at h
  cases hst : st.awaiter with
  | entered =>
    simp only [hst] at h hste
    cases hf : st.bus.log.firstMatching m with
    | some ev =>
      rw [hf] at hste
      cases hste
      exact ⟨hs, found_of_firstMatching hf⟩
    | none =>
      rw [hf] at hste
      cases hste
      exact ⟨hs, h⟩
  | checked =>
    simp only [hst] at h hste
    cases hste
    exact ⟨⟨hs.held, hs.hit⟩, h, List.mem_append_right _ List.mem_cons_self⟩
  | subscribed =>
    simp only [hst] at h hste
    cases hf : st.bus.log.firstMatching m with
    | some ev =>
      rw [hf] at hste
      cases hste
      exact ⟨hs, found_of_firstMatching hf⟩
    | none =>
      rw [hf] at hste
      cases hste
      exact ⟨hs, h.1, h.2, fun _ ev hev => absurd hev (not_found_of_firstMatching hf ev)⟩
  | waiting =>
    simp only [hst] at h hste
    cases hhit : st.bus.shared.hitCh with
    | some ev =>
      rw [hhit] at hste
      cases hste
      exact ⟨⟨hs.held, fun ev hev => by cases hev⟩, hs.hit ev hhit⟩
    | none =>
      rw [hhit] at hste
      cases hste
  | returning ev =>
    simp only [hst] at h hste
    cases hste
    exact ⟨⟨hs.held, hs.hit⟩, h⟩
  | returned ev =>
    simp only [hst] at hste
    cases hste

theorem reaches_kept {log : EventLog} {others : List Nat} {programs : List (List EmitArgs)}
    (h : Reaches m log others programs st) : Sound m st.bus ∧ Kept m st := by
  obtain ⟨sched, hrun⟩ := h
  refine runs.run_preserves (fun st => Sound m st.bus ∧ Kept m st) ?_ hrun ?_
  · rintro st mv st' hst ⟨hs, hk⟩
    cases mv with
    | emitter g =>
      obtain ⟨bus', hbus, rfl⟩ := Option.map_eq_some_iff.mp hst
      have hm := step_iff.mp hbus
      exact ⟨sound_step hs hm, kept_emitter hk hm⟩
    | awaiter => exact kept_awaiter hs hk hst
  · refine ⟨⟨fun g em ev hg he => ?_, fun ev hev => by cases hev⟩, fun hone => by cases hone⟩
    obtain ⟨todo, -, rfl⟩ := List.mem_map.mp (List.mem_of_getElem? hg)
    cases he

/-- The call never waits in vain, and what it returns is a matching event of the log. -/
theorem await_event_misses_nothing (m : MatcherVal) (log : EventLog) (others : List Nat)
    (programs : List (List EmitArgs)) (st : State) (h : Reaches m log others programs st) :
    ¬ (st.awaiter = .waiting ∧ st.bus.shared.hitCh = none ∧
        (∃ ev ∈ st.bus.log.events, m.matchesEvent ev = true) ∧ st.bus.Finished) ∧
      ∀ ev, st.awaiter = .returned ev → ev ∈ st.bus.log.events ∧ m.matchesEvent ev = true := by
  obtain ⟨-, hk⟩ := reaches_kept h
  unfold Kept at hk
  refine ⟨?_, fun ev hev => ?_⟩
  · rintro ⟨hw, hn, ⟨ev, hmem, hm⟩, hfin⟩
    simp only [hw] at hk
    obtain ⟨g, ho⟩ := hk.2.2 hn ev ⟨hmem, hm⟩
    obtain ⟨em, hem, hh, -⟩ := owed_some ho
    rw [Emitter.holds, (hfin em (List.mem_of_getElem? hem)).2] at hh
    cases hh
  · simp only [hev] at hk
    exact hk

def ready : EmitArgs := ⟨"service_ready", "db", ∅⟩

def waitForReady : List Move :=
  [.awaiter, .awaiter, .awaiter, .emitter 0, .emitter 0, .emitter 0, .emitter 0, .awaiter, .awaiter]

theorem await_event_returns_the_ready_event :
    ∃ st ev, Reaches (matchType "service_ready") newEventLog [] [[ready]] st ∧
      st.awaiter = .returned ev ∧ ev ∈ st.bus.log.events :=
  have h : Reaches (matchType "service_ready") newEventLog [] [[ready]] _ := ⟨waitForReady, rfl⟩
  ⟨_, newEventLog.newEvent "service_ready" "db" ∅, h, rfl,
    ((await_event_misses_nothing _ _ _ _ _ h).2 _ rfl).1⟩

end faultbox.await_event
