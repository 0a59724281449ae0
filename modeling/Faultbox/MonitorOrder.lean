-- Monitors that fold the event log while several goroutines emit. The log orders
-- the events, but each goroutine calls the monitors on its own, after the lock of
-- the log is released. A monitor sees the matching events in the order of the log
-- exactly when no goroutine can record one while another one still holds one.
import Faultbox.Dispatch
import Faultbox.TestRun

open goval dispatch faultbox.event_log faultbox.test_run

namespace faultbox.monitors

variable {V : Type}

/-! ## The monitors and their callbacks -/

/-- The arguments of one `Emit`. -/
structure EmitArgs where
  typ : String
  service : String
  fields : GoMap String String

/-- `MonitorDef`, with an update of the event and the state alone. -/
structure Monitor (V : Type) where
  name : String
  on : Option MatcherVal
  stateInit : V
  update : Option (Event → V → Except String V)
  check : Option (Event → EventLog → V → Except String Bool)

def Monitor.toDef (m : Monitor V) : MonitorDef V where
  name := m.name
  on := m.on
  stateInit := m.stateInit
  update := m.update.map fun u ev _ state => u ev state
  check := m.check

/-- The event passes the filter `on=` of the monitor. -/
def Monitor.wants (m : Monitor V) (ev : Event) : Bool :=
  match m.on with
  | none => true
  | some on => on.matchesEvent ev

def Monitor.updated (m : Monitor V) (state : V) (ev : Event) : Except String V :=
  match m.update with
  | none => .ok state
  | some u => u ev state

def Monitor.fold (m : Monitor V) (evs : List Event) : Except String V :=
  evs.foldlM m.updated m.stateInit

/-- The state cell of a registration, with the matching events and the errors of its
callbacks in the order in which they came. -/
structure Cell (V : Type) where
  state : V
  processed : List Event
  errors : List String

/-- `RegisterMonitor`: a fresh state cell. -/
def Monitor.register (m : Monitor V) : Cell V := ⟨m.stateInit, [], []⟩

/-- The callback of a monitor. The lock of the state cell makes it one step. -/
def Monitor.receive (m : Monitor V) (c : Cell V) (ev : Event) (log : EventLog) : Cell V :=
  if m.wants ev then
    match m.toDef.advance ev log c.state with
    | .error err => { c with processed := c.processed ++ [ev], errors := c.errors ++ [err] }
    | .ok newState => { c with processed := c.processed ++ [ev], state := newState }
  else c

abbrev Cells (monitors : List (Monitor V)) : Type := Fin monitors.length → Cell V

/-- `Emit`: the record under the lock, the snapshot, and the callbacks of the
monitors, which subscribe without filters. -/
def emitting (monitors : List (Monitor V)) :
    Protocol EventLog EmitArgs Event (Fin monitors.length) (Cells monitors) where
  entry l a := l.newEvent a.typ a.service a.fields
  record l a := l.emit a.typ a.service a.fields
  deliver id ev log cells :=
    Function.update cells id ((monitors.get id).receive (cells id) ev log)

/-- Registered monitors, an empty log, and the emits of each goroutine. -/
def start (monitors : List (Monitor V)) (programs : List (List EmitArgs)) :
    Bus EventLog EmitArgs Event (Fin monitors.length) (Cells monitors) where
  log := newEventLog
  subs := List.finRange monitors.length
  emitters := programs.map fun todo => ⟨todo, .idle⟩
  shared id := (monitors.get id).register

/-- A state that some interleaving of the goroutines reaches. -/
def Reaches (monitors : List (Monitor V)) (programs : List (List EmitArgs))
    (b : Bus EventLog EmitArgs Event (Fin monitors.length) (Cells monitors)) : Prop :=
  ∃ sched, runs.run (step (emitting monitors)) (start monitors programs) sched = some b

/-- In every interleaving the monitor processes the matching events in the order of
their sequence numbers; and when all goroutines are done without a violation, its state is
the fold of its update over the matching events of the log. -/
def FoldsInOrder (monitors : List (Monitor V)) (programs : List (List EmitArgs))
    (id : Fin monitors.length) : Prop :=
  ∀ b, Reaches monitors programs b →
    (b.shared id).processed.Pairwise (fun ev ev' => ev.seq < ev'.seq) ∧
      (b.Finished → (b.shared id).errors = [] →
        (monitors.get id).fold (b.log.events.filter (monitors.get id).wants) =
          .ok (b.shared id).state)

/-! ## One callback -/

variable {m : Monitor V} {c : Cell V} {ev : Event} {log : EventLog}

theorem advance_ok {state newState : V}
    (h : m.toDef.advance ev log state = .ok newState) : m.updated state ev = .ok newState := by
  unfold MonitorDef.advance Monitor.toDef at h
  unfold Monitor.updated
  -- the check only decides whether the updated state is kept
  cases hu : m.update with
  | none =>
    simp only [hu, Option.map_none, pure_bind] at h
    split at h
    · exact h
    · split at h
      · cases h
      · exact h
      · cases h
  | some u =>
    simp only [hu, Option.map_some] at h
    cases hv : u ev state with
    | error err =>
      rw [hv] at h
      cases h
    | ok v =>
      simp only [hv, pure_bind] at h
      split at h
      · exact hv.trans h
      · split at h
        · cases h
        · exact hv.trans h
        · cases h

theorem receive_processed (m : Monitor V) (c : Cell V) (ev : Event) (log : EventLog) :
    (m.receive c ev log).processed =
      if m.wants ev then c.processed ++ [ev] else c.processed := by
  unfold Monitor.receive
  split
  · split <;> rfl
  · rfl

/-- Without an error so far, the state is the fold over what was processed. -/
def Folded (m : Monitor V) (c : Cell V) : Prop := c.errors = [] → m.fold c.processed = .ok c.state

theorem receive_folded (h : Folded m c) (ev : Event) (log : EventLog) :
    Folded m (m.receive c ev log) := by
  unfold Monitor.receive
  split
  · cases hadv : m.toDef.advance ev log c.state with
    | error err =>
      intro herr
      exact absurd herr (List.append_ne_nil_of_right_ne_nil _ (List.cons_ne_nil _ _))
    | ok newState =>
      intro herr
      have hf := h herr
      unfold Monitor.fold at hf ⊢
      rw [List.foldlM_append, hf]
      simp only [List.foldlM_cons, List.foldlM_nil, bind_pure]
      exact advance_ok hadv
  · exact h

/-! ## Whole runs -/

section runs

variable {monitors : List (Monitor V)} {programs : List (List EmitArgs)}
variable {b : Bus EventLog EmitArgs Event (Fin monitors.length) (Cells monitors)}

theorem observes (id : Fin monitors.length) :
    Observes (emitting monitors) id (monitors.get id).wants (fun cells => (cells id).processed)
      EventLog.events where
  recorded _ _ := rfl
  self ev log cells := by
    simp only [emitting, Function.update_self, receive_processed]
  other id' ev log cells hne := by
    simp only [emitting, Function.update_of_ne (Ne.symm hne)]

/-- The sequence numbers of a log grow with the events. -/
structure Numbered (l : EventLog) : Prop where
  sorted : l.events.Pairwise fun ev ev' => ev.seq < ev'.seq
  bounded : ∀ ev ∈ l.events, ev.seq ≤ l.seq

theorem numbered_emit {l : EventLog} (h : Numbered l) (typ service : String)
    (fields : GoMap String String) : Numbered (l.emit typ service fields) := by
  have hseq : (l.emit typ service fields).seq = l.seq + 1 := rfl
  have hnew : (l.newEvent typ service fields).seq = l.seq + 1 := rfl
  refine ⟨?_, fun ev hev => ?_⟩
  · rw [emit_events, List.pairwise_append]
    refine ⟨h.sorted, List.pairwise_singleton _ _, fun ev hev ev' hev' => ?_⟩
    rw [List.mem_singleton.mp hev', hnew]
    exact Int.lt_add_one_of_le (h.bounded ev hev)
  · rw [emit_events, List.mem_append, List.mem_singleton] at hev
    rcases hev with hev | rfl
    · have := h.bounded ev hev
      omega
    · exact le_refl _

theorem run_keeps (hrun : Reaches monitors programs b) :
    Numbered b.log ∧ ∀ id, Folded (monitors.get id) (b.shared id) := by
  obtain ⟨sched, hrun⟩ := hrun
  refine runs.run_preserves
    (fun b => Numbered b.log ∧ ∀ id, Folded (monitors.get id) (b.shared id)) ?_ hrun ?_
  · intro b g b' hs h
    cases step_iff.mp hs with
    | record hg => exact ⟨numbered_emit h.1 _ _ _, h.2⟩
    | snapshot hg => exact h
    | @callback todo ev id rest hg =>
      refine ⟨h.1, fun k => ?_⟩
      by_cases hk : k = id
      · subst hk
        simp only [emitting, Function.update_self]
        exact receive_folded (h.2 k) ev b.log
      · simp only [emitting, Function.update_of_ne hk]
        exact h.2 k
    | done hg => exact h
  · refine ⟨⟨List.Pairwise.nil, fun ev hev => by cases hev⟩, fun id _ => rfl⟩

theorem seq_of_records {l l' : EventLog} {t t' : List (List EmitArgs)} {order : List Nat}
    (h : runs.run (recordStep (emitting monitors)) (l, t) order = some (l', t')) :
    l'.seq = l.seq + order.length := by
  induction order generalizing l t with
  | nil =>
    cases h
    exact (Int.add_zero _).symm
  | cons g order ih =>
    obtain ⟨⟨l₁, t₁⟩, hf, hr⟩ := Option.bind_eq_some_iff.mp h
    obtain ⟨a, rest, -, heq⟩ := recordStep_some hf
    have hseq : l₁.seq = l.seq + 1 := congrArg (fun st => st.1.seq) heq
    rw [ih hr, hseq, List.length_cons]
    push_cast
    omega

theorem seq_lt_of_next {st : EventLog × List (List EmitArgs)} {order₁ order₂ : List Nat}
    {g₁ g₂ : Nat} {e₁ e₂ : Event} (h₁ : NextIs (emitting monitors) st order₁ g₁ e₁)
    (h₂ : NextIs (emitting monitors) st (order₁ ++ g₁ :: order₂) g₂ e₂) : e₁.seq < e₂.seq := by
  obtain ⟨l₁, t₁, a₁, r₁, hrun₁, -, rfl⟩ := h₁
  obtain ⟨l₂, t₂, a₂, r₂, hrun₂, -, rfl⟩ := h₂
  rw [runs.run_append hrun₁] at hrun₂
  have hseq := seq_of_records hrun₂
  have hlast₁ : ((emitting monitors).entry l₁ a₁).seq = l₁.seq + 1 := rfl
  have hlast₂ : ((emitting monitors).entry l₂ a₂).seq = l₂.seq + 1 := rfl
  rw [hlast₁, hlast₂, hseq, List.length_cons]
  push_cast
  omega

theorem start_pending : (start monitors programs).pending = (newEventLog, programs) := by
  simp only [start, Bus.pending, List.map_map, Function.comp_def, List.map_id']

theorem start_idle : ∀ em ∈ (start monitors programs).emitters, em.phase = .idle := by
  intro em hem
  obtain ⟨todo, -, rfl⟩ := List.mem_map.mp hem
  rfl

end runs

/-- A monitor folds the log in order exactly when no goroutine can record a
matching event between a matching event of another goroutine and the next emit of
that one. -/
theorem monitor_folds_in_order_iff (monitors : List (Monitor V)) (programs : List (List EmitArgs))
    (id : Fin monitors.length) :
    FoldsInOrder monitors programs id ↔
      ¬ Overtakes (emitting monitors) (newEventLog, programs) (monitors.get id).wants := by
  have hmem : id ∈ (start monitors programs).subs := List.mem_finRange id
  have hn : (start monitors programs).subs.Nodup := List.nodup_finRange _
  rw [← start_pending]
  constructor
  · intro hf ho
    obtain ⟨sched, b, order₁, g₁, order₂, g₂, e₁, e₂, hrun, hnext₁, hnext₂, hsub⟩ :=
      exists_overtaking_run (observes id) hmem hn start_idle ho
    have hs := (hf b ⟨sched, hrun⟩).1.sublist hsub
    have hb : e₂.seq < e₁.seq := List.rel_of_pairwise_cons hs List.mem_cons_self
    exact lt_asymm hb (seq_lt_of_next hnext₁ hnext₂)
  · intro hno b hr
    obtain ⟨hnu, hfo⟩ := run_keeps hr
    obtain ⟨sched, hrun⟩ := hr
    have hin := run_inOrder (observes id) hno hmem hn start_idle rfl hrun
    refine ⟨(hnu.sorted.filter _).sublist (seen_isPrefix hin).sublist, fun hfin herr => ?_⟩
    rw [seen_of_finished hin hfin]
    exact hfo id herr

/-- A monitor that keeps the numbers of the events of its type. -/
def numbersOf (typ : String) : Monitor (List Int) where
  name := "numbers"
  on := some (matchType typ)
  stateInit := []
  update := some fun ev state => .ok (state ++ [ev.seq])
  check := none

def balance : EmitArgs := ⟨"account.balance", "bank", ∅⟩

/-- The first goroutine is held up after its record, and the second one overtakes it. -/
theorem two_goroutines_reverse_the_events :
    ∃ b, Reaches [numbersOf "account.balance"] [[balance], [balance]] b ∧ b.Finished ∧
      (b.shared 0).errors = [] ∧ (b.shared 0).state = [2, 1] ∧
      (numbersOf "account.balance").fold
        (b.log.events.filter (numbersOf "account.balance").wants) = .ok [1, 2] := by
  refine ⟨_, ⟨[0, 1, 1, 1, 1, 0, 0, 0], rfl⟩, ?_, rfl, rfl, rfl⟩
  intro em hem
  rcases List.mem_cons.mp hem with rfl | hem
  · exact ⟨rfl, rfl⟩
  · rcases List.mem_cons.mp hem with rfl | hem
    · exact ⟨rfl, rfl⟩
    · cases hem

end faultbox.monitors
