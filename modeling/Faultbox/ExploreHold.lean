-- parallel() while interleavings are explored (parallelWithExplore): the system calls
-- of the services are held in queues, and one scheduler releases what it finds in the
-- queue of one service, once. The laws: a call that is held once the scheduler has
-- finished stays held for as long as a callable waits for it, and there is
-- no such state exactly when no service has its calls held.
import Faultbox.Runs
import Faultbox.Suite

namespace faultbox.explore_hold

/-! ## The hold queue and the order of releases -/

/-- `HoldQueue.ReleaseByIndex`: the entry that is released, and what is still pending. -/
def releaseByIndex (pending : List Nat) (i : Nat) : Option (Nat × List Nat) :=
  (pending[i]?).map fun id => (id, pending.eraseIdx i)

/-- The loop of `PermutationFromIndex`, over the digits that are still to come. -/
def pickDigits : Nat → List Nat → Nat → List Nat
  | 0, _, _ => []
  | k + 1, available, index =>
    let f := suite.engineFactorial k
    (available[index / f]?).getD 0 :: pickDigits k (available.eraseIdx (index / f)) (index % f)

def permutationFromIndex (n index : Nat) : List Nat :=
  pickDigits n (List.range n) (index % suite.engineFactorial n)

/-- Where the entry that stood at `target` stands now. -/
def currentIndex (target : Nat) (released : List Nat) : Nat :=
  target - released.countP fun prev => prev < target

/-! ## The machine -/

/-- A running service: mocks have no session, nondet() exempts a service. -/
structure Service where
  name : String
  hasSession : Bool
  nondet : Bool
deriving DecidableEq

def Service.holdable (svc : Service) : Bool := svc.hasSession && !svc.nondet

/-- What parallel() runs in: the services, the number of the permutation, and
for each callable the system calls that it waits for, by service and name. -/
structure World where
  services : List Service
  callables : List (List (String × String))
  explorePerm : Nat
  distinct : (services.map (·.name)).Nodup
  atLeastTwo : 2 ≤ callables.length

def heldSyscalls : List String :=
  ["write", "read", "connect", "openat", "fsync", "sendto", "recvfrom", "writev"]

/-- The goroutine of a callable: the calls to come, and the one that it waits for. -/
structure Callable where
  todo : List (String × String)
  waitsFor : Option Nat
  finished : Bool

/-- The goroutine of the scheduler. -/
inductive Scheduler where
  | idle
  | picking
  | waiting (svc : String)
  | pausing (svc : String)
  | releasing (svc : String) (perm released : List Nat)
  | finished
deriving DecidableEq

/-- The goroutine that called parallel(). -/
inductive Phase where
  | installing (todo : List Service)
  | waiting
  | joined
  | cleaning (todo : List Service)
  | returned
deriving DecidableEq

structure State where
  phase : Phase
  scheduler : Scheduler
  /-- The queue of a service under the current tag. -/
  queues : String → Option (List Nat)
  callables : List Callable
  answered : List Nat
  nextID : Nat

def start (w : World) : State := ⟨.installing w.services, .idle, fun _ => none, [], [], 0⟩

/-- A system call of a service: it is held where a hold rule names it, and answered
otherwise. -/
def State.arrive (s : State) (svc syscall : String) : State :=
  match s.queues svc with
  | some q =>
    if syscall ∈ heldSyscalls then
      { s with
        queues := Function.update s.queues svc (some (q ++ [s.nextID]))
        nextID := s.nextID + 1 }
    else { s with answered := s.nextID :: s.answered, nextID := s.nextID + 1 }
  | none => { s with answered := s.nextID :: s.answered, nextID := s.nextID + 1 }

/-- One step of one goroutine, or a system call of a service. -/
inductive Act where
  | install
  | launch
  | call (i : Nat)
  | resume (i : Nat)
  | finish (i : Nat)
  | syscall (svc name : String)
  | pick (svc : String)
  | pickNone
  | wake
  | timeout
  | count (expired : Bool)
  | release
  | join
  | schedDone
  | clean

/-- The loop that installs the hold rules, and the start of the goroutines. -/
def stepInstall (s : State) : Option State :=
  match s.phase with
  | .installing (svc :: rest) =>
    some { s with
      phase := .installing rest
      queues := if svc.holdable then Function.update s.queues svc.name (some []) else s.queues }
  | _ => none

def stepLaunch (w : World) (s : State) : Option State :=
  match s.phase with
  | .installing [] =>
    some { s with
      phase := .waiting
      scheduler := .picking
      callables := w.callables.map fun todo => ⟨todo, none, false⟩ }
  | _ => none

/-- A callable makes its next call, goes on after the answer, or returns. -/
def stepCall (s : State) (i : Nat) : Option State :=
  match s.callables[i]? with
  | some ⟨(svc, syscall) :: todo, none, false⟩ =>
    some { s.arrive svc syscall with
      callables := s.callables.set i ⟨todo, some s.nextID, false⟩ }
  | _ => none

def stepResume (s : State) (i : Nat) : Option State :=
  match s.callables[i]? with
  | some ⟨todo, some id, false⟩ =>
    if id ∈ s.answered then some { s with callables := s.callables.set i ⟨todo, none, false⟩ }
    else none
  | _ => none

def stepFinish (s : State) (i : Nat) : Option State :=
  match s.callables[i]? with
  | some ⟨[], none, false⟩ => some { s with callables := s.callables.set i ⟨[], none, true⟩ }
  | _ => none

/-- The scheduler takes the queue of the first service that has one; the order of the
map is any. -/
def stepPick (s : State) (svc : String) : Option State :=
  match s.scheduler, s.queues svc with
  | .picking, some _ => some { s with scheduler := .waiting svc }
  | _, _ => none

def stepPickNone (w : World) (s : State) : Option State :=
  if s.scheduler = .picking ∧ (w.services.all fun svc => (s.queues svc.name).isNone) = true then
    some { s with scheduler := .finished }
  else none

/-- `Wait(1)` ends with a call in the queue, or with the deadline. -/
def stepWake (s : State) : Option State :=
  match s.scheduler with
  | .waiting svc =>
    match s.queues svc with
    | some (_ :: _) => some { s with scheduler := .pausing svc }
    | _ => none
  | _ => none

def stepTimeout (s : State) : Option State :=
  match s.scheduler with
  | .waiting _ => some { s with scheduler := .finished }
  | _ => none

/-- After the pause the scheduler counts the queue, and gives up when the deadline is
over. -/
def stepCount (w : World) (s : State) (expired : Bool) : Option State :=
  match s.scheduler with
  | .pausing svc =>
    let n := ((s.queues svc).getD []).length
    some { s with scheduler :=
      if n = 0 ∨ expired = true then .finished
      else .releasing svc (permutationFromIndex n w.explorePerm) [] }
  | _ => none

/-- One turn of the loop of `ReleaseInOrder`; a release that fails ends it. -/
def stepRelease (s : State) : Option State :=
  match s.scheduler with
  | .releasing _ [] _ => some { s with scheduler := .finished }
  | .releasing svc (target :: rest) released =>
    match (s.queues svc).bind (releaseByIndex · (currentIndex target released)) with
    | some (id, q) =>
      some { s with
        scheduler := .releasing svc rest (target :: released)
        queues := Function.update s.queues svc (some q)
        answered := id :: s.answered }
    | none => some { s with scheduler := .finished }
  | _ => none

/-- `wg.Wait()`. -/
def stepJoin (s : State) : Option State :=
  if s.phase = .waiting ∧ (s.callables.all (·.finished)) = true then
    some { s with phase := .joined }
  else none

/-- `<-schedDone`. -/
def stepSchedDone (w : World) (s : State) : Option State :=
  if s.phase = .joined ∧ s.scheduler = .finished then some { s with phase := .cleaning w.services }
  else none

/-- The deferred loop: `RemoveHoldRules` closes the queue of a service. -/
def stepClean (s : State) : Option State :=
  match s.phase with
  | .cleaning (svc :: rest) =>
    some (if svc.holdable then
      { s with
        phase := .cleaning rest
        queues := Function.update s.queues svc.name none
        answered := (s.queues svc.name).getD [] ++ s.answered }
    else { s with phase := .cleaning rest })
  | .cleaning [] => some { s with phase := .returned }
  | _ => none

def step (w : World) (s : State) : Act → Option State
  | .install => stepInstall s
  | .launch => stepLaunch w s
  | .call i => stepCall s i
  | .resume i => stepResume s i
  | .finish i => stepFinish s i
  | .syscall svc name => some (s.arrive svc name)
  | .pick svc => stepPick s svc
  | .pickNone => stepPickNone w s
  | .wake => stepWake s
  | .timeout => stepTimeout s
  | .count expired => stepCount w s expired
  | .release => stepRelease s
  | .join => stepJoin s
  | .schedDone => stepSchedDone w s
  | .clean => stepClean s

/-! ## Stranded calls -/

/-- The call is in a queue. -/
def State.Holds (s : State) (id : Nat) : Prop := ∃ svc q, s.queues svc = some q ∧ id ∈ q

/-- The scheduler has finished, a call is held, and parallel() waits for a callable. -/
def Stranded (s : State) : Prop :=
  s.scheduler = .finished ∧ (∃ id, s.Holds id) ∧ s.phase = .waiting ∧
    ∃ c ∈ s.callables, c.finished = false

/-- A callable waits for a call that is held and not answered, and nothing is left to
release it. -/
structure StuckOn (s : State) (i id : Nat) : Prop where
  scheduler : s.scheduler = .finished
  phase : s.phase = .waiting
  blocked : ∃ todo, s.callables[i]? = some ⟨todo, some id, false⟩
  held : s.Holds id
  known : id < s.nextID
  unanswered : id ∉ s.answered

section arrive

variable {s : State} {svc syscall : String} {id : Nat}

@[simp] theorem arrive_phase : (s.arrive svc syscall).phase = s.phase := by
  unfold State.arrive
  split
  · split <;> rfl
  · rfl

@[simp] theorem arrive_scheduler : (s.arrive svc syscall).scheduler = s.scheduler := by
  unfold State.arrive
  split
  · split <;> rfl
  · rfl

@[simp] theorem arrive_callables : (s.arrive svc syscall).callables = s.callables := by
  unfold State.arrive
  split
  · split <;> rfl
  · rfl

@[simp] theorem arrive_nextID : (s.arrive svc syscall).nextID = s.nextID + 1 := by
  unfold State.arrive
  split
  · split <;> rfl
  · rfl

theorem arrive_answered (s : State) (svc syscall : String) :
    (s.arrive svc syscall).answered = s.answered ∨
      (s.arrive svc syscall).answered = s.nextID :: s.answered := by
  unfold State.arrive
  split
  · split
    · exact .inl rfl
    · exact .inr rfl
  · exact .inr rfl

theorem arrive_holds (h : s.Holds id) : (s.arrive svc syscall).Holds id := by
  obtain ⟨name, q, hq, hmem⟩ := h
  unfold State.arrive
  split
  · rename_i q' hq'
    split
    · by_cases hn : name = svc
      · subst hn
        rw [hq] at hq'
        cases hq'
        exact ⟨name, q ++ [s.nextID], Function.update_self .., List.mem_append_left _ hmem⟩
      · exact ⟨name, q, (Function.update_of_ne hn _ _).trans hq, hmem⟩
    · exact ⟨name, q, hq, hmem⟩
  · exact ⟨name, q, hq, hmem⟩

theorem arrive_queues {name : String} (h : (s.arrive svc syscall).queues name ≠ none) :
    s.queues name ≠ none := by
  unfold State.arrive at h
  split at h
  · rename_i q hq
    split at h
    · by_cases hn : name = svc
      · rw [hn, hq]
        exact Option.some_ne_none q
      · intro hno
        exact h ((Function.update_of_ne hn _ _).trans hno)
    · exact h
  · exact h

end arrive

/-! ## A stuck callable stays stuck -/

section stuck

variable {w : World} {s t : State} {i id : Nat}

theorem StuckOn.arrived (h : StuckOn s i id) (svc syscall : String) (callables : List Callable)
    (hc : callables[i]? = s.callables[i]?) :
    StuckOn { s.arrive svc syscall with callables := callables } i id where
  scheduler := arrive_scheduler.trans h.scheduler
  phase := arrive_phase.trans h.phase
  blocked := by
    obtain ⟨todo, ht⟩ := h.blocked
    exact ⟨todo, hc.trans ht⟩
  held := arrive_holds h.held
  known := by
    have hn : (s.arrive svc syscall).nextID = s.nextID + 1 := arrive_nextID
    exact hn ▸ Nat.lt_succ_of_lt h.known
  unanswered := by
    intro hmem
    rcases arrive_answered s svc syscall with heq | heq
    · exact h.unanswered (heq ▸ hmem)
    · rcases List.mem_cons.mp (heq ▸ hmem) with hid | hans
      · exact absurd hid (Nat.ne_of_lt h.known)
      · exact h.unanswered hans

theorem StuckOn.set_other (h : StuckOn s i id) {j : Nat} (hne : j ≠ i) (c : Callable) :
    StuckOn { s with callables := s.callables.set j c } i id where
  scheduler := h.scheduler
  phase := h.phase
  blocked := by
    obtain ⟨todo, ht⟩ := h.blocked
    exact ⟨todo, by rw [← ht]; exact List.getElem?_set_ne hne⟩
  held := h.held
  known := h.known
  unanswered := h.unanswered

theorem stuck_step {a : Act} (hs : step w s a = some t) (h : StuckOn s i id) :
    StuckOn t i id := by
  obtain ⟨todo, hb⟩ := h.blocked
  cases a with
  | install => simp [step, stepInstall, h.phase] at hs
  | launch => simp [step, stepLaunch, h.phase] at hs
  | call j =>
    simp only [step, stepCall] at hs
    split at hs
    · rename_i svc syscall rest hj
      cases hs
      -- the stuck callable makes no call
      have hne : j ≠ i := by
        rintro rfl
        rw [hb] at hj
        cases hj
      exact h.arrived svc syscall _ (List.getElem?_set_ne hne)
    · cases hs
  | resume j =>
    simp only [step, stepResume] at hs
    split at hs
    · rename_i todo' id' hj
      obtain ⟨hans, rfl⟩ := runs.of_guard hs
      have hne : j ≠ i := by
        rintro rfl
        rw [hb] at hj
        cases hj
        exact h.unanswered hans
      exact h.set_other hne _
    · cases hs
  | finish j =>
    simp only [step, stepFinish] at hs
    split at hs
    · rename_i hj
      cases hs
      have hne : j ≠ i := by
        rintro rfl
        rw [hb] at hj
        cases hj
      exact h.set_other hne _
    · cases hs
  | syscall svc name =>
    cases hs
    have ha := h.arrived svc name (s.arrive svc name).callables (by rw [arrive_callables])
    exact ha
  | pick svc => simp [step, stepPick, h.scheduler] at hs
  | pickNone => simp [step, stepPickNone, h.scheduler] at hs
  | wake => simp [step, stepWake, h.scheduler] at hs
  | timeout => simp [step, stepTimeout, h.scheduler] at hs
  | count expired => simp [step, stepCount, h.scheduler] at hs
  | release => simp [step, stepRelease, h.scheduler] at hs
  | join =>
    -- the stuck callable has not finished
    have hall : ¬ (s.callables.all (·.finished)) = true := by
      intro hall
      have hc := List.all_eq_true.mp hall _ (List.mem_of_getElem? hb)
      cases hc
    simp [step, stepJoin, hall] at hs
  | schedDone => simp [step, stepSchedDone, h.phase] at hs
  | clean => simp [step, stepClean, h.phase] at hs

theorem stuck_forever {acts : List Act} (hrun : runs.run (step w) s acts = some t)
    (h : StuckOn s i id) : StuckOn t i id :=
  runs.run_preserves (fun s => StuckOn s i id) (fun _ _ _ hs h => stuck_step hs h) hrun h

theorem StuckOn.stranded (h : StuckOn s i id) : Stranded s := by
  obtain ⟨todo, hb⟩ := h.blocked
  exact ⟨h.scheduler, ⟨id, h.held⟩, h.phase, _, List.mem_of_getElem? hb, rfl⟩

theorem StuckOn.stranded_after (i id : Nat) (h : StuckOn s i id) :
    Stranded s ∧ ∀ acts t, runs.run (step w) s acts = some t → Stranded t :=
  ⟨h.stranded, fun _ _ hrun => (stuck_forever hrun h).stranded⟩

end stuck

/-! ## Who has a queue -/

/-- A step that installs nothing: it makes no queue, and the loop that installs the hold
rules is where it was, or over. -/
structure Keeps (s t : State) : Prop where
  queues : ∀ name, t.queues name ≠ none → s.queues name ≠ none
  installing : ∀ todo, t.phase = .installing todo → s.phase = .installing todo

def installed (s : State) (svc : Service) (rest : List Service) : State :=
  { s with
    phase := .installing rest
    queues := if svc.holdable then Function.update s.queues svc.name (some []) else s.queues }

section keeps

variable {w : World} {s t : State}

theorem keeps_of_eq (hq : t.queues = s.queues) (hp : t.phase = s.phase) : Keeps s t where
  queues name h := by rwa [← hq]
  installing todo h := by rwa [← hp]

theorem keeps_of_moved (hq : ∀ name, t.queues name ≠ none → s.queues name ≠ none)
    (hp : ∀ todo, t.phase ≠ .installing todo) : Keeps s t where
  queues := hq
  installing todo h := absurd h (hp todo)

theorem keeps_arrive (svc syscall : String) (callables : List Callable) :
    Keeps s { s.arrive svc syscall with callables := callables } where
  queues _ h := arrive_queues h
  installing _ h := arrive_phase.symm.trans h

theorem keeps_update {svc : String} {q : List Nat} (hq : s.queues svc ≠ none)
    (sched : Scheduler) (answered : List Nat) :
    Keeps s { s with
      scheduler := sched
      queues := Function.update s.queues svc (some q)
      answered := answered } where
  queues name h := by
    by_cases hn : name = svc
    · rwa [hn]
    · exact fun hno => h ((Function.update_of_ne hn _ _).trans hno)
  installing _ h := h

/-- A step makes a queue only in the loop that installs the hold rules. -/
theorem step_keeps {a : Act} (hs : step w s a = some t) :
    (∃ svc rest, s.phase = .installing (svc :: rest) ∧ t = installed s svc rest) ∨ Keeps s t := by
  cases a with
  | install =>
    simp only [step, stepInstall] at hs
    split at hs
    · rename_i svc rest hp
      cases hs
      exact .inl ⟨svc, rest, hp, rfl⟩
    · cases hs
  | launch =>
    simp only [step, stepLaunch] at hs
    split at hs
    · cases hs
      exact .inr (keeps_of_moved (fun _ h => h) (fun _ h => nomatch h))
    · cases hs
  | call j =>
    simp only [step, stepCall] at hs
    split at hs
    · cases hs
      exact .inr (keeps_arrive ..)
    · cases hs
  | resume j =>
    simp only [step, stepResume] at hs
    split at hs
    · split at hs
      · cases hs
        exact .inr (keeps_of_eq rfl rfl)
      · cases hs
    · cases hs
  | finish j =>
    simp only [step, stepFinish] at hs
    split at hs
    · cases hs
      exact .inr (keeps_of_eq rfl rfl)
    · cases hs
  | syscall svc name =>
    cases hs
    exact .inr (keeps_arrive svc name (s.arrive svc name).callables)
  | pick svc =>
    simp only [step, stepPick] at hs
    split at hs
    · cases hs
      exact .inr (keeps_of_eq rfl rfl)
    · cases hs
  | pickNone =>
    simp only [step, stepPickNone] at hs
    obtain ⟨-, rfl⟩ := runs.of_guard hs
    exact .inr (keeps_of_eq rfl rfl)
  | wake =>
    simp only [step, stepWake] at hs
    split at hs
    · split at hs
      · cases hs
        exact .inr (keeps_of_eq rfl rfl)
      · cases hs
    · cases hs
  | timeout =>
    simp only [step, stepTimeout] at hs
    split at hs
    · cases hs
      exact .inr (keeps_of_eq rfl rfl)
    · cases hs
  | count expired =>
    simp only [step, stepCount] at hs
    split at hs
    · cases hs
      exact .inr (keeps_of_eq rfl rfl)
    · cases hs
  | release =>
    simp only [step, stepRelease] at hs
    split at hs
    · cases hs
      exact .inr (keeps_of_eq rfl rfl)
    · split at hs
      · rename_i hrel
        cases hs
        -- the queue that is released from was there
        obtain ⟨q', hq', -⟩ := Option.bind_eq_some_iff.mp hrel
        exact .inr (keeps_update (hq' ▸ Option.some_ne_none q') _ _)
      · cases hs
        exact .inr (keeps_of_eq rfl rfl)
    · cases hs
  | join =>
    simp only [step, stepJoin] at hs
    obtain ⟨-, rfl⟩ := runs.of_guard hs
    exact .inr (keeps_of_moved (fun _ h => h) (fun _ h => nomatch h))
  | schedDone =>
    simp only [step, stepSchedDone] at hs
    obtain ⟨-, rfl⟩ := runs.of_guard hs
    exact .inr (keeps_of_moved (fun _ h => h) (fun _ h => nomatch h))
  | clean =>
    simp only [step, stepClean] at hs
    split at hs
    · rename_i svc rest hp
      split at hs
      · cases hs
        refine .inr (keeps_of_moved (fun name h => ?_) (fun _ h => nomatch h))
        by_cases hn : name = svc.name
        · rw [hn] at h
          exact absurd (Function.update_self ..) h
        · exact fun hno => h ((Function.update_of_ne hn _ _).trans hno)
      · cases hs
        exact .inr (keeps_of_moved (fun _ h => h) (fun _ h => nomatch h))
    · cases hs
      exact .inr (keeps_of_moved (fun _ h => h) (fun _ h => nomatch h))
    · cases hs

end keeps

/-- Only services whose calls can be held have a queue. -/
structure Queued (w : World) (s : State) : Prop where
  installing : ∀ todo, s.phase = .installing todo → ∀ svc ∈ todo, svc ∈ w.services
  queues : ∀ name, s.queues name ≠ none → ∃ svc ∈ w.services, svc.holdable = true ∧ svc.name = name

section queued

variable {w : World} {s t : State}

theorem queued_start : Queued w (start w) where
  installing todo h svc hmem := by
    cases h
    exact hmem
  queues _ h := absurd rfl h

theorem queued_installed {svc : Service} {rest : List Service}
    (hp : s.phase = .installing (svc :: rest)) (h : Queued w s) :
    Queued w (installed s svc rest) where
  installing todo ht other hmem := by
    cases ht
    exact h.installing _ hp other (List.mem_cons_of_mem _ hmem)
  queues name hn := by
    by_cases hh : svc.holdable = true
    · by_cases heq : name = svc.name
      · exact ⟨svc, h.installing _ hp svc List.mem_cons_self, hh, heq.symm⟩
      · simp only [installed, hh, if_true, Function.update_of_ne heq] at hn
        exact h.queues name hn
    · simp only [installed, hh] at hn
      exact h.queues name hn

theorem queued_step {a : Act} (hs : step w s a = some t) (h : Queued w s) : Queued w t := by
  rcases step_keeps hs with ⟨svc, rest, hp, rfl⟩ | hk
  · exact queued_installed hp h
  · exact {
      installing := fun todo ht => h.installing todo (hk.installing todo ht)
      queues := fun name hn => h.queues name (hk.queues name hn) }

theorem queued_run {acts : List Act} (hrun : runs.run (step w) (start w) acts = some s) :
    Queued w s :=
  runs.run_preserves (Queued w) (fun _ _ _ hs h => queued_step hs h) hrun queued_start

theorem install_all (w : World) (todo : List Service) (s : State)
    (hp : s.phase = .installing todo) :
    ∃ t, runs.run (step w) s (List.replicate todo.length .install) = some t ∧
      t.phase = .installing [] ∧ (∀ name, s.queues name ≠ none → t.queues name ≠ none) ∧
      ∀ svc ∈ todo, svc.holdable = true → t.queues svc.name ≠ none := by
  induction todo generalizing s with
  | nil => exact ⟨s, rfl, hp, fun _ h => h, fun _ h => nomatch h⟩
  | cons svc rest ih =>
    obtain ⟨t, hrun, hd, hk, hh⟩ := ih (installed s svc rest) rfl
    have hk' : ∀ name, s.queues name ≠ none → (installed s svc rest).queues name ≠ none := by
      intro name hn
      by_cases hho : svc.holdable = true
      · by_cases heq : name = svc.name
        · simp [installed, hho, heq]
        · simpa only [installed, hho, if_true, Function.update_of_ne heq] using hn
      · simpa [installed, hho] using hn
    refine ⟨t, ?_, hd, fun name hn => hk name (hk' name hn), ?_⟩
    · rw [List.length_cons, List.replicate_succ, runs.run]
      simp only [step, stepInstall, hp, Option.bind_some]
      exact hrun
    · intro other hmem hho
      rcases List.mem_cons.mp hmem with rfl | hr
      · apply hk
        simp [installed, hho]
      · exact hh other hr hho

theorem stranded_of_holdable (w : World) {svc : Service} (hmem : svc ∈ w.services)
    (hh : svc.holdable = true) :
    ∃ acts s, runs.run (step w) (start w) acts = some s ∧ Stranded s := by
  obtain ⟨t, hi, hp, -, hhe⟩ := install_all w w.services (start w) rfl
  obtain ⟨q, hq⟩ := Option.ne_none_iff_exists'.mp (hhe svc hmem hh)
  have hl : runs.run (step w) t [.launch, .pick svc.name, .timeout] =
      some { t with
        phase := .waiting
        scheduler := .finished
        callables := w.callables.map fun todo => ⟨todo, none, false⟩ } := by
    simp only [runs.run, step, stepLaunch, hp, stepPick, hq, stepTimeout, Option.bind_some]
  obtain ⟨todo, ht⟩ :=
    List.exists_mem_of_length_pos (Nat.lt_of_lt_of_le Nat.two_pos w.atLeastTwo)
  refine ⟨_, _, (runs.run_append hi _).trans
    ((runs.run_append hl [.syscall svc.name "read"]).trans rfl), ?_⟩
  refine ⟨arrive_scheduler, ⟨t.nextID, svc.name, q ++ [t.nextID], ?_, ?_⟩, arrive_phase, ?_⟩
  · simp only [State.arrive, hq]
    exact Function.update_self ..
  · exact List.mem_append_right _ (List.mem_singleton.mpr rfl)
  · rw [arrive_callables]
    exact ⟨_, List.mem_map_of_mem ht, rfl⟩

end queued

/-! ## The law -/

/-- No run of parallel() strands a call exactly when no service has its calls held. -/
theorem strands_no_syscall_iff (w : World) :
    (∀ acts s, runs.run (step w) (start w) acts = some s → ¬ Stranded s) ↔
      ∀ svc ∈ w.services, svc.holdable = false := by
  constructor
  · intro h svc hmem
    by_contra hh
    obtain ⟨acts, s, hrun, hs⟩ := stranded_of_holdable w hmem (Bool.not_eq_false _ ▸ hh)
    exact h acts s hrun hs
  · rintro h acts s hrun ⟨-, ⟨id, name, q, hq, -⟩, -⟩
    obtain ⟨svc, hmem, hh, -⟩ := (queued_run hrun).queues name (hq ▸ Option.some_ne_none q)
    rw [h svc hmem] at hh
    cases hh

/-- Two services, and two callables that each wait for one call of one of them. -/
def twoServices : World where
  services := [⟨"a", true, false⟩, ⟨"b", true, false⟩]
  callables := [[("a", "read")], [("b", "read")]]
  explorePerm := 0
  distinct := by decide
  atLeastTwo := by decide

/-- The scheduler releases the call of one service, in time, and the call of the other one
is held for good: no step that follows lets parallel() return. -/
theorem other_service_held_forever :
    ∃ s, runs.run (step twoServices) (start twoServices)
        [.install, .install, .launch, .call 0, .call 1, .pick "a", .wake, .count false, .release,
          .release, .resume 0, .finish 0] = some s ∧
      Stranded s ∧ ∀ acts t, runs.run (step twoServices) s acts = some t → Stranded t := by
  refine ⟨_, rfl, StuckOn.stranded_after 1 1 ?_⟩
  exact {
    scheduler := rfl
    phase := rfl
    blocked := ⟨[], rfl⟩
    held := ⟨"b", [1], rfl, List.mem_singleton.mpr rfl⟩
    known := by decide
    unanswered := by decide }

end faultbox.explore_hold
