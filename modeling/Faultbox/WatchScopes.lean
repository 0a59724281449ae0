-- The registry of watch windows, over the tests of one Runtime. The law: an operation gets its
-- file_io event exactly where a window of the current test wants it, and a window that closes
-- reports the operations that it wanted. Windows outlive their test, and the counter is one for
-- the service, so the law holds exactly where no operation is wanted by windows of older tests
-- only, and a window that closes has wanted every operation that was counted for its service.
import Faultbox.GoValues
import Faultbox.PathMatch

open goval gopath faultbox.pathmatch

namespace faultbox.watch_scopes

/-! ## The registry -/

/-- `watchSpec`; the operations are the keys of the map. -/
structure WatchSpec where
  service : String
  files : List Bytes
  ops : List String
deriving DecidableEq

/-- A pointer to a spec: two calls make two of them. -/
structure Window where
  id : Nat
  spec : WatchSpec
deriving DecidableEq

/-- `seccheck.FileIO`, less the numbers that are copied into the event. -/
structure FileIO where
  op : String
  path : Bytes
deriving DecidableEq

def matchAny (patterns : List Bytes) (path : Bytes) : Bool :=
  patterns.isEmpty || patterns.any (globMatch · path)

def WatchSpec.matches (w : WatchSpec) (io : FileIO) : Bool :=
  (w.ops.isEmpty || w.ops.contains io.op) && matchAny w.files io.path

structure WatchRegistry where
  watches : GoMap String (List Window)
  observed : GoMap String Nat

def newWatchRegistry : WatchRegistry := ⟨∅, ∅⟩

namespace WatchRegistry

variable (r : WatchRegistry)

def on (service : String) : List Window := (r.watches.lookup service).getD []

def count (service : String) : Nat := (r.observed.lookup service).getD 0

def set (service : String) (list : List Window) : WatchRegistry :=
  { r with watches := r.watches.insert service list }

def add (w : Window) : WatchRegistry := r.set w.spec.service (r.on w.spec.service ++ [w])

def remove (w : Window) : WatchRegistry := r.set w.spec.service ((r.on w.spec.service).erase w)

def wanting (service : String) (io : FileIO) : List Window :=
  (r.on service).filter (·.spec.matches io)

/-- `match`: an operation that some window wants is counted for the service. -/
def observe (service : String) (io : FileIO) : WatchRegistry :=
  if (r.wanting service io).isEmpty then r
  else { r with observed := r.observed.insert service (r.count service + 1) }

end WatchRegistry

/-- What runs in a Runtime: watch_start or the entry of a watch(run=...), the return of the latter,
watch_stop, an observed operation, and the end of a test. -/
inductive Act where
  | start (spec : WatchSpec)
  | leave (w : Window)
  | stop (service : String)
  | io (service : String) (io : FileIO)
  | endTest
deriving DecidableEq

inductive Emitted where
  | nothing
  | watchStarted (spec : WatchSpec)
  | watchStopped (service : String) (observed : Nat)
  | fileIo (service : String) (io : FileIO)
  | error (text : String)
deriving DecidableEq

/-- One act in the registry, `id` being the pointer a new spec gets. The end of a test stops the
services and leaves the registry as it is. -/
def step (id : Nat) (r : WatchRegistry) : Act → WatchRegistry × Emitted
  | .start spec => (r.add ⟨id, spec⟩, .watchStarted spec)
  | .leave w => (r.remove w, .watchStopped w.spec.service (r.count w.spec.service))
  | .stop service =>
    (r.set service [],
      if (r.on service).isEmpty then
        .error ("watch_stop(" ++ quote service ++ "): no watch is active on this service")
      else .watchStopped service (r.count service))
  | .io service io =>
    (r.observe service io,
      if (r.wanting service io).isEmpty then .nothing else .fileIo service io)
  | .endTest => (r, .nothing)

/-- The registry behind a history, the last act first. -/
def after : List Act → WatchRegistry
  | [] => newWatchRegistry
  | a :: past => (step past.length (after past) a).1

def emitted (past : List Act) (a : Act) : Emitted := (step past.length (after past) a).2

/-! ## Windows of a history -/

/-- The window was opened and not closed since. -/
def alive (closes : Window → Act → Bool) (w : Window) : List Act → Bool
  | [] => false
  | a :: past =>
    (w.id = past.length && a = .start w.spec) || (alive closes w past && !closes w a)

def isClosed (w : Window) (a : Act) : Bool := a = .leave w || a = .stop w.spec.service

def isOver (w : Window) (a : Act) : Bool := isClosed w a || a = .endTest

/-- The operation comes to the service of the window, that is open in its test and wants it. -/
def wants (w : Window) (a : Act) (past : List Act) : Bool :=
  match a with
  | .io service io => service = w.spec.service && w.spec.matches io && alive isOver w past
  | _ => false

def tally (p : Act → List Act → Bool) : List Act → Nat
  | [] => 0
  | a :: past => tally p past + (p a past).toNat

/-- The operations that the window wanted. -/
def wanted (w : Window) (past : List Act) : Nat := tally (wants w) past

/-- The act answers as the windows of the current test say. -/
def Answers (a : Act) (past : List Act) : Prop :=
  match a with
  | .io service io => emitted past a = .fileIo service io ↔ ∃ w, wants w a past = true
  | _ => ∀ w, alive isOver w past = true → isClosed w a = true →
    emitted past a = .watchStopped w.spec.service (wanted w past)

def Scoped (history : List Act) : Prop :=
  ∀ post a past, history = post ++ a :: past → Answers a past

/-- Some open window, of any test, wants the operation. -/
def Counted (service : String) (a : Act) (past : List Act) : Prop :=
  ∃ io, a = .io service io ∧
    ∃ w, w.spec.service = service ∧ w.spec.matches io = true ∧ alive isClosed w past = true

/-- The operation is not wanted by windows of older tests only, and a window that closes has wanted
every operation that was counted for its service. -/
def Tidy (a : Act) (past : List Act) : Prop :=
  (∀ service, Counted service a past → ∃ w, wants w a past = true) ∧
    ∀ w, alive isOver w past = true → isClosed w a = true →
      ∀ later op before, past = later ++ op :: before → Counted w.spec.service op before →
        wants w op before = true

/-! ## The registry says what the history says -/

theorem on_set (r : WatchRegistry) (service svc : String) (list : List Window) :
    (r.set service list).on svc = if svc = service then list else r.on svc := by
  unfold WatchRegistry.set WatchRegistry.on
  by_cases h : svc = service
  · subst h
    simp
  · simp [h, AList.lookup_insert_ne h]

theorem on_observe (r : WatchRegistry) (service svc : String) (io : FileIO) :
    (r.observe service io).on svc = r.on svc := by
  unfold WatchRegistry.observe
  split <;> rfl

variable {w : Window} {past : List Act}

theorem alive_id {closes : Window → Act → Bool} (h : alive closes w past = true) :
    w.id < past.length := by
  induction past with
  | nil => simp [alive] at h
  | cons a past ih =>
    simp only [alive, Bool.or_eq_true, Bool.and_eq_true, decide_eq_true_eq] at h
    rcases h with ⟨hid, -⟩ | ⟨ha, -⟩
    · simp [hid]
    · have := ih ha
      simp
      omega

theorem on_after (past : List Act) (svc : String) : ((after past).on svc).Nodup ∧
    ∀ w, w ∈ (after past).on svc ↔ w.spec.service = svc ∧ alive isClosed w past = true := by
  induction past with
  | nil => simp [after, newWatchRegistry, WatchRegistry.on, alive]
  | cons a past ih =>
    obtain ⟨hn, hm⟩ := ih
    cases a with
    | start spec =>
      have hnew : ⟨past.length, spec⟩ ∉ (after past).on svc := fun hw => by
        have := alive_id ((hm _).mp hw).2
        simp at this
      simp only [after, step, WatchRegistry.add, on_set]
      by_cases hs : svc = spec.service
      · subst hs
        rw [if_pos rfl]
        refine ⟨List.nodup_append.mpr ⟨hn, by simp, by grind⟩, fun w => ?_⟩
        simp only [List.mem_append, hm, List.mem_singleton, alive, isClosed]
        obtain ⟨id, sp⟩ := w
        grind
      · rw [if_neg hs]
        refine ⟨hn, fun w => ?_⟩
        simp only [hm, alive, isClosed]
        grind
    | leave v =>
      simp only [after, step, WatchRegistry.remove, on_set]
      by_cases hs : svc = v.spec.service
      · subst hs
        rw [if_pos rfl]
        refine ⟨hn.erase v, fun w => ?_⟩
        simp only [hn.mem_erase_iff, hm, alive, isClosed]
        grind
      · rw [if_neg hs]
        refine ⟨hn, fun w => ?_⟩
        simp only [hm, alive, isClosed]
        grind
    | stop service =>
      simp only [after, step, on_set]
      by_cases hs : svc = service
      · simp only [if_pos hs, alive, isClosed]
        grind
      · simp only [if_neg hs, hm, alive, isClosed]
        grind
    | io service io =>
      simp only [after, step, on_observe]
      simp [hn, hm, alive, isClosed]
    | endTest =>
      simp only [after, step]
      simp [hn, hm, alive, isClosed]

def counted (service : String) (a : Act) (past : List Act) : Bool :=
  match a with
  | .io svc io => svc = service && !((after past).wanting svc io).isEmpty
  | _ => false

theorem wanting_iff (past : List Act) (service : String) (io : FileIO) :
    ((after past).wanting service io).isEmpty = false ↔ Counted service (.io service io) past := by
  rw [← Bool.not_eq_true, List.isEmpty_iff, WatchRegistry.wanting, List.filter_eq_nil_iff]
  simp only [(on_after past service).2, Counted, Act.io.injEq, true_and, exists_eq_left']
  push Not
  exact exists_congr fun w => by tauto

theorem counted_iff (service : String) (a : Act) (past : List Act) :
    counted service a past = true ↔ Counted service a past := by
  cases a with
  | io svc io =>
    by_cases hs : svc = service
    · subst hs
      rw [← wanting_iff]
      simp [counted]
    · simp [counted, Counted, hs]
  | _ => simp [counted, Counted]

theorem count_after (past : List Act) (service : String) :
    (after past).count service = tally (counted service) past := by
  induction past with
  | nil => rfl
  | cons a past ih =>
    rw [tally, ← ih]
    cases a with
    | io svc io =>
      simp only [after, step, WatchRegistry.observe, counted]
      cases he : ((after past).wanting svc io).isEmpty with
      | true => simp
      | false =>
        by_cases hs : svc = service
        · subst hs
          simp [WatchRegistry.count]
        · simp [WatchRegistry.count, hs, AList.lookup_insert_ne (Ne.symm hs)]
    | _ => rfl

section Tally

variable {p q : Act → List Act → Bool} (h : ∀ a past, q a past = true → p a past = true)
include h

theorem tally_le (past : List Act) : tally q past ≤ tally p past := by
  induction past with
  | nil => exact le_rfl
  | cons a past ih => exact Nat.add_le_add ih (Bool.toNat_le_toNat (h a past))

theorem tally_eq_iff (past : List Act) : tally p past = tally q past ↔ ∀ later op before,
    past = later ++ op :: before → p op before = true → q op before = true := by
  induction past with
  | nil => simp [tally]
  | cons a past ih =>
    have hle := tally_le h past
    have ha := h a past
    constructor
    · intro heq later op before hs hp
      cases later with
      | nil =>
        obtain ⟨rfl, rfl⟩ := List.cons.inj hs
        cases hq : q a past with
        | true => rfl
        | false =>
          simp only [tally, hp, hq] at heq
          simp at heq
          omega
      | cons b later =>
        obtain ⟨rfl, rfl⟩ := List.cons.inj hs
        refine ih.mp ?_ later op before rfl hp
        simp only [tally] at heq
        have := Bool.toNat_le_toNat ha
        omega
    · intro hall
      have hhead := hall [] a past rfl
      have htail := ih.mpr fun later op before hs => hall (a :: later) op before (by simp [hs])
      have hsame : p a past = q a past := Bool.eq_iff_iff.mpr ⟨hhead, ha⟩
      rw [tally, tally, htail, hsame]

end Tally

theorem alive_of_over (h : alive isOver w past = true) :
    alive isClosed w past = true := by
  induction past with
  | nil => exact h
  | cons a past ih =>
    simp only [alive, isOver, Bool.or_eq_true, Bool.and_eq_true, Bool.not_eq_true',
      Bool.or_eq_false_iff] at h ⊢
    exact h.imp_right fun hp => ⟨ih hp.1, hp.2.1⟩

theorem counted_of_wants {a : Act} (h : wants w a past = true) :
    Counted w.spec.service a past := by
  cases a with
  | io service io =>
    simp only [wants, Bool.and_eq_true, decide_eq_true_eq] at h
    obtain ⟨⟨rfl, hm⟩, ha⟩ := h
    exact ⟨io, rfl, w, rfl, hm, alive_of_over ha⟩
  | _ => simp [wants] at h

/-- What a window reports that closes. -/
theorem emitted_close {a : Act} (hw : alive isOver w past = true) (hc : isClosed w a = true) :
    emitted past a = .watchStopped w.spec.service (tally (counted w.spec.service) past) := by
  simp only [isClosed, Bool.or_eq_true, decide_eq_true_eq] at hc
  rw [← count_after]
  rcases hc with rfl | rfl
  · rfl
  · have hm := ((on_after past w.spec.service).2 w).mpr ⟨rfl, alive_of_over hw⟩
    have hne : ((after past).on w.spec.service).isEmpty = false := by
      simpa using List.ne_nil_of_mem hm
    simp [emitted, step, hne]

theorem answers_iff (a : Act) (past : List Act) : Answers a past ↔ Tidy a past := by
  have hclose : (∀ w, alive isOver w past = true → isClosed w a = true →
      emitted past a = .watchStopped w.spec.service (wanted w past)) ↔
      ∀ w, alive isOver w past = true → isClosed w a = true →
        ∀ later op before, past = later ++ op :: before → Counted w.spec.service op before →
          wants w op before = true := by
    refine forall_congr' fun w => forall_congr' fun hw => forall_congr' fun hc => ?_
    have hle : ∀ a past, wants w a past = true → counted w.spec.service a past = true :=
      fun a past h => (counted_iff _ a past).mpr (counted_of_wants h)
    simp only [emitted_close hw hc, Emitted.watchStopped.injEq, true_and, wanted,
      tally_eq_iff hle, counted_iff]
  cases a with
  | io service io =>
    have hemit : emitted past (.io service io) = .fileIo service io ↔
        Counted service (.io service io) past := by
      rw [← wanting_iff]
      cases he : ((after past).wanting service io).isEmpty <;> simp [emitted, step, he]
    simp only [Answers, Tidy, hemit, isClosed]
    constructor
    · intro h
      refine ⟨fun svc hc => ?_, fun w _ hc => by simp at hc⟩
      obtain ⟨io', heq, -⟩ := id hc
      cases heq
      exact h.mp hc
    · intro h
      refine ⟨h.1 service, fun hw => ?_⟩
      obtain ⟨w, hw⟩ := hw
      obtain ⟨io', heq, hrest⟩ := counted_of_wants hw
      cases heq
      exact ⟨io, rfl, hrest⟩
  | _ =>
    refine hclose.trans (and_iff_right fun _ hc => ?_).symm
    obtain ⟨_, heq, -⟩ := hc
    cases heq

/-- Windows are scoped to their test and report their own operations exactly in tidy histories. -/
theorem scoped_iff (history : List Act) :
    Scoped history ↔ ∀ post a past, history = post ++ a :: past → Tidy a past := by
  simp only [Scoped, answers_iff]

def everything : WatchSpec := ⟨"db", [], []⟩

/-- A window that was left open sees the next test; and the outer of two windows reports what only
the inner one wanted. -/
theorem left_open_window_sees_next_test :
    ¬ Scoped [.io "db" ⟨"write", []⟩, .endTest, .start everything] ∧
      ¬ Scoped [.leave ⟨0, ⟨"db", [], ["read"]⟩⟩, .leave ⟨1, everything⟩,
        .io "db" ⟨"write", []⟩, .start everything, .start ⟨"db", [], ["read"]⟩] := by
  refine ⟨fun h => ?_, fun h => ?_⟩
  · obtain ⟨w, hw⟩ := (h [] _ _ rfl).mp (by decide)
    simp [wants, alive, isOver] at hw
  · exact absurd (h [] _ _ rfl ⟨0, ⟨"db", [], ["read"]⟩⟩ (by decide) (by decide)) (by decide)

end faultbox.watch_scopes
