-- Wait on the hold queue: it parks on the condition of the queue, and a helper broadcasts when
-- the context is cancelled. The law: once the context is cancelled and the helper is done, the
-- wait is not parked. The helper does not take the lock, so its broadcast can fall between the
-- check of the context and the park, and the law holds exactly where Wait never comes to park.
import Faultbox.HoldQueue

open runs

namespace faultbox.hold_wait

/-! ## The two goroutines -/

/-- Where `Wait` stands: before the lock, at the test of the loop, at the test of the context, at
the registration, which unlocks, parked, at the last test, or back. -/
inductive Waiter where
  | locking
  | checking
  | asking
  | registering
  | parked
  | leaving
  | returned (cancelled : Bool)
deriving DecidableEq

/-- The helper: in its select, at the broadcast, or done. -/
inductive Helper where
  | watching
  | broadcasting
  | finished

structure State where
  waiter : Waiter
  helper : Helper
  cancelled : Bool

def start (cancelled : Bool) : State := ⟨.locking, .watching, cancelled⟩

inductive Act where
  | cancel
  | waiter
  | helper
  | helperDone

/-- One step of `Wait`. Nobody else asks for the lock. -/
def stepWaiter (q : hold_queue.State) (count : Int) (s : State) : Option State :=
  match s.waiter with
  | .locking => some { s with waiter := .checking }
  | .checking =>
    some { s with waiter :=
      if (q.pending.len : Int) < count ∧ q.closed = false then .asking else .leaving }
  | .asking => some { s with waiter := if s.cancelled then .returned true else .registering }
  | .registering => some { s with waiter := .parked }
  | .parked => none
  | .leaving => some { s with waiter := .returned s.cancelled }
  | .returned _ => none

/-- The helper sees the cancelled context, and wakes the wait if it is parked. -/
def stepHelper (s : State) : Option State :=
  match s.helper with
  | .watching => if s.cancelled then some { s with helper := .broadcasting } else none
  | .broadcasting =>
    some { s with
      helper := .finished
      waiter := if s.waiter = .parked then .locking else s.waiter }
  | .finished => none

/-- `done` is closed when `Wait` returns. -/
def stepHelperDone (s : State) : Option State :=
  match s.helper, s.waiter with
  | .watching, .returned _ => some { s with helper := .finished }
  | _, _ => none

def step (q : hold_queue.State) (count : Int) (s : State) : Act → Option State
  | .cancel => some { s with cancelled := true }
  | .waiter => stepWaiter q count s
  | .helper => stepHelper s
  | .helperDone => stepHelperDone s

/-! ## The law -/

/-- The context is cancelled, the helper is done, and the wait is parked. -/
def Asleep (s : State) : Prop :=
  s.cancelled = true ∧ s.helper = .finished ∧ s.waiter = .parked

/-- A cancelled wait wakes up. -/
def WakesUp (q : hold_queue.State) (count : Int) (cancelled : Bool) : Prop :=
  ∀ s, Leads (step q count) (start cancelled) s → ¬Asleep s

/-- The wait does not come to the condition: the loop is not entered, or it finds the context
cancelled. -/
structure Awake (q : hold_queue.State) (count : Int) (cancelled : Bool) (s : State) : Prop where
  kept : cancelled = true → s.cancelled = true
  asking : s.waiter = .asking → (q.pending.len : Int) < count ∧ q.closed = false
  up : s.waiter ≠ .registering ∧ s.waiter ≠ .parked

section awake

variable {q : hold_queue.State} {count : Int} {cancelled : Bool}

theorem awake_step (hc : q.closed = true ∨ count ≤ q.pending.len ∨ cancelled = true)
    (s : State) (a : Act) (t : State) (hs : step q count s a = some t)
    (h : Awake q count cancelled s) : Awake q count cancelled t := by
  obtain ⟨hk, ha, hreg, hp⟩ := h
  cases a with
  | cancel =>
    cases hs
    exact ⟨fun _ => rfl, ha, hreg, hp⟩
  | waiter =>
    simp only [step, stepWaiter] at hs
    cases hpl : s.waiter with
    | locking =>
      simp only [hpl, Option.some.injEq] at hs
      subst hs
      exact ⟨hk, by simp, by simp, by simp⟩
    | checking =>
      simp only [hpl, Option.some.injEq] at hs
      subst hs
      refine ⟨hk, ?_, ?_, ?_⟩
      · dsimp only
        split
        · rename_i hfew
          exact fun _ => hfew
        · simp
      · dsimp only
        split <;> simp
      · dsimp only
        split <;> simp
    | asking =>
      simp only [hpl, Option.some.injEq] at hs
      subst hs
      -- the loop was entered, so the context was cancelled from the start
      obtain ⟨hfew, ho⟩ := ha hpl
      have hca : s.cancelled = true := by
        rcases hc with hcl | hm | hca
        · rw [ho] at hcl
          cases hcl
        · omega
        · exact hk hca
      rw [hca]
      exact ⟨fun _ => rfl, by simp, by simp, by simp⟩
    | registering => exact absurd hpl hreg
    | parked => exact absurd hpl hp
    | leaving =>
      simp only [hpl, Option.some.injEq] at hs
      subst hs
      exact ⟨hk, by simp, by simp, by simp⟩
    | returned _ => simp [hpl] at hs
  | helper =>
    simp only [step, stepHelper] at hs
    split at hs
    · split at hs
      · cases hs
        exact ⟨hk, ha, hreg, hp⟩
      · cases hs
    · cases hs
      rw [if_neg hp]
      exact ⟨hk, ha, hreg, hp⟩
    · cases hs
  | helperDone =>
    simp only [step, stepHelperDone] at hs
    split at hs
    · cases hs
      exact ⟨hk, ha, hreg, hp⟩
    · cases hs

theorem leads_asleep (ho : q.closed = false) (hfew : (q.pending.len : Int) < count) :
    Leads (step q count) (start false) ⟨.parked, .finished, true⟩ := by
  refine ⟨[.waiter, .waiter, .waiter, .cancel, .helper, .helper, .waiter], ?_⟩
  simp [run, step, stepWaiter, stepHelper, start, ho, hfew]

/-- A cancelled wait wakes up exactly where it cannot park: the queue is closed, it holds enough
calls already, or the context was cancelled before the wait. -/
theorem wakesUp_iff (q : hold_queue.State) (count : Int) (cancelled : Bool) :
    WakesUp q count cancelled ↔
      q.closed = true ∨ count ≤ q.pending.len ∨ cancelled = true := by
  constructor
  · intro hw
    by_contra hnot
    push Not at hnot
    obtain ⟨ho, hfew, hc⟩ := hnot
    have hs := leads_asleep (Bool.eq_false_iff.mpr ho) hfew
    rw [← Bool.eq_false_iff.mpr hc] at hs
    exact hw _ hs ⟨rfl, rfl, rfl⟩
  · intro hco s hl ha
    have hs : Awake q count cancelled (start cancelled) :=
      ⟨fun h => h, by simp [start], by simp [start], by simp [start]⟩
    have hend := hl.preserves _ (awake_step hco) hs
    exact hend.up.2 ha.2.2

end awake

/-- A wait for one call on an empty queue can sleep through its cancellation. -/
theorem empty_queue_sleeps : ¬WakesUp hold_queue.newHoldQueue 1 false := by
  intro hw
  have hs : Leads (step hold_queue.newHoldQueue 1) (start false) ⟨.parked, .finished, true⟩ :=
    leads_asleep rfl (by decide)
  exact hw _ hs ⟨rfl, rfl, rfl⟩

end faultbox.hold_wait
