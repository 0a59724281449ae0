-- The calls of the runtime on one expectation, one after the other. Two flags
-- remember what the predicate was seen to be: a failure violates an `always` for
-- good, and a success satisfies an `eventually` for good.
import Faultbox.Runs
import Faultbox.Temporal

open faultbox.event_log

namespace faultbox.temporal

def Call.log : Call → Option EventLog
  | .evaluate log => some log
  | .finalize log _ => some log
  | .signal _ => none

def ExpectationVal.predicate : ExpectationVal → Callable
  | .eventually e => e.predicate
  | .always a => a.predicate

def ExpectationVal.callsPredicate : ExpectationVal → EventLog → Bool
  | .eventually e, log => e.callsPredicate log
  | .always a, log => a.callsPredicate log

/-- What a call sees the predicate to be: nothing when it does not evaluate it,
and false also when the predicate raises. -/
def ExpectationVal.sees (x : ExpectationVal) (c : Call) : Option Bool :=
  c.log.bind fun log => if x.callsPredicate log then some (x.predicate.holds log) else none

/-- The call evaluates the predicate of an `always` inside its open window, and
the predicate returns false or raises. -/
def ExpectationVal.breaks (x : ExpectationVal) (c : Call) : Bool :=
  match x with
  | .always _ => x.sees c == some false
  | .eventually _ => false

def ExpectationVal.violated : ExpectationVal → Bool
  | .always a => a.violated
  | .eventually _ => false

/-! ## One call -/

theorem answer_snd_of_log {x : ExpectationVal} {c : Call} {log : EventLog} (h : c.log = some log) :
    (x.answer c).2 = (x.evaluate log).2 := by
  cases c with
  | evaluate l =>
    cases h
    rfl
  | finalize l cause =>
    cases h
    cases x with
    | eventually e =>
      simp only [ExpectationVal.answer, ExpectationVal.finalize, ExpectationVal.evaluate,
        EventuallyExpectation.finalize_snd]
    | always a =>
      simp only [ExpectationVal.answer, ExpectationVal.finalize, ExpectationVal.evaluate,
        AlwaysExpectation.finalize_snd]
  | signal anchor => cases h

theorem answer_snd_of_noLog {x : ExpectationVal} {c : Call} (h : c.log = none) :
    ∃ anchor, c = .signal anchor ∧ (x.answer c).2 = x.signal anchor := by
  cases c with
  | evaluate l => cases h
  | finalize l cause => cases h
  | signal anchor => exact ⟨anchor, rfl, rfl⟩

/-- An `always` is violated after a call when it was before, or when the call breaks it. -/
theorem answer_violated (x : ExpectationVal) (c : Call) :
    (x.answer c).2.violated = (x.violated || x.breaks c) := by
  cases hl : c.log with
  | some log =>
    rw [answer_snd_of_log hl]
    cases x with
    | eventually e => rfl
    | always a =>
      have hs : (ExpectationVal.always a).breaks c =
          (a.callsPredicate log && !a.predicate.holds log) := by
        cases hc : a.callsPredicate log <;> cases hp : a.predicate.holds log <;>
          simp [ExpectationVal.breaks, ExpectationVal.sees, ExpectationVal.callsPredicate,
            ExpectationVal.predicate, hl, hc, hp]
      rw [hs]
      exact a.evaluate_violated log
  | none =>
    obtain ⟨anchor, rfl, h⟩ := answer_snd_of_noLog (x := x) hl
    rw [h]
    cases x with
    | eventually e => rfl
    | always a =>
      simp [ExpectationVal.signal, ExpectationVal.violated, ExpectationVal.breaks,
        ExpectationVal.sees, Call.log, a.signal_eq]

/-- A violated `always` is finalized to fail, and only a violated one. -/
theorem final_fail_of_violated {a : AlwaysExpectation} {log : EventLog} {cause : TerminationCause} :
    ((ExpectationVal.always a).finalize log cause).1.1 = .fail ↔
      ((ExpectationVal.always a).answer (.finalize log cause)).2.violated = true := by
  rw [answer_snd_of_log rfl]
  exact a.finalize_fail_iff log cause

end faultbox.temporal
