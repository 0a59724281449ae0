-- The temporal expectations (internal/star/temporal.go): `eventually()` and
-- `always()`, each a predicate with the flags that its evaluations set. Nothing
-- in the source ever clears a flag.
import Faultbox.EventLog

open faultbox.event_log

namespace faultbox.temporal

/-- A user predicate: its name, and the truth of its result on a log or the
error that it raises. -/
structure Callable where
  name : String
  call : EventLog → Except String Bool

def Callable.holds (p : Callable) (log : EventLog) : Bool :=
  match p.call log with
  | .ok b => b
  | .error _ => false

inductive Verdict where
  | pending | pass | fail
  deriving DecidableEq

inductive TerminationCause where
  | natural | terminateWhen | timeout | immediateFail
  deriving DecidableEq

/-- What `Evaluate` returns. -/
structure Evaluation where
  verdict : Verdict
  reason : String
  err : Option String
  deriving DecidableEq

/-! ## eventually() -/

structure EventuallyExpectation where
  predicate : Callable
  anchor : Option MatcherVal
  satisfied : Bool
  anchorReached : Bool

/-- The `eventually` that `builtinEventually` builds. -/
def newEventually (predicate : Callable) (anchor : Option MatcherVal) : EventuallyExpectation :=
  ⟨predicate, anchor, false, false⟩

def EventuallyExpectation.name (e : EventuallyExpectation) : String :=
  "eventually(" ++ e.predicate.name ++ ")"

/-- The anchor check of `Evaluate`: the flag is set once the log holds the anchor. -/
def EventuallyExpectation.pollAnchor (e : EventuallyExpectation) (log : EventLog) :
    EventuallyExpectation :=
  match e.anchor with
  | none => e
  | some m =>
    if e.anchorReached then e
    else if log.holdsMatch m then { e with anchorReached := true }
    else e

def EventuallyExpectation.started (e : EventuallyExpectation) : Bool :=
  e.anchor.isNone || e.anchorReached

def EventuallyExpectation.evaluate (e : EventuallyExpectation) (log : EventLog) :
    Evaluation × EventuallyExpectation :=
  if e.satisfied then (⟨.pass, "", none⟩, e)
  else
    let e := e.pollAnchor log
    if !e.started then (⟨.pending, "", none⟩, e)
    else
      match e.predicate.call log with
      | .error err => (⟨.fail, "predicate raised: " ++ err, some err⟩, e)
      | .ok true => (⟨.pass, "", none⟩, { e with satisfied := true })
      | .ok false => (⟨.pending, "", none⟩, e)

def EventuallyExpectation.finalize (e : EventuallyExpectation) (log : EventLog)
    (cause : TerminationCause) : (Verdict × String) × EventuallyExpectation :=
  let (ev, e) := e.evaluate log
  match ev.err with
  | some err => ((.fail, "predicate raised at termination: " ++ err), e)
  | none =>
    if ev.verdict = .pass then ((.pass, ""), e)
    else
      match cause with
      | .terminateWhen | .immediateFail =>
        ((.fail, e.name ++ " never satisfied; terminate_when fired"), e)
      | .timeout => ((.pending, e.name ++ " never satisfied within timeout"), e)
      | .natural => ((.fail, e.name ++ " never satisfied before body returned"), e)

/-! ## always() -/

/-- The lifecycle anchors that the runtime signals. -/
inductive LifecycleAnchor where
  | bodyStart | bodyEnd | stable
  deriving DecidableEq

/-- `betweenAnchor`: one end of the window. `parseBetweenAnchor` sets the name
or the matcher, never both; without `between=` neither is set. -/
inductive BetweenAnchor where
  | unset
  | named (anchor : LifecycleAnchor)
  | matcher (m : MatcherVal)

structure AlwaysExpectation where
  predicate : Callable
  betweenStart : BetweenAnchor
  betweenEnd : BetweenAnchor
  violated : Bool
  violationMsg : String
  windowStarted : Bool
  windowEnded : Bool

/-- The `always` that `builtinAlways` builds. -/
def newAlways (predicate : Callable) (betweenStart betweenEnd : BetweenAnchor) :
    AlwaysExpectation :=
  ⟨predicate, betweenStart, betweenEnd, false, "", false, false⟩

def AlwaysExpectation.name (a : AlwaysExpectation) : String :=
  "always(" ++ a.predicate.name ++ ")"

def BetweenAnchor.isNamed : BetweenAnchor → LifecycleAnchor → Bool
  | .named x, anchor => x = anchor
  | _, _ => false

def AlwaysExpectation.setWindowStarted (a : AlwaysExpectation) (anchor : LifecycleAnchor) :
    AlwaysExpectation :=
  if a.betweenStart.isNamed anchor then { a with windowStarted := true } else a

def AlwaysExpectation.setWindowEnded (a : AlwaysExpectation) (anchor : LifecycleAnchor) :
    AlwaysExpectation :=
  if a.betweenEnd.isNamed anchor then { a with windowEnded := true } else a

/-- The window-start check of `Evaluate` opens the window at this call: the log
holds the start matcher, or the start needs no waiting. -/
def BetweenAnchor.opensAt (b : BetweenAnchor) (log : EventLog) : Bool :=
  match b with
  | .matcher m => log.holdsMatch m
  | .unset | .named .bodyStart => true
  | .named .bodyEnd | .named .stable => false

/-- The window-end check of `Evaluate` closes the window at this call. -/
def BetweenAnchor.closesAt (b : BetweenAnchor) (log : EventLog) : Bool :=
  match b with
  | .matcher m => log.holdsMatch m
  | _ => false

def AlwaysExpectation.pollStart (a : AlwaysExpectation) (log : EventLog) : AlwaysExpectation :=
  if !a.windowStarted && a.betweenStart.opensAt log then { a with windowStarted := true } else a

def AlwaysExpectation.pollEnd (a : AlwaysExpectation) (log : EventLog) : AlwaysExpectation :=
  if !a.windowEnded && a.betweenEnd.closesAt log then { a with windowEnded := true } else a

def AlwaysExpectation.evaluate (a : AlwaysExpectation) (log : EventLog) :
    Evaluation × AlwaysExpectation :=
  if a.violated then (⟨.fail, a.violationMsg, none⟩, a)
  else
    let a := a.pollStart log
    if !a.windowStarted then (⟨.pending, "", none⟩, a)
    else
      let a := a.pollEnd log
      if a.windowEnded then (⟨.pass, "", none⟩, a)
      else
        match a.predicate.call log with
        | .error err =>
          let msg := "predicate raised: " ++ err
          (⟨.fail, msg, some err⟩, { a with violated := true, violationMsg := msg })
        | .ok false =>
          let msg := a.name ++ " violated"
          (⟨.fail, msg, none⟩, { a with violated := true, violationMsg := msg })
        | .ok true => (⟨.pending, "", none⟩, a)

def AlwaysExpectation.endPending (a : AlwaysExpectation) : Bool :=
  !a.windowEnded && match a.betweenEnd with
    | .unset => false
    | .named _ | .matcher _ => true

def AlwaysExpectation.unbounded (a : AlwaysExpectation) : Bool :=
  match a.betweenEnd with
  | .unset => true
  | .named _ | .matcher _ => false

def AlwaysExpectation.finalize (a : AlwaysExpectation) (log : EventLog)
    (cause : TerminationCause) : (Verdict × String) × AlwaysExpectation :=
  let (ev, a) := a.evaluate log
  if ev.verdict = .fail then ((.fail, ev.reason), a)
  else if a.endPending ∧ cause = .timeout then
    ((.pending, a.name ++ " end-anchor never reached within timeout"), a)
  else if a.endPending ∧ cause = .terminateWhen then ((.pass, ""), a)
  else if a.unbounded ∧ cause = .timeout then
    ((.pending, a.name ++ " held through a truncated (timed-out) prefix — safety not " ++
      "definitively established (RFC-049)"), a)
  else ((.pass, ""), a)

/-- `VacuousWindow`: a real start anchor that never fired. -/
def AlwaysExpectation.vacuousWindow (a : AlwaysExpectation) : Bool :=
  let hasStartAnchor := match a.betweenStart with
    | .matcher _ | .named .bodyEnd | .named .stable => true
    | .unset | .named .bodyStart => false
  hasStartAnchor && !a.windowStarted && !a.violated

/-! ## Either kind -/

inductive ExpectationVal where
  | eventually (e : EventuallyExpectation)
  | always (a : AlwaysExpectation)

def ExpectationVal.name : ExpectationVal → String
  | .eventually e => e.name
  | .always a => a.name

def ExpectationVal.evaluate (x : ExpectationVal) (log : EventLog) : Evaluation × ExpectationVal :=
  match x with
  | .eventually e => ((e.evaluate log).1, .eventually (e.evaluate log).2)
  | .always a => ((a.evaluate log).1, .always (a.evaluate log).2)

def ExpectationVal.finalize (x : ExpectationVal) (log : EventLog) (cause : TerminationCause) :
    (Verdict × String) × ExpectationVal :=
  match x with
  | .eventually e => ((e.finalize log cause).1, .eventually (e.finalize log cause).2)
  | .always a => ((a.finalize log cause).1, .always (a.finalize log cause).2)

/-- What `signalLifecycleAnchor` does to one registered expectation. -/
def ExpectationVal.signal (x : ExpectationVal) (anchor : LifecycleAnchor) : ExpectationVal :=
  match x with
  | .eventually e => .eventually e
  | .always a => .always ((a.setWindowStarted anchor).setWindowEnded anchor)

/-- `VacuousWindow`, which only an `always` has. -/
def ExpectationVal.vacuousWindow : ExpectationVal → Bool
  | .eventually _ => false
  | .always a => a.vacuousWindow

/-- The expectation that a fresh call of the builtin with the same predicate
and the same anchors would build. -/
def ExpectationVal.fresh : ExpectationVal → ExpectationVal
  | .eventually e => .eventually (newEventually e.predicate e.anchor)
  | .always a => .always (newAlways a.predicate a.betweenStart a.betweenEnd)

/-- One call that the runtime makes on an expectation. -/
inductive Call where
  | evaluate (log : EventLog)
  | finalize (log : EventLog) (cause : TerminationCause)
  | signal (anchor : LifecycleAnchor)

/-- What the call returns. -/
inductive Answer where
  | evaluation (ev : Evaluation)
  | final (verdict : Verdict) (reason : String)
  | signalled
  deriving DecidableEq

def ExpectationVal.answer (x : ExpectationVal) : Call → Answer × ExpectationVal
  | .evaluate log => (.evaluation (x.evaluate log).1, (x.evaluate log).2)
  | .finalize log cause =>
    (.final (x.finalize log cause).1.1 (x.finalize log cause).1.2, (x.finalize log cause).2)
  | .signal anchor => (.signalled, x.signal anchor)

/-! ## What the calls do to the flags

The proofs below this module read the code through these lemmas only. -/

/-- `Evaluate` calls the predicate of an `eventually`: not satisfied yet, and
the anchor, if any, was reached. -/
def EventuallyExpectation.callsPredicate (e : EventuallyExpectation) (log : EventLog) : Bool :=
  !e.satisfied && (e.pollAnchor log).started

/-- `Evaluate` calls the predicate of an `always`: no violation yet, and the
window is open. -/
def AlwaysExpectation.callsPredicate (a : AlwaysExpectation) (log : EventLog) : Bool :=
  !a.violated && (a.windowStarted || a.betweenStart.opensAt log) &&
    !(a.windowEnded || a.betweenEnd.closesAt log)

def BetweenAnchor.opensAtOnce : BetweenAnchor → Bool
  | .unset | .named .bodyStart => true
  | .named .bodyEnd | .named .stable | .matcher _ => false

section always

variable (a : AlwaysExpectation) (log : EventLog)

theorem AlwaysExpectation.pollStart_eq :
    a.pollStart log =
      { a with windowStarted := a.windowStarted || a.betweenStart.opensAt log } := by
  obtain ⟨p, A, B, v, msg, ws, we⟩ := a
  cases ws <;> cases h : A.opensAt log <;> simp [AlwaysExpectation.pollStart, h]

theorem AlwaysExpectation.pollEnd_eq :
    a.pollEnd log = { a with windowEnded := a.windowEnded || a.betweenEnd.closesAt log } := by
  obtain ⟨p, A, B, v, msg, ws, we⟩ := a
  cases we <;> cases h : B.closesAt log <;> simp [AlwaysExpectation.pollEnd, h]

/-- The five exits of `Evaluate`: a violation found before, a window that has
not started, a window that has ended, a predicate that fails, and one that holds. -/
theorem AlwaysExpectation.evaluate_cases :
    (a.violated = true ∧ a.evaluate log = (⟨.fail, a.violationMsg, none⟩, a)) ∨
    (a.violated = false ∧ (a.windowStarted || a.betweenStart.opensAt log) = false ∧
      a.evaluate log = (⟨.pending, "", none⟩, a)) ∨
    (a.violated = false ∧ (a.windowStarted || a.betweenStart.opensAt log) = true ∧
      (a.windowEnded || a.betweenEnd.closesAt log) = true ∧
      a.evaluate log = (⟨.pass, "", none⟩, { a with windowStarted := true, windowEnded := true })) ∨
    (a.callsPredicate log = true ∧ a.predicate.holds log = false ∧
      ∃ msg err, a.evaluate log = (⟨.fail, msg, err⟩,
        { a with windowStarted := true, violated := true, violationMsg := msg })) ∨
    (a.callsPredicate log = true ∧ a.predicate.holds log = true ∧
      a.evaluate log = (⟨.pending, "", none⟩, { a with windowStarted := true })) := by
  obtain ⟨p, A, B, v, msg, ws, we⟩ := a
  unfold AlwaysExpectation.callsPredicate AlwaysExpectation.evaluate
  simp only [AlwaysExpectation.pollStart_eq, AlwaysExpectation.pollEnd_eq]
  cases v
  · cases hs : ws || A.opensAt log
    · obtain ⟨rfl, _⟩ := Bool.or_eq_false_iff.mp hs
      exact .inr (.inl ⟨rfl, rfl, by simp⟩)
    · cases he : we || B.closesAt log
      · obtain ⟨rfl, _⟩ := Bool.or_eq_false_iff.mp he
        unfold Callable.holds
        rcases hp : p.call log with err | b
        · exact .inr (.inr (.inr (.inl ⟨rfl, rfl, "predicate raised: " ++ err, some err, by simp⟩)))
        · cases b
          · exact .inr (.inr (.inr (.inl
              ⟨rfl, rfl, "always(" ++ p.name ++ ")" ++ " violated", none, by
                simp [AlwaysExpectation.name]⟩)))
          · exact .inr (.inr (.inr (.inr ⟨rfl, rfl, by simp⟩)))
      · exact .inr (.inr (.inl ⟨rfl, rfl, rfl, by simp⟩))
  · exact .inl ⟨rfl, rfl⟩

theorem AlwaysExpectation.evaluate_started :
    (a.evaluate log).2.windowStarted =
      (a.windowStarted || (!a.violated && a.betweenStart.opensAt log)) := by
  rcases a.evaluate_cases log with ⟨hv, h⟩ | ⟨hv, hs, h⟩ | ⟨hv, hs, _, h⟩ | ⟨hc, _, _, _, h⟩ |
    ⟨hc, _, h⟩ <;> simp_all [AlwaysExpectation.callsPredicate]

theorem AlwaysExpectation.evaluate_ended :
    (a.evaluate log).2.windowEnded =
      (a.windowEnded || (!a.violated && (a.windowStarted || a.betweenStart.opensAt log) &&
        a.betweenEnd.closesAt log)) := by
  rcases a.evaluate_cases log with ⟨hv, h⟩ | ⟨hv, hs, h⟩ | ⟨hv, hs, he, h⟩ | ⟨hc, _, _, _, h⟩ |
    ⟨hc, _, h⟩ <;> simp_all [AlwaysExpectation.callsPredicate]

theorem AlwaysExpectation.evaluate_violated :
    (a.evaluate log).2.violated =
      (a.violated || (a.callsPredicate log && !a.predicate.holds log)) := by
  rcases a.evaluate_cases log with ⟨hv, h⟩ | ⟨hv, hs, h⟩ | ⟨hv, hs, he, h⟩ | ⟨hc, hp, _, _, h⟩ |
    ⟨hc, hp, h⟩
  · simp [h, hv]
  · simp [h, hv, hs, AlwaysExpectation.callsPredicate]
  · simp [h, hv, he, AlwaysExpectation.callsPredicate]
  · simp [h, hc, hp]
  · simp [h, hc, hp]

/-- `Evaluate` never touches what the declaration gave the expectation. -/
theorem AlwaysExpectation.evaluate_config :
    (a.evaluate log).2.predicate = a.predicate ∧
      (a.evaluate log).2.betweenStart = a.betweenStart ∧
      (a.evaluate log).2.betweenEnd = a.betweenEnd := by
  rcases a.evaluate_cases log with ⟨_, h⟩ | ⟨_, _, h⟩ | ⟨_, _, _, h⟩ | ⟨_, _, _, _, h⟩ |
    ⟨_, _, h⟩ <;> simp [h]

/-- `Evaluate` answers fail exactly when it leaves the expectation violated. -/
theorem AlwaysExpectation.evaluate_fail_iff :
    (a.evaluate log).1.verdict = .fail ↔ (a.evaluate log).2.violated = true := by
  rcases a.evaluate_cases log with ⟨hv, h⟩ | ⟨hv, _, h⟩ | ⟨hv, _, _, h⟩ | ⟨hc, _, _, _, h⟩ |
    ⟨hc, _, h⟩ <;> simp_all [AlwaysExpectation.callsPredicate]

theorem AlwaysExpectation.signal_eq (x : LifecycleAnchor) :
    (a.setWindowStarted x).setWindowEnded x =
      { a with
        windowStarted := a.windowStarted || a.betweenStart.isNamed x
        windowEnded := a.windowEnded || a.betweenEnd.isNamed x } := by
  obtain ⟨p, A, B, v, msg, ws, we⟩ := a
  unfold AlwaysExpectation.setWindowEnded AlwaysExpectation.setWindowStarted
  cases A.isNamed x <;> cases h : B.isNamed x <;> simp [h]

/-- `Finalize` leaves behind what its one last evaluation leaves. -/
theorem AlwaysExpectation.finalize_snd (cause : TerminationCause) :
    (a.finalize log cause).2 = (a.evaluate log).2 := by
  unfold AlwaysExpectation.finalize
  dsimp only
  split_ifs <;> rfl

/-- `Finalize` answers fail exactly when it leaves the expectation violated. -/
theorem AlwaysExpectation.finalize_fail_iff (cause : TerminationCause) :
    (a.finalize log cause).1.1 = .fail ↔ (a.evaluate log).2.violated = true := by
  rw [← a.evaluate_fail_iff]
  unfold AlwaysExpectation.finalize
  dsimp only
  split_ifs with h1 h2 h3 h4 <;> simp [h1]

end always

section eventually

variable (e : EventuallyExpectation) (log : EventLog)

theorem EventuallyExpectation.pollAnchor_eq :
    e.pollAnchor log = { e with
      anchorReached := e.anchorReached || (e.anchor.any fun m => log.holdsMatch m) } := by
  obtain ⟨p, anchor, s, r⟩ := e
  unfold EventuallyExpectation.pollAnchor
  cases anchor with
  | none => simp
  | some m => cases r <;> cases h : log.holdsMatch m <;> simp [h]

/-- The five exits of `Evaluate`: satisfied before, an anchor that was not
reached, and a predicate that raises, holds or does not hold. -/
theorem EventuallyExpectation.evaluate_cases :
    (e.satisfied = true ∧ e.evaluate log = (⟨.pass, "", none⟩, e)) ∨
    (e.satisfied = false ∧ (e.pollAnchor log).started = false ∧
      e.evaluate log = (⟨.pending, "", none⟩, e.pollAnchor log)) ∨
    (e.callsPredicate log = true ∧ ∃ err, e.predicate.call log = .error err ∧
      e.evaluate log = (⟨.fail, "predicate raised: " ++ err, some err⟩, e.pollAnchor log)) ∨
    (e.callsPredicate log = true ∧ e.predicate.holds log = true ∧
      e.evaluate log = (⟨.pass, "", none⟩, { e.pollAnchor log with satisfied := true })) ∨
    (e.callsPredicate log = true ∧ e.predicate.call log = .ok false ∧
      e.evaluate log = (⟨.pending, "", none⟩, e.pollAnchor log)) := by
  have hpr : (e.pollAnchor log).predicate = e.predicate := by rw [e.pollAnchor_eq]
  unfold EventuallyExpectation.callsPredicate EventuallyExpectation.evaluate
  dsimp only
  rw [hpr]
  cases hs : e.satisfied
  · cases hst : (e.pollAnchor log).started
    · exact .inr (.inl ⟨rfl, rfl, by simp⟩)
    · unfold Callable.holds
      rcases hp : e.predicate.call log with err | b
      · exact .inr (.inr (.inl ⟨rfl, err, rfl, by simp⟩))
      · cases b
        · exact .inr (.inr (.inr (.inr ⟨rfl, rfl, by simp⟩)))
        · exact .inr (.inr (.inr (.inl ⟨rfl, rfl, by simp⟩)))
  · exact .inl ⟨rfl, by simp⟩

theorem EventuallyExpectation.finalize_snd (cause : TerminationCause) :
    (e.finalize log cause).2 = (e.evaluate log).2 := by
  unfold EventuallyExpectation.finalize
  dsimp only
  split
  · rfl
  · split_ifs
    · rfl
    · cases cause <;> rfl

end eventually

end faultbox.temporal
