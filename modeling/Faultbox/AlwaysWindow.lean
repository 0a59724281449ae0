-- The window of `always(p, between=(A, B))`, watched from an empty log: each
-- event is followed by one `Evaluate`, and a lifecycle signal can stand between
-- any two events. The window opens at the first A. It should close at the first
-- B after that A, but the code looks for B in the whole log.
import Faultbox.Temporal

open goval faultbox.event_log

namespace faultbox.temporal

/-! ## The watch -/

/-- One turn of the watch. -/
inductive Tick where
  | event (typ service : String) (fields : GoMap String String)
  | signal (anchor : LifecycleAnchor)

def Tick.isCall : Tick → Bool
  | .event .. => true
  | .signal _ => false

def Tick.grow (log : EventLog) : Tick → EventLog
  | .event typ service fields => log.emit typ service fields
  | .signal _ => log

def logAfter (ticks : List Tick) : EventLog := ticks.foldl Tick.grow newEventLog

def Tick.act (log : EventLog) (a : AlwaysExpectation) : Tick → AlwaysExpectation
  | .event .. => (a.evaluate log).2
  | .signal anchor => (a.setWindowStarted anchor).setWindowEnded anchor

def watch (a : AlwaysExpectation) (ticks : List Tick) : AlwaysExpectation × EventLog :=
  ticks.foldl (fun s t => (t.act (t.grow s.2) s.1, t.grow s.2)) (a, newEventLog)

/-! ## What the window should be -/

/-- The tick brings the anchor about. -/
def Tick.isAnchor (log : EventLog) (b : BetweenAnchor) : Tick → Bool
  | .event typ service fields =>
    match b with
    | .matcher m => m.matchesEvent (log.newEvent typ service fields)
    | _ => false
  | .signal x => b.isNamed x

/-- The anchor occurs at tick `i`. -/
def OccursAt (b : BetweenAnchor) (ticks : List Tick) (i : Nat) : Prop :=
  ∃ t, ticks[i]? = some t ∧ t.isAnchor (logAfter (ticks.take i)) b = true

/-- Tick `i` is the first occurrence of the anchor. -/
def FirstAt (b : BetweenAnchor) (ticks : List Tick) (i : Nat) : Prop :=
  OccursAt b ticks i ∧ ∀ j < i, ¬ OccursAt b ticks j

/-- Tick `n` is a call of `Evaluate`. -/
def CallAt (ticks : List Tick) (n : Nat) : Prop := ∃ t, ticks[n]? = some t ∧ t.isCall = true

/-- Tick `n` stands in the window: from the first start anchor up to the first
end anchor that comes after it. -/
def InWindow (A B : BetweenAnchor) (ticks : List Tick) (n : Nat) : Prop :=
  ∃ i ≤ n, FirstAt A ticks i ∧ ∀ j, i < j → j ≤ n → ¬ OccursAt B ticks j

/-! ## What the code checks -/

/-- The call at tick `n` evaluates the predicate. -/
def EvaluatedAt (p : Callable) (A B : BetweenAnchor) (ticks : List Tick) (n : Nat) : Prop :=
  CallAt ticks n ∧
    (watch (newAlways p A B) (ticks.take n)).1.callsPredicate (logAfter (ticks.take (n + 1))) = true

/-- The predicate does not hold at tick `n`: it is false there, or it raises. -/
def FailsAt (p : Callable) (ticks : List Tick) (n : Nat) : Prop :=
  p.holds (logAfter (ticks.take (n + 1))) = false

/-- The call at tick `n` evaluates the predicate, or an earlier call found it
violated. That call stands in the window as well, except that a window from
`body_start` opens for the code at the first `Evaluate`, before the signal. -/
def CheckedAt (p : Callable) (A B : BetweenAnchor) (ticks : List Tick) (n : Nat) : Prop :=
  EvaluatedAt p A B ticks n ∨ ∃ m < n, EvaluatedAt p A B ticks m ∧ FailsAt p ticks m

/-! ## One more tick -/

variable {b A B : BetweenAnchor} {ts ticks : List Tick} {n : Nat} {p : Callable}

@[simp] theorem logAfter_snoc (ts : List Tick) (t : Tick) :
    logAfter (ts ++ [t]) = t.grow (logAfter ts) := by
  simp [logAfter, List.foldl_append]

theorem watch_log (a : AlwaysExpectation) (ts : List Tick) : (watch a ts).2 = logAfter ts := by
  induction ts using List.reverseRecOn with
  | nil => rfl
  | append_singleton ts t ih =>
    rw [logAfter_snoc, ← ih]
    simp [watch, List.foldl_append]

theorem watch_snoc (a : AlwaysExpectation) (ts : List Tick) (t : Tick) :
    (watch a (ts ++ [t])).1 = t.act (logAfter (ts ++ [t])) (watch a ts).1 := by
  have hlog := watch_log a ts
  rw [logAfter_snoc, ← hlog]
  simp [watch, List.foldl_append]

/-- The anchor occurred at one of the ticks. -/
def Seen (b : BetweenAnchor) (ts : List Tick) : Prop := ∃ i, OccursAt b ts i

theorem occursAt_lt {i : Nat} (h : OccursAt b ts i) : i < ts.length := by
  obtain ⟨t, ht, _⟩ := h
  exact (List.getElem?_eq_some_iff.mp ht).1

theorem seen_ne_unset (h : Seen b ts) : b ≠ .unset := by
  rintro rfl
  obtain ⟨i, t, _, ha⟩ := h
  cases t <;> simp [Tick.isAnchor, BetweenAnchor.isNamed] at ha

theorem occursAt_take {i : Nat} (h : i < n) : OccursAt b (ticks.take n) i ↔ OccursAt b ticks i := by
  unfold OccursAt
  rw [List.getElem?_take_of_lt h, List.take_take, Nat.min_eq_left (Nat.le_of_lt h)]

theorem seen_take : Seen b (ticks.take n) ↔ ∃ i < n, OccursAt b ticks i := by
  constructor
  · rintro ⟨i, hi⟩
    have hlt := occursAt_lt hi
    rw [List.length_take] at hlt
    exact ⟨i, by omega, (occursAt_take (by omega)).mp hi⟩
  · rintro ⟨i, hn, hi⟩
    exact ⟨i, (occursAt_take hn).mpr hi⟩

theorem seen_snoc (b : BetweenAnchor) (ts : List Tick) (t : Tick) :
    Seen b (ts ++ [t]) ↔ Seen b ts ∨ t.isAnchor (logAfter ts) b = true := by
  have hta : (ts ++ [t]).take ts.length = ts := List.take_left
  constructor
  · rintro ⟨i, hi⟩
    rcases Nat.lt_or_ge i ts.length with hlt | hge
    · rw [← occursAt_take hlt, hta] at hi
      exact .inl ⟨i, hi⟩
    · have := occursAt_lt hi
      have he : i = ts.length := by simp at this; omega
      subst he
      obtain ⟨t', ht', ha⟩ := hi
      simp at ht'
      subst ht'
      rw [hta] at ha
      exact .inr ha
  · rintro (⟨i, hi⟩ | ha)
    · refine ⟨i, ?_⟩
      rw [← occursAt_take (occursAt_lt hi), hta]
      exact hi
    · exact ⟨ts.length, t, by simp, by rw [hta]; exact ha⟩

theorem holdsMatch_logAfter (m : MatcherVal) (ts : List Tick) :
    (logAfter ts).holdsMatch m = true ↔ Seen (.matcher m) ts := by
  induction ts using List.reverseRecOn with
  | nil => simp [logAfter, newEventLog, Seen, OccursAt]
  | append_singleton ts t ih =>
    rw [seen_snoc, ← ih, logAfter_snoc]
    cases t with
    | event typ service fields => simp [Tick.grow, Tick.isAnchor, or_and_right, exists_or]
    | signal x => simp [Tick.grow, Tick.isAnchor, BetweenAnchor.isNamed]

/-! ## The flags, from the anchors seen -/

theorem opensAt_logAfter (A : BetweenAnchor) (ts : List Tick) :
    A.opensAt (logAfter ts) = true ↔
      A.opensAtOnce = true ∨ ∃ m, A = .matcher m ∧ Seen A ts := by
  cases A with
  | unset => simp [BetweenAnchor.opensAt, BetweenAnchor.opensAtOnce]
  | named x => cases x <;> simp [BetweenAnchor.opensAt, BetweenAnchor.opensAtOnce]
  | matcher m => simpa [BetweenAnchor.opensAt, BetweenAnchor.opensAtOnce] using
      holdsMatch_logAfter m ts

theorem closesAt_logAfter (B : BetweenAnchor) (ts : List Tick) :
    B.closesAt (logAfter ts) = true ↔ ∃ m, B = .matcher m ∧ Seen B ts := by
  cases B with
  | unset => simp [BetweenAnchor.closesAt]
  | named x => simp [BetweenAnchor.closesAt]
  | matcher m => simpa [BetweenAnchor.closesAt] using holdsMatch_logAfter m ts

/-- The flags of a watched expectation, from the anchors seen so far. -/
structure WatchInv (p : Callable) (A B : BetweenAnchor) (ts : List Tick)
    (a : AlwaysExpectation) : Prop where
  predicate_eq : a.predicate = p
  start_eq : a.betweenStart = A
  end_eq : a.betweenEnd = B
  started_of_seen : Seen A ts → a.windowStarted = true
  seen_of_started : a.windowStarted = true → Seen A ts ∨ A.opensAtOnce = true
  seen_of_ended : a.windowEnded = true → Seen B ts
  ended_of_seen : ∀ x, B = .named x → Seen B ts → a.windowEnded = true
  started_of_violated : a.violated = true → a.windowStarted = true

theorem seen_snoc_event {x : LifecycleAnchor} {t : Tick} (ht : t.isCall = true)
    (h : Seen (.named x) (ts ++ [t])) : Seen (.named x) ts := by
  rcases (seen_snoc _ _ _).mp h with h | h
  · exact h
  · cases t with
    | event typ service fields => simp [Tick.isAnchor] at h
    | signal y => cases ht

theorem watchInv_event {t : Tick} {a : AlwaysExpectation} (ht : t.isCall = true)
    (h : WatchInv p A B ts a) :
    WatchInv p A B (ts ++ [t]) (a.evaluate (logAfter (ts ++ [t]))).2 := by
  obtain ⟨h1, h2, h3, h4, h5, h6, h7, h8⟩ := h
  obtain ⟨c1, c2, c3⟩ := a.evaluate_config (logAfter (ts ++ [t]))
  have hm : ∀ b, Seen b ts → Seen b (ts ++ [t]) := fun b hb => (seen_snoc b ts t).mpr (.inl hb)
  have hop := opensAt_logAfter A (ts ++ [t])
  have hcl := closesAt_logAfter B (ts ++ [t])
  refine ⟨c1.trans h1, c2.trans h2, c3.trans h3, ?_, ?_, ?_, ?_, ?_⟩
  · intro hs
    rw [a.evaluate_started, h2]
    by_cases hold : Seen A ts
    · simp [h4 hold]
    · cases A with
      | unset => exact absurd rfl (seen_ne_unset hs)
      | named x => exact absurd (seen_snoc_event ht hs) hold
      | matcher m =>
        have ho : BetweenAnchor.opensAt (.matcher m) (logAfter (ts ++ [t])) = true :=
          hop.mpr (.inr ⟨m, rfl, hs⟩)
        rw [ho]
        cases hv : a.violated
        · simp
        · simp [h8 hv]
  · intro hw
    rw [a.evaluate_started, h2, Bool.or_eq_true, Bool.and_eq_true] at hw
    rcases hw with hw | ⟨_, hw⟩
    · exact (h5 hw).imp_left (hm A)
    · rcases hop.mp hw with ho | ⟨m, _, hs⟩
      · exact .inr ho
      · exact .inl hs
  · intro hw
    rw [a.evaluate_ended, h3, Bool.or_eq_true, Bool.and_eq_true] at hw
    rcases hw with hw | ⟨_, hw⟩
    · exact hm B (h6 hw)
    · obtain ⟨m, _, hs⟩ := hcl.mp hw
      exact hs
  · intro x hB hs
    subst hB
    rw [a.evaluate_ended, h7 x rfl (seen_snoc_event ht hs), Bool.true_or]
  · intro hv
    rw [a.evaluate_violated, Bool.or_eq_true, Bool.and_eq_true] at hv
    rw [a.evaluate_started]
    rcases hv with hv | ⟨hc, _⟩
    · simp [h8 hv]
    · simp only [AlwaysExpectation.callsPredicate, Bool.and_eq_true] at hc
      simp only [Bool.or_eq_true, Bool.and_eq_true] at hc ⊢
      exact hc.1.2.imp_right fun ho => ⟨hc.1.1, ho⟩

theorem watchInv_signal {x : LifecycleAnchor} {a : AlwaysExpectation} (h : WatchInv p A B ts a) :
    WatchInv p A B (ts ++ [.signal x]) ((a.setWindowStarted x).setWindowEnded x) := by
  obtain ⟨h1, h2, h3, h4, h5, h6, h7, h8⟩ := h
  rw [a.signal_eq]
  have hse : ∀ b, Seen b (ts ++ [.signal x]) ↔ Seen b ts ∨ b.isNamed x = true :=
    fun b => seen_snoc b ts (.signal x)
  refine ⟨h1, h2, h3, ?_, ?_, ?_, ?_, ?_⟩
  · intro hs
    rw [hse] at hs
    simp only [h2, Bool.or_eq_true]
    exact hs.imp_left h4
  · intro hw
    simp only [h2, Bool.or_eq_true] at hw
    rw [hse]
    rcases hw with hw | hw
    · exact (h5 hw).imp_left .inl
    · exact .inl (.inr hw)
  · intro hw
    simp only [h3, Bool.or_eq_true] at hw
    rw [hse]
    exact hw.imp_left h6
  · intro y hB hs
    rw [hse] at hs
    simp only [h3, Bool.or_eq_true]
    exact hs.imp_left (h7 y hB)
  · intro hv
    simp [h8 hv]

theorem watchInv (p : Callable) (A B : BetweenAnchor) (ts : List Tick) :
    WatchInv p A B ts (watch (newAlways p A B) ts).1 := by
  induction ts using List.reverseRecOn with
  | nil =>
    have hn : ∀ b, ¬ Seen b [] := by
      rintro b ⟨i, hi⟩
      exact absurd (occursAt_lt hi) (by simp)
    constructor <;> simp [watch, newAlways, hn]
  | append_singleton ts t ih =>
    rw [watch_snoc]
    cases t with
    | event typ service fields => exact watchInv_event rfl ih
    | signal x => exact watchInv_signal ih

/-- A call evaluates the predicate exactly when no violation stands, the start
anchor was seen or needs no waiting, and no end anchor was seen at all. -/
theorem evaluatedAt_iff : EvaluatedAt p A B ticks n ↔ CallAt ticks n ∧
      (watch (newAlways p A B) (ticks.take n)).1.violated = false ∧
      (A.opensAtOnce = true ∨ ∃ i ≤ n, OccursAt A ticks i) ∧ ∀ j ≤ n, ¬ OccursAt B ticks j := by
  unfold EvaluatedAt
  refine and_congr_right fun ⟨t, ht, hc⟩ => ?_
  obtain ⟨h1, h2, h3, h4, h5, h6, h7, h8⟩ := watchInv p A B (ticks.take n)
  have hsu : ticks.take (n + 1) = ticks.take n ++ [t] := by
    rw [List.take_add_one, ht]; rfl
  have hse : ∀ b, Seen b (ticks.take (n + 1)) ↔ ∃ i ≤ n, OccursAt b ticks i := by
    intro b
    simp only [seen_take, Nat.lt_succ_iff]
  have hst : ((watch (newAlways p A B) (ticks.take n)).1.windowStarted ||
      A.opensAt (logAfter (ticks.take (n + 1)))) = true ↔
      A.opensAtOnce = true ∨ ∃ i ≤ n, OccursAt A ticks i := by
    rw [Bool.or_eq_true, opensAt_logAfter, ← hse]
    constructor
    · rintro (hw | ho | ⟨m, _, hs⟩)
      · rcases h5 hw with hs | ho
        · exact .inr (by rw [hsu, seen_snoc]; exact .inl hs)
        · exact .inl ho
      · exact .inl ho
      · exact .inr hs
    · rintro (ho | hs)
      · exact .inr (.inl ho)
      · cases A with
        | unset => exact absurd rfl (seen_ne_unset hs)
        | named x =>
          rw [hsu] at hs
          exact .inl (h4 (seen_snoc_event hc hs))
        | matcher m => exact .inr (.inr ⟨m, rfl, hs⟩)
  have hend : ((watch (newAlways p A B) (ticks.take n)).1.windowEnded ||
      B.closesAt (logAfter (ticks.take (n + 1)))) = true ↔ ∃ j ≤ n, OccursAt B ticks j := by
    rw [Bool.or_eq_true, closesAt_logAfter, ← hse]
    constructor
    · rintro (hw | ⟨m, _, hs⟩)
      · rw [hsu, seen_snoc]; exact .inl (h6 hw)
      · exact hs
    · intro hs
      cases B with
      | unset => exact absurd rfl (seen_ne_unset hs)
      | named x =>
        rw [hsu] at hs
        exact .inl (h7 x rfl (seen_snoc_event hc hs))
      | matcher m => exact .inr ⟨m, rfl, hs⟩
  unfold AlwaysExpectation.callsPredicate
  rw [h2, h3, Bool.and_eq_true, Bool.and_eq_true, hst, and_assoc, Bool.not_eq_true']
  refine and_congr_right fun _ => and_congr_right fun _ => ?_
  rw [Bool.not_eq_true', ← Bool.not_eq_true, hend]
  simp only [not_exists, not_and]

/-- A violation stands exactly when an earlier call evaluated the predicate and
it failed. -/
theorem violated_iff : (watch (newAlways p A B) (ticks.take n)).1.violated = true ↔
      ∃ m < n, EvaluatedAt p A B ticks m ∧ FailsAt p ticks m := by
  induction n with
  | zero => simp [watch, newAlways]
  | succ n ih =>
    have hs : (∃ m < n + 1, EvaluatedAt p A B ticks m ∧ FailsAt p ticks m) ↔
        (∃ m < n, EvaluatedAt p A B ticks m ∧ FailsAt p ticks m) ∨
          (EvaluatedAt p A B ticks n ∧ FailsAt p ticks n) := by
      simp only [Nat.lt_succ_iff_lt_or_eq, or_and_right, exists_or, exists_eq_left]
    rw [hs, ← ih]
    rcases ht : ticks[n]? with _ | t
    · rw [List.take_add_one, ht]
      have hno : ¬ CallAt ticks n := by
        rintro ⟨t, ht', _⟩
        simp [ht] at ht'
      simp [EvaluatedAt, hno]
    · have hsu : ticks.take (n + 1) = ticks.take n ++ [t] := by
        rw [List.take_add_one, ht]; rfl
      have hp := (watchInv p A B (ticks.take n)).predicate_eq
      cases t with
      | event typ service fields =>
        have hca : CallAt ticks n := ⟨_, ht, rfl⟩
        unfold EvaluatedAt FailsAt
        rw [hsu, watch_snoc]
        simp only [Tick.act, AlwaysExpectation.evaluate_violated, hp, hca, true_and,
          Bool.or_eq_true, Bool.and_eq_true, Bool.not_eq_true']
      | signal x =>
        have hno : ¬ CallAt ticks n := by
          rintro ⟨t, ht', hc⟩
          rw [ht] at ht'
          cases ht'
          cases hc
        rw [hsu, watch_snoc]
        simp [Tick.act, AlwaysExpectation.signal_eq, EvaluatedAt, hno]

/-! ## When the window is right -/

/-- An end anchor occurs at or before the first start anchor. -/
def EndOvertakesStart (A B : BetweenAnchor) (ticks : List Tick) : Prop :=
  ∃ i, FirstAt A ticks i ∧ ∃ j ≤ i, OccursAt B ticks j

/-- A window that starts at `body_start` opens at the first call. This one was
already open, and the predicate failed in it, before any end anchor. -/
def FailedBeforeEnd (p : Callable) (A B : BetweenAnchor) (ticks : List Tick) : Prop :=
  A = .named .bodyStart ∧
    ∃ m, CallAt ticks m ∧ (∀ j ≤ m, ¬ OccursAt B ticks j) ∧ FailsAt p ticks m

/-- Every call in the window is checked exactly when no end anchor overtakes
the start anchor, apart from the cases in which there is nothing left to check:
no call stands in the window, or the violation was found before. -/
theorem every_call_in_the_window_is_checked_iff (p : Callable) (A B : BetweenAnchor)
    (ticks : List Tick) :
    (∀ n, CallAt ticks n → InWindow A B ticks n → CheckedAt p A B ticks n) ↔
      ¬ EndOvertakesStart A B ticks ∨ (∀ n, CallAt ticks n → ¬ InWindow A B ticks n) ∨
        FailedBeforeEnd p A B ticks := by
  constructor
  · intro h
    by_cases hov : EndOvertakesStart A B ticks
    · right
      by_cases hc : ∀ n, CallAt ticks n → ¬ InWindow A B ticks n
      · exact .inl hc
      · right
        push Not at hc
        obtain ⟨n, hn, hwin⟩ := hc
        obtain ⟨i, hf, j, hji, hj⟩ := hov
        obtain ⟨i', hin, hf', _⟩ := id hwin
        have hii : i' = i := by
          rcases Nat.lt_trichotomy i' i with hlt | he | hgt
          · exact absurd hf'.1 (hf.2 i' hlt)
          · exact he
          · exact absurd hf.1 (hf'.2 i hgt)
        subst hii
        -- The end anchor stands at or before tick `n`, so the check there is an
        -- earlier violation, and that one was found before the end anchor.
        rcases h n hn hwin with hev | ⟨m, _, hev, hfa⟩
        · exact absurd hj ((evaluatedAt_iff.mp hev).2.2.2 j (by omega))
        · obtain ⟨hca, _, hs, hno⟩ := evaluatedAt_iff.mp hev
          refine ⟨?_, m, hca, hno, hfa⟩
          have hmi : m < i' := by
            by_contra hge
            exact hno j (by omega) hj
          have hon : A.opensAtOnce = true := by
            rcases hs with ho | ⟨k, hk, hA⟩
            · exact ho
            · exact absurd hA (hf.2 k (by omega))
          cases A with
          | unset => exact absurd rfl (seen_ne_unset ⟨i', hf.1⟩)
          | named x => cases x <;> simp_all [BetweenAnchor.opensAtOnce]
          | matcher m => cases hon
    · exact .inl hov
  · intro h n hn hwin
    obtain ⟨i, hin, hf, hno⟩ := id hwin
    -- Without an end anchor up to tick `n`, only a violation keeps the call from
    -- evaluating the predicate.
    have hcl : (∀ j ≤ n, ¬ OccursAt B ticks j) → CheckedAt p A B ticks n := by
      intro hB
      cases hv : (watch (newAlways p A B) (ticks.take n)).1.violated with
      | false => exact .inl (evaluatedAt_iff.mpr ⟨hn, hv, .inr ⟨i, hin, hf.1⟩, hB⟩)
      | true => exact .inr (violated_iff.mp hv)
    rcases h with hov | hc | ⟨rfl, m, hm, hmB, hfa⟩
    · apply hcl
      intro j hj hB
      rcases Nat.lt_or_ge i j with hlt | hge
      · exact hno j hlt hj hB
      · exact hov ⟨i, hf, j, hge, hB⟩
    · exact absurd hwin (hc n hn)
    · rcases Nat.lt_or_ge m n with hlt | hge
      · right
        cases hv : (watch (newAlways p (.named .bodyStart) B) (ticks.take m)).1.violated with
        | false => exact ⟨m, hlt, evaluatedAt_iff.mpr ⟨hm, hv, .inl rfl, hmB⟩, hfa⟩
        | true =>
          obtain ⟨m', hm', hev⟩ := violated_iff.mp hv
          exact ⟨m', by omega, hev⟩
      · exact hcl fun j hj => hmB j (by omega)

def recoveryThenError : List Tick := [.event "recovered" "db" ∅, .event "error" "db" ∅]

def neverHolds : Callable := ⟨"never_holds", fun _ => .ok false⟩

/-- `always(never_holds, between=(error, recovered))` does not look at the one
call in its window: the recovery before the error closes the window at once. -/
theorem a_recovery_before_the_error_hides_the_window :
    ¬ ∀ n, CallAt recoveryThenError n →
      InWindow (.matcher (matchType "error")) (.matcher (matchType "recovered"))
        recoveryThenError n →
      CheckedAt neverHolds (.matcher (matchType "error")) (.matcher (matchType "recovered"))
        recoveryThenError n := by
  intro h
  have hca : CallAt recoveryThenError 1 := ⟨_, rfl, rfl⟩
  have hwin : InWindow (.matcher (matchType "error")) (.matcher (matchType "recovered"))
      recoveryThenError 1 := by
    refine ⟨1, le_refl 1, ⟨⟨_, rfl, by decide⟩, ?_⟩, fun j h1 h2 => by omega⟩
    intro j hj hocc
    obtain rfl : j = 0 := by omega
    obtain ⟨t, ht, ha⟩ := hocc
    cases ht
    exact absurd ha (by decide)
  have hi : ∀ n < 2, ¬ EvaluatedAt neverHolds (.matcher (matchType "error"))
      (.matcher (matchType "recovered")) recoveryThenError n := by
    intro n hn hev
    have hc := hev.2
    interval_cases n <;> exact absurd hc (by decide)
  rcases h 1 hca hwin with hev | ⟨m, hm, hev, _⟩
  · exact hi 1 (by omega) hev
  · exact hi m (by omega) hev

end faultbox.temporal
