-- What the handler does to one rule of its list, by the place of the rule: the
-- calls that come to it, the calls that it counts, and the calls that it takes.
-- Over a run of calls, its counters are the numbers of calls that it counted.
import Faultbox.Notifications
import Faultbox.Runs

open gopath

namespace faultbox.engine

/-! ## One call and one rule -/

def Session.before (s : Session) (req : NotifReq) (i : Nat) :
    scan.Step FaultRule × List (Nat × FaultRule) × Nat :=
  scan.run (visit s.decider s.random (callOf s.arch req)) (s.rules.take i) s.drawn

def Session.reaches (s : Session) (req : NotifReq) (i : Nat) : Bool :=
  s.free (callOf s.arch req) && (s.before req i).1 == .next

def matchesRule (arch : Arch) (req : NotifReq) (e : Nat × FaultRule) : Bool :=
  e.1 == req.nr && ruleFilter (callOf arch req) e.2 == .consider

def Session.considers (s : Session) (req : NotifReq) (i : Nat) : Bool :=
  s.reaches req i && (s.rules[i]?).any (matchesRule s.arch req)

def Session.takes (s : Session) (req : NotifReq) (i : Nat) : Bool :=
  s.considers req i && (s.rules[i]?).any fun e =>
    e.2.selects s.decider (s.random (s.before req i).2.2) && e.2.action != .hold

variable {s : Session} {req : NotifReq} {i : Nat} {e : Nat × FaultRule}

theorem considers_iff (he : s.rules[i]? = some e) :
    s.considers req i = true ↔
      s.free (callOf s.arch req) = true ∧ (s.before req i).1 = .next ∧ e.1 = req.nr ∧
        ruleFilter (callOf s.arch req) e.2 = .consider := by
  simp [Session.considers, Session.reaches, matchesRule, he, and_assoc]

theorem takes_iff (he : s.rules[i]? = some e) :
    s.takes req i = true ↔
      s.considers req i = true ∧
        e.2.selects s.decider (s.random (s.before req i).2.2) = true ∧ e.2.action ≠ .hold := by
  simp [Session.takes, he]

theorem rules_handleNotification (s : Session) (req : NotifReq) :
    (handleNotification s req).2.rules =
      if s.free (callOf s.arch req) then (s.ruleLoop (callOf s.arch req)).2.1 else s.rules := by
  obtain ⟨n, hn⟩ := handleNotification_session s req
  rw [hn]
  by_cases hf : s.free (callOf s.arch req) = true
  · rw [if_pos hf, if_pos hf]
    exact List.take_append_drop _ _
  · rw [if_neg hf, if_neg hf]
    rfl

def FaultRule.counted (r : FaultRule) (decider : Option Decider) (draw : Draw) : FaultRule :=
  if r.shouldFire.1 then (r.shouldFire.2.fireDecision decider draw).2 else r.shouldFire.2

/-- A call changes the rule at a place only if the rule counts it. -/
theorem rule_handleNotification (req : NotifReq) (he : s.rules[i]? = some e) :
    (handleNotification s req).2.rules[i]? =
      some (if s.considers req i then
          (e.1, e.2.counted s.decider (s.random (s.before req i).2.2))
        else e) := by
  rw [rules_handleNotification]
  by_cases hf : s.free (callOf s.arch req) = true
  · rw [if_pos hf]
    by_cases hr : (s.before req i).1 = .next
    · have hl := scan.getElem?_run_of_reached he hr
      refine hl.trans (congrArg some ?_)
      by_cases hnr : e.1 = (callOf s.arch req).nr
      · cases hfi : ruleFilter (callOf s.arch req) e.2 with
        | skip =>
          rw [visit_of_skip hnr hfi, if_neg]
          rw [considers_iff he, hfi]
          simp
        | stop =>
          rw [visit_of_stop hnr hfi, if_neg]
          rw [considers_iff he, hfi]
          simp
        | consider =>
          rw [visit_rule_of_consider hnr hfi,
            if_pos ((considers_iff he).mpr ⟨hf, hr, hnr, hfi⟩)]
          rfl
      · rw [visit_of_other hnr, if_neg]
        rw [considers_iff he]
        exact fun h => hnr h.2.2.1
    · rw [if_neg (fun h => hr ((considers_iff he).mp h).2.1)]
      exact scan.getElem?_run_of_unreached he hr
  · rw [if_neg hf, if_neg (fun h => hf ((considers_iff he).mp h).1)]
    exact he

theorem outcome_of_takes (he : s.rules[i]? = some e) (h : s.takes req i = true) :
    (handleNotification s req).1 = .faulted e.2 := by
  obtain ⟨hc, hs, hh⟩ := (takes_iff he).mp h
  obtain ⟨hf, hr, hnr, hfi⟩ := (considers_iff he).mp hc
  have hsp : s.static ++ s.dynamicRules = s.rules.take i ++ e :: s.rules.drop (i + 1) := by
    have hlt : i < s.rules.length := (List.getElem?_eq_some_iff.mp he).1
    have hget : s.rules[i] = e := (List.getElem?_eq_some_iff.mp he).2
    rw [← hget, ← List.drop_eq_getElem_cons hlt, List.take_append_drop]
    rfl
  have hv : (visit s.decider s.random (callOf s.arch req) (s.before req i).2.2 e).1 = _ :=
    visit_of_consider hnr hfi
  rw [if_pos ⟨hs, hh⟩] at hv
  rw [outcome_of_free hf, Session.ruleLoop, hsp]
  have hl := scan.run_split hr e (s.rules.drop (i + 1)) (by
    show (visit _ _ _ (s.before req i).2.2 e).1 ≠ .next
    rw [hv]
    simp)
  rw [hl]
  exact congrArg Outcome.ofStep hv

theorem faulted_iff_takes (s : Session) (req : NotifReq) (rule : FaultRule) :
    (handleNotification s req).1 = .faulted rule ↔
      ∃ i e, s.rules[i]? = some e ∧ e.2 = rule ∧ s.takes req i = true := by
  constructor
  · intro h
    have hf := free_of_faulted h
    rw [outcome_of_free hf] at h
    obtain ⟨before, e, after, hs, hr, hv⟩ :=
      scan.exists_of_end (Outcome.take_of_faulted h) (by simp)
    obtain ⟨hnr, heq, hfi, hse, hh⟩ := of_taken hv
    have hru : s.rules = before ++ e :: after := hs
    have he : s.rules[before.length]? = some e := by simp [hru]
    have hb : s.before req before.length =
        scan.run (visit s.decider s.random (callOf s.arch req)) before s.drawn := by
      rw [Session.before, hru, List.take_left]
    refine ⟨before.length, e, he, heq, ?_⟩
    subst heq
    rw [takes_iff he, considers_iff he, hb]
    exact ⟨⟨hf, hr, hnr, hfi⟩, hse, hh⟩
  · rintro ⟨i, e, he, rfl, ht⟩
    exact outcome_of_takes he ht

/-! ## A run of calls -/

theorem installed_counted (r : FaultRule) (decider : Option Decider) (draw : Draw) :
    (r.counted decider draw).installed = r.installed := by
  unfold FaultRule.counted
  split
  · rw [FaultRule.installed_fireDecision, FaultRule.installed_shouldFire]
  · rw [FaultRule.installed_shouldFire]

theorem counter_counted (r : FaultRule) (decider : Option Decider) (draw : Draw) :
    (r.counted decider draw).counter = r.counter + 1 := by
  unfold FaultRule.counted FaultRule.fireDecision
  split
  · split
    · rfl
    · split
      · rfl
      · rfl
  · rfl

/-- A rule without a trigger that is not stochastic asks the decider about each
call that it counts. -/
structure AsksDecider (r : FaultRule) : Prop where
  trigger : r.trigger = .always
  mode : r.mode ≠ .stochastic

theorem AsksDecider.of_installed {r r' : FaultRule} (h : AsksDecider r)
    (hi : r'.installed = r.installed) : AsksDecider r' := by
  have ht : r'.trigger = r.trigger := (congrArg FaultRule.trigger hi :)
  have hm : r'.mode = r.mode := (congrArg FaultRule.mode hi :)
  exact ⟨ht.trans h.trigger, by rw [hm]; exact h.mode⟩

theorem probCounter_counted {r : FaultRule} (h : AsksDecider r) (d : Decider) (draw : Draw) :
    (r.counted (some d) draw).probCounter = r.probCounter + 1 := by
  unfold FaultRule.counted FaultRule.shouldFire FaultRule.fireDecision
    FaultRule.nextProbabilityOccurrence
  simp only [h.trigger, if_true, if_neg h.mode]

theorem selects_of_asksDecider {r : FaultRule} (h : AsksDecider r) (d : Decider) (draw : Draw) :
    r.selects (some d) draw =
      (d { r with counter := r.counter + 1, probCounter := r.probCounter + 1 }
        r.probCounter).getD (decide (draw.val < r.probability)) := by
  unfold FaultRule.selects FaultRule.shouldFire FaultRule.fireDecision
    FaultRule.nextProbabilityOccurrence
  simp only [h.trigger, if_neg h.mode, Bool.true_and]

def considered (s : Session) (reqs : List NotifReq) (i : Nat) : Nat :=
  (runs.trace handleNotification s reqs).countP fun o => o.1.considers o.2.1 i

theorem considered_cons (s : Session) (req : NotifReq) (reqs : List NotifReq) (i : Nat) :
    considered s (req :: reqs) i =
      considered (handleNotification s req).2 reqs i + if s.considers req i then 1 else 0 := by
  unfold considered
  rw [runs.trace, List.countP_cons]

/-- What a run leaves of a rule: the same rule, and each number that a counted
call raises by one is raised by the calls that the rule counted. -/
theorem rule_after {decider : Option Decider} (hd : s.decider = decider)
    (he : s.rules[i]? = some e) (count : FaultRule → Nat)
    (hc : ∀ r draw, r.installed = e.2.installed →
      count (r.counted decider draw) = count r + 1) (reqs : List NotifReq) :
    ∃ e', (runs.after handleNotification s reqs).rules[i]? = some e' ∧
      asInstalled e' = asInstalled e ∧ count e'.2 = count e.2 + considered s reqs i := by
  induction reqs generalizing s e with
  | nil => exact ⟨e, he, rfl, rfl⟩
  | cons req reqs ih =>
    have hd' := (handleNotification_config s req).2.1.trans hd
    have he' := rule_handleNotification req he
    rw [considered_cons]
    by_cases hco : s.considers req i = true
    · rw [if_pos hco, hd] at he'
      have hi := installed_counted e.2 decider (s.random (s.before req i).2.2)
      obtain ⟨e', hl, hs, hnum⟩ :=
        ih hd' he' (fun r draw hr => hc r draw (hr.trans hi))
      refine ⟨e', hl, hs.trans (congrArg (Prod.mk e.1) hi), ?_⟩
      rw [hnum, hc _ _ rfl, if_pos hco]
      omega
    · rw [if_neg hco] at he'
      obtain ⟨e', hl, hs, hnum⟩ := ih hd' he' hc
      exact ⟨e', hl, hs, by rw [hnum, if_neg hco, Nat.add_zero]⟩

theorem counter_after (he : s.rules[i]? = some e) (reqs : List NotifReq) :
    ∃ e', (runs.after handleNotification s reqs).rules[i]? = some e' ∧
      asInstalled e' = asInstalled e ∧ e'.2.counter = e.2.counter + considered s reqs i :=
  rule_after rfl he (·.counter) (fun r draw _ => counter_counted r s.decider draw) reqs

theorem occurrence_after {d : Decider} (hd : s.decider = some d) (he : s.rules[i]? = some e)
    (ha : AsksDecider e.2) (reqs : List NotifReq) :
    ∃ e', (runs.after handleNotification s reqs).rules[i]? = some e' ∧
      asInstalled e' = asInstalled e ∧ e'.2.probCounter = e.2.probCounter + considered s reqs i :=
  rule_after hd he (·.probCounter)
    (fun _ draw hr => probCounter_counted (ha.of_installed hr) d draw) reqs

theorem config_after (s : Session) (reqs : List NotifReq) :
    (runs.after handleNotification s reqs).arch = s.arch ∧
      (runs.after handleNotification s reqs).decider = s.decider ∧
      (runs.after handleNotification s reqs).static.length = s.static.length := by
  induction reqs generalizing s with
  | nil => exact ⟨rfl, rfl, rfl⟩
  | cons req reqs ih =>
    obtain ⟨ha, hd, hl⟩ := ih (handleNotification s req).2
    obtain ⟨ha', hd', -⟩ := handleNotification_config s req
    have hl' := congrArg List.length (handleNotification_installed s req).1
    rw [List.length_map, List.length_map] at hl'
    exact ⟨ha.trans ha', hd.trans hd', hl.trans hl'⟩

end faultbox.engine
