-- The reports of a closed window: each rule that matched no call gives a
-- fault_zero_traffic event, and a test that requires its faults to fire counts
-- these as bypassed. The law: a fault whose filters let a call through goes
-- unreported exactly when every system call of its family was made.
import Faultbox.FaultFamilies

open goval gopath faultbox.plan_tree faultbox.engine faultbox.event_log faultbox.test_result
open faultbox.test_run

namespace faultbox.syscall_faults

/-! ## The events of a closed window -/

def bypassedOf (svc : String) (r : DynamicRuleReport) : BypassedRule :=
  ⟨svc, r.syscall, actionName r.action, r.label⟩

theorem nodup_zeroTrafficFields (r : DynamicRuleReport) :
    ((zeroTrafficFields r).map Prod.fst).Nodup := by
  unfold zeroTrafficFields
  split_ifs <;> simp

theorem lookup_zeroTrafficFields (r : DynamicRuleReport) (key : String) :
    ((storeAll ∅ (zeroTrafficFields r)).lookup key).getD "" =
      ((zeroTrafficFields r).lookup key).getD "" := by
  rw [lookup_storeAll _ _ _ (nodup_zeroTrafficFields r)]
  cases (zeroTrafficFields r).lookup key with
  | none => rfl
  | some text => rfl

theorem fields_zeroTraffic (r : DynamicRuleReport) :
    ((zeroTrafficFields r).lookup "syscall").getD "" = r.syscall ∧
      ((zeroTrafficFields r).lookup "action").getD "" = actionName r.action ∧
      ((zeroTrafficFields r).lookup "label").getD "" = r.label := by
  unfold zeroTrafficFields
  refine ⟨rfl, rfl, ?_⟩
  by_cases hl : r.label = ""
  · split_ifs <;> simp [List.lookup_cons, hl]
  · split_ifs <;> simp [List.lookup_cons]

theorem bypassedRules_append (l l' : List Event) :
    bypassedRules (l ++ l') = bypassedRules l ++ bypassedRules l' := by
  simp [bypassedRules]

theorem bypassedRules_emit (log : EventLog) (svc : String) (r : DynamicRuleReport) :
    bypassedRules
        (log.emit "fault_zero_traffic" svc (storeAll ∅ (zeroTrafficFields r))).events =
      bypassedRules log.events ++ [bypassedOf svc r] := by
  obtain ⟨hs, ha, hl⟩ := fields_zeroTraffic r
  rw [emit_events, bypassedRules_append]
  congr 1
  simp only [bypassedRules, EventLog.newEvent, Event.field, beq_self_eq_true, List.filter_cons,
    if_true, List.filter_nil, List.map_cons, List.map_nil, lookup_zeroTrafficFields, hs,
    ha, hl, bypassedOf]

theorem bypassedRules_reportZeroTraffic (rt : Runtime) (svc : String)
    (reports : List DynamicRuleReport) :
    bypassedRules (rt.reportZeroTraffic svc reports).events.events =
      bypassedRules rt.events.events ++ reports.map (bypassedOf svc) := by
  unfold Runtime.reportZeroTraffic
  induction reports generalizing rt with
  | nil => simp
  | cons r reports ih =>
    have he : bypassedRules
        (rt.emit "fault_zero_traffic" svc (zeroTrafficFields r)).events.events =
        bypassedRules rt.events.events ++ [bypassedOf svc r] := bypassedRules_emit rt.events svc r
    rw [List.foldl_cons, ih, he, List.append_assoc, List.map_cons]
    rfl

theorem bypassedRules_removeFaults (order : MapOrder) (rt : Runtime) (svc : String) (s : Session)
    (hs : rt.session svc = some s) :
    bypassedRules (removeFaults order rt svc).events.events =
      bypassedRules rt.events.events ++ (zeroTraffic order s).map (bypassedOf svc) := by
  have hse : Runtime.session { rt with faults := rt.faults.erase svc } svc = some s := hs
  have hr : ∀ (rt' : Runtime), bypassedRules (rt'.emit "fault_removed" svc []).events.events =
      bypassedRules rt'.events.events := by
    intro rt'
    unfold Runtime.emit
    rw [emit_events, bypassedRules_append]
    simp [bypassedRules, EventLog.newEvent]
  unfold removeFaults
  rw [hr, hse]
  exact bypassedRules_reportZeroTraffic _ svc _

/-! ## The reports of one fault -/

def zeroTrafficOf (s : Session) (rules : List (Nat × FaultRule)) : List DynamicRuleReport :=
  (rules.map fun e => reportOf s e.2).filter fun r => r.matchCount = 0

theorem zeroTrafficOf_eq_nil {s : Session} {rules : List (Nat × FaultRule)} :
    zeroTrafficOf s rules = [] ↔ ∀ e ∈ rules, e.2.counter ≠ 0 := by
  rw [zeroTrafficOf, List.filter_eq_nil_iff, List.forall_mem_map]
  simp only [decide_eq_true_eq]
  exact Iff.rfl

namespace Window

variable (w : Window)

def familyAt (s : Session) : List (Nat × FaultRule) :=
  (s.rules.drop w.start).take w.family.length

def othersAt (s : Session) : List (Nat × FaultRule) :=
  s.dynamicRules.take (w.start - s.static.length) ++
    s.dynamicRules.drop (w.start - s.static.length + w.family.length)

theorem zeroTraffic_perm (order : MapOrder) {s : Session}
    (hs : s.static.length = w.launched.static.length) :
    (zeroTraffic order s).Perm
      (zeroTrafficOf s (w.familyAt s) ++ zeroTrafficOf s (w.othersAt s)) := by
  have hst : w.start = s.static.length + (w.start - s.static.length) := by
    have hle : w.launched.static.length ≤ w.start := Nat.le_add_right _ _
    omega
  set n := w.start - s.static.length with hn
  have hd : s.rules.drop w.start = s.dynamicRules.drop n := by
    rw [hst, Session.rules, ← List.drop_drop, List.drop_left]
  have hp : s.dynamicRules.Perm (w.familyAt s ++ w.othersAt s) := by
    unfold familyAt othersAt
    rw [hd, ← hn]
    have hsp : s.dynamicRules = s.dynamicRules.take n ++
        ((s.dynamicRules.drop n).take w.family.length ++
          s.dynamicRules.drop (n + w.family.length)) := by
      rw [← List.drop_drop, List.take_append_drop, List.take_append_drop]
    have hc := List.perm_append_comm_assoc (s.dynamicRules.take n)
      ((s.dynamicRules.drop n).take w.family.length) (s.dynamicRules.drop (n + w.family.length))
    rw [← hsp] at hc
    exact hc
  have hr := (order.perm (dynamicRuleActivity s)).filter fun r => decide (r.matchCount = 0)
  refine hr.trans ?_
  unfold zeroTrafficOf dynamicRuleActivity
  rw [← List.filter_append, ← List.map_append]
  exact (hp.map _).filter _

/-- The fault goes unreported when each of its rules counted a call. -/
theorem unreported_iff (reqs : List NotifReq) :
    zeroTrafficOf (runs.after handleNotification w.session reqs)
        (w.familyAt (runs.after handleNotification w.session reqs)) = [] ↔
      ∀ j < w.family.length, ∃ o ∈ w.trace reqs, o.1.considers o.2.1 (w.start + j) = true := by
  have hc : ∀ j (hj : j < w.family.length), ∃ e,
      (w.familyAt (runs.after handleNotification w.session reqs))[j]? = some e ∧
        (e.2.counter ≠ 0 ↔ ∃ o ∈ w.trace reqs, o.1.considers o.2.1 (w.start + j) = true) := by
    intro j hj
    obtain ⟨e, he, -, hco⟩ :=
      counter_after (w.rule_at_start (List.getElem?_eq_getElem hj)) reqs
    obtain ⟨sc, hsc⟩ := w.exists_syscall_of_mem (List.getElem_mem hj)
    have hz : w.family[j].2.counter = 0 := by
      rw [hsc, ← installed_engineRule]
      rfl
    refine ⟨e, ?_, ?_⟩
    · rw [familyAt, List.getElem?_take_of_lt hj, List.getElem?_drop]
      exact he
    · rw [hco, hz, Nat.zero_add, ← Nat.pos_iff_ne_zero, considered, List.countP_pos_iff]
      rfl
  rw [zeroTrafficOf_eq_nil]
  constructor
  · intro h j hj
    obtain ⟨e, he, hiff⟩ := hc j hj
    exact hiff.mp (h e (List.mem_of_getElem? he))
  · intro h e he
    obtain ⟨j, hj⟩ := List.mem_iff_getElem?.mp he
    have hlt : j < w.family.length := by
      have hlt' := (List.getElem?_eq_some_iff.mp hj).1
      rw [familyAt, List.length_take] at hlt'
      omega
    obtain ⟨e', he', hiff⟩ := hc j hlt
    rw [hj] at he'
    obtain rfl := Option.some.inj he'
    exact hiff.mpr (h j hlt)

end Window

/-- Closing a window reports the rules without a match, those of the fault and
those of the other faults. A fault that let a call through goes unreported
exactly when each rule of its family counted a call. -/
theorem a_used_fault_is_not_reported_iff (w : Window) (reqs : List NotifReq) (order : MapOrder)
    (rt : Runtime) (s : Session) (hs : s = runs.after handleNotification w.session reqs)
    (hclose : rt.session w.svc = some s) :
    (bypassedRules (removeFaults order rt w.svc).events.events).Perm
      (bypassedRules rt.events.events ++
        (zeroTrafficOf s (w.familyAt s) ++ zeroTrafficOf s (w.othersAt s)).map
          (bypassedOf w.svc)) ∧
    (((∃ req ∈ reqs, w.passes req = true) → zeroTrafficOf s (w.familyAt s) = []) ↔
      ((∃ req ∈ reqs, w.passes req = true) →
        ∀ j < w.family.length, ∃ o ∈ w.trace reqs,
          o.1.considers o.2.1 (w.start + j) = true)) := by
  constructor
  · have hl : s.static.length = w.launched.static.length := by
      rw [hs]
      exact (config_after w.session reqs).2.2
    rw [bypassedRules_removeFaults order rt w.svc s hclose]
    exact ((w.zeroTraffic_perm order hl).map _).append_left _
  · rw [hs]
    exact imp_congr_right fun _ => w.unreported_iff reqs

def walAfter (reqs : List NotifReq) : Runtime :=
  walWindow.rt.setSession "db" (runs.after handleNotification walWindow.session reqs)

def pwrite64Of (path : Option String) : NotifReq := { writeOf path with nr := 18 }

theorem a_fault_with_all_its_calls_is_not_reported :
    zeroTrafficOf
        (runs.after handleNotification walWindow.session
          [writeOf (some "/data/wal"), writevOf (some "/data/wal"), pwrite64Of (some "/data/wal")])
        (walWindow.familyAt (runs.after handleNotification walWindow.session
          [writeOf (some "/data/wal"), writevOf (some "/data/wal"),
            pwrite64Of (some "/data/wal")])) = [] := by
  apply (a_used_fault_is_not_reported_iff walWindow
    [writeOf (some "/data/wal"), writevOf (some "/data/wal"), pwrite64Of (some "/data/wal")]
    .asStored (walAfter _) _ rfl rfl).2.mpr
  · intro _
    decide +kernel
  · exact ⟨writeOf (some "/data/wal"), by simp, by decide⟩

/-- One write matches the fault on `write`, and still the closed window reports
the fault's rules for writev and pwrite64 as bypassed. -/
theorem unused_siblings_are_reported :
    walWindow.passes (writeOf (some "/data/wal")) = true ∧
      (runs.answers handleNotification walWindow.session [writeOf (some "/data/wal")]) =
        [.faulted (engineRule "db" "write" (halfOfTheWrites 2 "wal") "write")] ∧
      bypassedRules
          (removeFaults .asStored (walAfter [writeOf (some "/data/wal")]) "db").events.events =
        [⟨"db", "writev", "deny", "wal"⟩, ⟨"db", "pwrite64", "deny", "wal"⟩] := by
  exact ⟨by decide +kernel, by decide +kernel, by decide +kernel⟩

end faultbox.syscall_faults
