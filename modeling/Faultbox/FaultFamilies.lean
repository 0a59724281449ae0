-- One declared fault is several rules of the engine, one for each system call of
-- its family, with counters of their own. The laws say what that does to the
-- vector of an exhaustive fault, whose occurrences are counted for each rule,
-- and to the reports of a closed window, which are made for each rule.
import Faultbox.Placeholders
import Faultbox.RuleActivity
import Faultbox.TestRun

open goval gopath faultbox.plan_tree faultbox.engine faultbox.event_log

namespace faultbox.syscall_faults

/-! ## A window and one of its faults -/

/-- An open window on a running service, and one of the faults declared on it. -/
structure Window where
  rt : Runtime
  svc : String
  earlier : Faults
  fault : String × FaultDef
  later : Faults
  launched : Session
  running : rt.session svc = some launched
  opened : (applyFaults rt svc (earlier ++ fault :: later)).1 = none

namespace Window

variable (w : Window)

def session : Session :=
  setDynamicFaultRules w.launched (engineRules w.svc (w.earlier ++ w.fault :: w.later))

def family : List (Nat × FaultRule) :=
  (keywordRules w.svc w.fault).filterMap (resolve w.launched.arch)

def start : Nat :=
  w.launched.static.length +
    ((engineRules w.svc w.earlier).filterMap (resolve w.launched.arch)).length

def passes (req : NotifReq) : Bool := w.family.any (matchesRule w.launched.arch req)

def trace (reqs : List NotifReq) : List (Session × NotifReq × Outcome) :=
  runs.trace handleNotification w.session reqs

theorem rules_session :
    w.session.rules = (w.launched.static ++
        (engineRules w.svc w.earlier).filterMap (resolve w.launched.arch)) ++
      (w.family ++ (engineRules w.svc w.later).filterMap (resolve w.launched.arch)) := by
  simp [session, Session.rules, setDynamicFaultRules, engineRules, family]

theorem rule_at_start {j : Nat} {e : Nat × FaultRule} (h : w.family[j]? = some e) :
    w.session.rules[w.start + j]? = some e := by
  have hlt : j < w.family.length := (List.getElem?_eq_some_iff.mp h).1
  have hl : w.start = (w.launched.static ++
      (engineRules w.svc w.earlier).filterMap (resolve w.launched.arch)).length := by
    simp [start]
  rw [rules_session, hl, List.getElem?_append_right (Nat.le_add_right _ _),
    Nat.add_sub_cancel_left, List.getElem?_append_left hlt]
  exact h

theorem exists_syscall_of_mem {e : Nat × FaultRule} (h : e ∈ w.family) :
    ∃ sc, e.2 = engineRule w.svc w.fault.1 w.fault.2 sc := by
  obtain ⟨sc, -, heq⟩ := List.mem_map.mp (mem_of_resolved h)
  exact ⟨sc, heq.symm⟩

/-- During the window each rule of the fault stays at its place. -/
def Keeps (s : Session) : Prop :=
  s.arch = w.launched.arch ∧ ∀ j e, w.family[j]? = some e →
    ∃ e', s.rules[w.start + j]? = some e' ∧ asInstalled e' = asInstalled e

theorem keeps_after (reqs : List NotifReq) :
    w.Keeps (runs.after handleNotification w.session reqs) := by
  refine ⟨(config_after w.session reqs).1, ?_⟩
  intro j e hj
  obtain ⟨e', he', hs, -⟩ := counter_after (w.rule_at_start hj) reqs
  exact ⟨e', he', hs⟩

variable {w}

theorem matchesRule_installed (arch : Arch) (req : NotifReq) {e e' : Nat × FaultRule}
    (h : asInstalled e' = asInstalled e) : matchesRule arch req e' = matchesRule arch req e := by
  have hs : ∀ x : Nat × FaultRule,
      matchesRule arch req x = matchesRule arch req (asInstalled x) := fun _ => rfl
  rw [hs e', hs e, h]

theorem passes_of_considers {s : Session} (hs : w.Keeps s) {req : NotifReq} {j : Nat}
    (hj : j < w.family.length) (h : s.considers req (w.start + j) = true) :
    w.passes req = true := by
  have hget := List.getElem?_eq_getElem hj
  obtain ⟨e', he', hsa⟩ := hs.2 j _ hget
  rw [Session.considers, he', Bool.and_eq_true, Option.any_some, hs.1,
    matchesRule_installed _ _ hsa] at h
  exact List.any_eq_true.mpr ⟨_, List.getElem_mem hj, h.2⟩

end Window

/-! ## The vector of an exhaustive fault -/

def Window.faults (w : Window) (s : Session) (req : NotifReq) : Bool :=
  (List.range w.family.length).any fun j => s.takes req (w.start + j)

/-- The call is answered with a fault, and a rule of this one took it. -/
def Window.Faulted (w : Window) (o : Session × NotifReq × Outcome) : Prop :=
  (∃ rule, o.2.2 = .faulted rule) ∧ w.faults o.1 o.2.1 = true

theorem Window.faulted_iff (w : Window) {reqs : List NotifReq} {o : Session × NotifReq × Outcome}
    (h : o ∈ w.trace reqs) : w.Faulted o ↔ w.faults o.1 o.2.1 = true := by
  refine ⟨And.right, fun hf => ⟨?_, hf⟩⟩
  obtain ⟨j, -, ht⟩ := List.any_eq_true.mp hf
  cases he : o.1.rules[w.start + j]? with
  | none => simp [Session.takes, he] at ht
  | some e =>
    rw [← runs.answer_of_mem_trace h]
    exact ⟨e.2, (faulted_iff_takes o.1 o.2.1 e.2).mpr ⟨_, e, he, rfl, ht⟩⟩

/-- A rule of the fault counts the call, and the vector is true at the number of
calls that this rule has counted before. -/
def Window.pinned (w : Window) (v : List Bool) (pre : List (Session × NotifReq × Outcome))
    (s : Session) (req : NotifReq) : Bool :=
  (List.range w.family.length).any fun j => s.considers req (w.start + j) &&
    v[pre.countP fun o => o.1.considers o.2.1 (w.start + j)]? == some true

theorem siteKey_ne_empty (svc kw : String) (fd : FaultDef) : siteKey svc kw fd ≠ "" := by
  unfold siteKey
  by_cases h : fd.label = ""
  · rw [if_pos h]
    intro hnil
    have hl := congrArg String.length hnil
    simp at hl
  · rw [if_neg h]
    exact h

section Exhaustive

variable {svc kw sc : String} {fd : FaultDef}

theorem asksDecider_engineRule (hfan : fd.fansOut = true) :
    AsksDecider (engineRule svc kw fd sc) := by
  have hm : fd.mode ≠ .stochastic := by
    simp only [FaultDef.fansOut, Bool.and_eq_true, bne_iff_ne] at hfan
    exact hfan.2
  unfold engineRule
  cases fd.action with
  | deny => exact ⟨rfl, hm⟩
  | delay => exact ⟨rfl, hm⟩
  | allow => exact ⟨rfl, hm⟩

theorem label_engineRule (hfan : fd.fansOut = true) :
    (engineRule svc kw fd sc).label = siteKey svc kw fd := by
  unfold engineRule
  rw [if_pos hfan]
  cases fd.action with
  | deny => rfl
  | delay => rfl
  | allow => rfl

theorem action_engineRule : (engineRule svc kw fd sc).action ≠ .hold := by
  unfold engineRule
  cases fd.action with
  | deny => simp
  | delay => simp
  | allow => simp

theorem installed_engineRule :
    (engineRule svc kw fd sc).installed = engineRule svc kw fd sc := by
  unfold engineRule
  cases fd.action with
  | deny => rfl
  | delay => rfl
  | allow => rfl

theorem probabilityDecider_of_label {leaf : PlanLeaf} {v : List Bool} {r : FaultRule}
    (hne : r.label ≠ "") (hv : leaf.probabilityOutcomes.lookup r.label = some v) (n : Nat) :
    probabilityDecider svc (some leaf) r n = v[n]? := by
  unfold probabilityDecider probabilityFire
  rw [if_neg hne]
  dsimp only
  rw [if_neg hne, hv, Option.bind_some]

theorem selects_of_vector {leaf : PlanLeaf} {v : List Bool} {r : FaultRule}
    (hfan : fd.fansOut = true) (hr : r.installed = engineRule svc kw fd sc)
    (hv : leaf.probabilityOutcomes.lookup (siteKey svc kw fd) = some v)
    (hlt : r.probCounter < v.length) (draw : Draw) :
    r.selects (some (probabilityDecider svc (some leaf))) draw =
      (v[r.probCounter]? == some true) := by
  have ha := (asksDecider_engineRule hfan).of_installed (hr.trans installed_engineRule.symm)
  have hl : r.label = siteKey svc kw fd :=
    (congrArg FaultRule.label hr :).trans (label_engineRule hfan)
  rw [selects_of_asksDecider ha, probabilityDecider_of_label, List.getElem?_eq_getElem hlt]
  · cases v[r.probCounter] with
    | true => rfl
    | false => rfl
  · rw [hl]
    exact siteKey_ne_empty svc kw fd
  · rw [hl]
    exact hv

end Exhaustive

section Vector

variable (w : Window) (leaf : PlanLeaf) (v : List Bool) (reqs : List NotifReq)
  (hleaf : w.launched.decider = some (probabilityDecider w.svc (some leaf)))
  (hfan : w.fault.2.fansOut = true)
  (hv : leaf.probabilityOutcomes.lookup (siteKey w.svc w.fault.1 w.fault.2) = some v)
  {pre post : List (Session × NotifReq × Outcome)} {o : Session × NotifReq × Outcome}
  (hsplit : w.trace reqs = pre ++ o :: post)
  (hlt : pre.countP (fun p => w.passes p.2.1) < v.length)

include hleaf hfan hv hsplit hlt

/-- One rule of the fault takes a call exactly when it counts the call and the
vector is true at its own occurrence. -/
theorem takes_eq_vector {j : Nat} (hj : j < w.family.length) :
    o.1.takes o.2.1 (w.start + j) = (o.1.considers o.2.1 (w.start + j) &&
      v[pre.countP fun p => p.1.considers p.2.1 (w.start + j)]? == some true) := by
  obtain ⟨before, hpre, hb⟩ := runs.trace_split hsplit
  have hget := List.getElem?_eq_getElem hj
  obtain ⟨sc, hsc⟩ := w.exists_syscall_of_mem (List.getElem_mem hj)
  -- the calls that this rule counted are among those that passed the filters
  have hc : considered w.session before (w.start + j) ≤
      pre.countP (fun p => w.passes p.2.1) := by
    rw [considered, hpre]
    apply List.countP_mono_left
    intro p hp hco
    obtain ⟨pre', post', hp'⟩ := List.append_of_mem hp
    obtain ⟨earlier, -, hs⟩ := runs.trace_split hp'
    exact Window.passes_of_considers (hs ▸ w.keeps_after earlier) hj hco
  have ha : AsksDecider w.family[j].2 := hsc ▸ asksDecider_engineRule hfan
  have ho : w.session.decider = some (probabilityDecider w.svc (some leaf)) := hleaf
  obtain ⟨e', he', hsa, hocc⟩ := occurrence_after ho (w.rule_at_start hget) ha before
  have hi : e'.2.installed = engineRule w.svc w.fault.1 w.fault.2 sc := by
    rw [← installed_engineRule, ← hsc]
    exact congrArg Prod.snd hsa
  have hz : w.family[j].2.probCounter = 0 := by
    rw [hsc, ← installed_engineRule]
    rfl
  rw [hz, Nat.zero_add] at hocc
  have hse : ∀ draw, e'.2.selects (some (probabilityDecider w.svc (some leaf))) draw = _ :=
    selects_of_vector hfan hi hv (by rw [hocc]; omega)
  have hh : e'.2.action ≠ .hold := by
    have hact : e'.2.action = (engineRule w.svc w.fault.1 w.fault.2 sc).action :=
      (congrArg FaultRule.action hi :)
    rw [hact]
    exact action_engineRule
  have hd : o.1.decider = some (probabilityDecider w.svc (some leaf)) := by
    rw [hb, (config_after w.session before).2.1]
    exact ho
  rw [← hb] at he'
  rw [Session.takes, he', Option.any_some, hd, hse, hocc, bne_iff_ne.mpr hh,
    Bool.and_true, hpre]
  rfl

theorem faults_eq_pinned : w.faults o.1 o.2.1 = w.pinned v pre o.1 o.2.1 := by
  unfold Window.faults Window.pinned
  rw [Bool.eq_iff_iff, List.any_eq_true, List.any_eq_true]
  refine exists_congr fun j => and_congr_right fun hj => ?_
  rw [takes_eq_vector w leaf v reqs hleaf hfan hv hsplit hlt (List.mem_range.mp hj)]

end Vector

/-- The k-th call of the family that passes the filters is faulted as the vector
says at k, exactly when at each such call the rule that counts it finds the same
value at its own occurrence. -/
theorem the_vector_drives_the_fault_iff (w : Window) (leaf : PlanLeaf) (v : List Bool)
    (reqs : List NotifReq)
    (hleaf : w.launched.decider = some (probabilityDecider w.svc (some leaf)))
    (hfan : w.fault.2.fansOut = true)
    (hv : leaf.probabilityOutcomes.lookup (siteKey w.svc w.fault.1 w.fault.2) = some v) :
    (∀ pre o post b, w.trace reqs = pre ++ o :: post → w.passes o.2.1 = true →
      v[pre.countP fun p => w.passes p.2.1]? = some b → (w.Faulted o ↔ b = true)) ↔
    (∀ pre o post b, w.trace reqs = pre ++ o :: post → w.passes o.2.1 = true →
      v[pre.countP fun p => w.passes p.2.1]? = some b → w.pinned v pre o.1 o.2.1 = b) := by
  refine forall₄_congr fun pre o post b => forall_congr' fun hsplit =>
    imp_congr_right fun _ => forall_congr' fun hb => ?_
  have hmem : o ∈ w.trace reqs := by simp [hsplit]
  rw [w.faulted_iff hmem, faults_eq_pinned w leaf v reqs hleaf hfan hv hsplit
    (List.getElem?_eq_some_iff.mp hb).1]
  exact Bool.eq_iff_iff.symm

/-! ### A fault on the writes of a log -/

/-- A window with `write = deny("EIO", probability = 0.5, max_fires = 2, label = "wal")`
on `db`, in the leaf where the first firing happens and the second does not. -/
def walWindow : Window where
  rt := runningDb "wal" [true, false]
  svc := "db"
  earlier := []
  fault := ("write", halfOfTheWrites 2 "wal")
  later := []
  launched := { launchedDb with
    decider := some (probabilityDecider "db" (some { PlanLeaf.blank 0 with
      probabilityOutcomes := (∅ : GoMap String (List Bool)).insert "wal" [true, false] })) }
  running := rfl
  opened := by decide

def writevOf (path : Option String) : NotifReq := { writeOf path with nr := 20 }

/-- Two writes are calls of one rule: the first is denied, the second is not. -/
theorem two_writes_follow_the_vector :
    walWindow.passes (writeOf (some "/data/wal")) = true ∧
      ∀ pre o post b,
        walWindow.trace [writeOf (some "/data/wal"), writeOf (some "/data/wal")] =
          pre ++ o :: post →
        walWindow.passes o.2.1 = true →
        [true, false][pre.countP fun p => walWindow.passes p.2.1]? = some b →
        (walWindow.Faulted o ↔ b = true) := by
  refine ⟨by decide, ?_⟩
  apply (the_vector_drives_the_fault_iff walWindow _ [true, false]
    [writeOf (some "/data/wal"), writeOf (some "/data/wal")] rfl
    (by decide +kernel) (by decide +kernel)).mpr
  rintro (_ | ⟨p, _ | ⟨q, pre⟩⟩) o post b hsplit - hb
  · obtain ⟨rfl, -⟩ := List.cons.inj hsplit
    obtain rfl : true = b := Option.some.inj hb
    decide
  · obtain ⟨rfl, hrest⟩ := List.cons.inj hsplit
    obtain ⟨rfl, -⟩ := List.cons.inj hrest
    obtain rfl : false = b := Option.some.inj hb
    decide +kernel
  · have hl := congrArg List.length hsplit
    simp [Window.trace, runs.trace] at hl

/-- A write and then a writev are both denied: the second call of the family
finds the rule for writev at its own first occurrence. -/
theorem a_sibling_starts_the_vector_again :
    walWindow.passes (writeOf (some "/data/wal")) = true ∧
      walWindow.passes (writevOf (some "/data/wal")) = true ∧
      runs.answers handleNotification walWindow.session
          [writeOf (some "/data/wal"), writevOf (some "/data/wal")] =
        [.faulted (engineRule "db" "write" (halfOfTheWrites 2 "wal") "write"),
          .faulted (engineRule "db" "write" (halfOfTheWrites 2 "wal") "writev")] := by
  exact ⟨by decide +kernel, by decide +kernel, by decide +kernel⟩

end faultbox.syscall_faults
