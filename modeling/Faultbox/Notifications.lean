-- The supervisor of one service: what handleNotification does with a system
-- call that the kernel reports. Rules are kept under the number of their system
-- call. Handlers of other calls may run in between; they change counters and
-- take random draws, so the laws of one call are stated for every state.
import Faultbox.FaultRules
import Faultbox.Scan

open gopath

namespace faultbox.engine

/-! ## The call -/

/-- What /proc shows of the process that made the call. -/
structure Process where
  pread : Nat → Option Bytes
  readlink : Nat → Option Bytes
  sockaddr : Nat → Option (String × Nat)

structure NotifReq where
  nr : Nat
  args : Nat → Nat
  proc : Process

def readStringFromProcess (p : Process) (addr maxLen : Nat) : Option Bytes :=
  if addr = 0 then some []
  else (p.pread addr).map fun buf => (buf.take maxLen).takeWhile (· ≠ 0)

/-- The file of the call, as /proc resolves it. -/
def resolvedPath (name : String) (req : NotifReq) : Option Bytes :=
  if isFileSyscall name then
    readStringFromProcess req.proc (req.args (if name = "open" then 0 else 1)) 256
  else if isFdSyscall name then req.proc.readlink (req.args 0)
  else none

/-- The variable `path` of handleNotification. -/
def pathOf (name : String) (req : NotifReq) : Bytes :=
  match resolvedPath name req with
  | none => []
  | some p => if isFdSyscall name && isSystemPath p then [] else p

/-- The values that handleNotification reads from a notification. -/
structure Call where
  nr : Nat
  name : String
  path : Bytes
  destIP : String
  destPort : Nat

def callOf (arch : Arch) (req : NotifReq) : Call :=
  let name := syscallName arch req.nr
  let dest := if name = "connect" then req.proc.sockaddr (req.args 1) else none
  ⟨req.nr, name, pathOf name req, (dest.map (·.1)).getD "", (dest.map (·.2)).getD 0⟩

def Call.hasPath (c : Call) : Bool := isFileSyscall c.name || isFdSyscall c.name

/-! ## The session -/

/-- `Session`, with its configuration and the state of its random numbers. -/
structure Session where
  arch : Arch
  faultRules : List FaultRule
  static : List (Nat × FaultRule)
  dynamicRules : List (Nat × FaultRule)
  holdRules : List (Nat × FaultRule)
  holdQueues : List String
  virtualTime : Bool
  decider : Option Decider
  random : Nat → Draw
  drawn : Nat
  unresolvedPaths : Nat

/-- How a notification ends: the rule that took effect, if one did. -/
inductive Outcome where
  | virtualTime
  | held (rule : FaultRule)
  | faulted (rule : FaultRule)
  | allowed (systemPath : Bool)
deriving DecidableEq

def Outcome.effective : Outcome → Option FaultRule
  | .held rule => some rule
  | .faulted rule => some rule
  | _ => none

/-! ## Hold rules -/

def holdPasses (c : Call) (r : FaultRule) : Bool :=
  !(isFileSyscall c.name && c.path != [] && r.pathGlob != []) || r.onPath c.path

def Session.heldBy (s : Session) (c : Call) : Option FaultRule :=
  (s.holdRules.find? fun e =>
    e.1 == c.nr && holdPasses c e.2 && s.holdQueues.contains e.2.holdTag).map (·.2)

/-! ## Fault rules -/

inductive Filter where
  | skip
  | stop
  | consider
deriving DecidableEq

def destFilter (c : Call) (r : FaultRule) : Filter :=
  if r.destAddr ≠ "" ∧ c.name = "connect" ∧
      (c.destIP = "" ∨ c.destIP ++ ":" ++ toString c.destPort ≠ r.destAddr) then .skip
  else .consider

/-- What the filters of the rule loop say about one rule. -/
def ruleFilter (c : Call) (r : FaultRule) : Filter :=
  if c.hasPath ∧ c.path ≠ [] then
    if r.pathGlob ≠ [] then
      if r.onPath c.path then destFilter c r else .skip
    else if isSystemPath c.path then .stop
    else destFilter c r
  else destFilter c r

/-- One turn of the loop over the fault rules. -/
def visit (decider : Option Decider) (random : Nat → Draw) (c : Call) (drawn : Nat)
    (e : Nat × FaultRule) : scan.Step FaultRule × (Nat × FaultRule) × Nat :=
  if e.1 ≠ c.nr then (.next, e, drawn)
  else match ruleFilter c e.2 with
    | .skip => (.next, e, drawn)
    | .stop => (.stop, e, drawn)
    | .consider =>
      if e.2.shouldFire.1 then
        let (fire, r) := e.2.shouldFire.2.fireDecision decider (random drawn)
        -- a fault rule with the action hold matches no case of the switch
        if fire ∧ r.action ≠ .hold then (.take e.2, (e.1, r), drawn + 1)
        else (.next, (e.1, r), drawn + 1)
      else (.next, (e.1, e.2.shouldFire.2), drawn)

def Session.ruleLoop (s : Session) (c : Call) :
    scan.Step FaultRule × List (Nat × FaultRule) × Nat :=
  scan.run (visit s.decider s.random c) (s.static ++ s.dynamicRules) s.drawn

def Session.countUnresolved (s : Session) (req : NotifReq) : Session :=
  let name := syscallName s.arch req.nr
  if (isFileSyscall name || isFdSyscall name) && (resolvedPath name req).isNone then
    { s with unresolvedPaths := s.unresolvedPaths + 1 }
  else s

def handleNotification (s : Session) (req : NotifReq) : Outcome × Session :=
  let c := callOf s.arch req
  let s := s.countUnresolved req
  if s.virtualTime && isTimeSyscall c.name then (.virtualTime, s)
  else match s.heldBy c with
    | some rule => (.held rule, s)
    | none =>
      let r := s.ruleLoop c
      let s := { s with
        static := r.2.1.take s.static.length
        dynamicRules := r.2.1.drop s.static.length
        drawn := r.2.2 }
      match r.1 with
      | .take rule => (.faulted rule, s)
      | .stop => (.allowed true, s)
      | .next => (.allowed false, s)

def asInstalled (e : Nat × FaultRule) : Nat × FaultRule := (e.1, e.2.installed)

/-! ## Equations of one turn -/

section Visit

variable {decider : Option Decider} {random : Nat → Draw} {c : Call} {drawn : Nat}
  {e : Nat × FaultRule}

theorem visit_of_other (h : e.1 ≠ c.nr) :
    visit decider random c drawn e = (.next, e, drawn) := by
  rw [visit, if_pos h]

theorem visit_of_skip (hnr : e.1 = c.nr) (h : ruleFilter c e.2 = .skip) :
    visit decider random c drawn e = (.next, e, drawn) := by
  rw [visit, if_neg (not_not.mpr hnr), h]

theorem visit_of_stop (hnr : e.1 = c.nr) (h : ruleFilter c e.2 = .stop) :
    visit decider random c drawn e = (.stop, e, drawn) := by
  rw [visit, if_neg (not_not.mpr hnr), h]

theorem action_fireDecision (draw : Draw) (r : FaultRule) :
    (r.fireDecision decider draw).2.action = r.action :=
  (congrArg FaultRule.action (FaultRule.installed_fireDecision decider draw r) :)

theorem visit_of_consider (hnr : e.1 = c.nr) (h : ruleFilter c e.2 = .consider) :
    (visit decider random c drawn e).1 =
      if e.2.selects decider (random drawn) ∧ e.2.action ≠ .hold then .take e.2 else .next := by
  rw [visit, if_neg (not_not.mpr hnr), h]
  unfold FaultRule.selects
  have hact : (e.2.shouldFire.2.fireDecision decider (random drawn)).2.action = e.2.action :=
    action_fireDecision (random drawn) e.2.shouldFire.2
  by_cases hs : e.2.shouldFire.1 = true
  · simp only [hs, if_true, Bool.true_and, hact]
    split
    · rfl
    · rfl
  · simp [hs]

theorem visit_drawn_of_consider (hnr : e.1 = c.nr) (h : ruleFilter c e.2 = .consider) :
    (visit decider random c drawn e).2.2 = if e.2.shouldFire.1 then drawn + 1 else drawn := by
  rw [visit, if_neg (not_not.mpr hnr), h]
  by_cases hs : e.2.shouldFire.1 = true
  · simp only [hs, if_true]
    split <;> rfl
  · simp [hs]

theorem visit_rule_of_consider (hnr : e.1 = c.nr) (h : ruleFilter c e.2 = .consider) :
    (visit decider random c drawn e).2.1 =
      (e.1, if e.2.shouldFire.1 then (e.2.shouldFire.2.fireDecision decider (random drawn)).2
        else e.2.shouldFire.2) := by
  rw [visit, if_neg (not_not.mpr hnr), h]
  by_cases hs : e.2.shouldFire.1 = true
  · simp only [hs, if_true]
    split <;> rfl
  · simp [hs]

theorem visit_installed (decider : Option Decider) (random : Nat → Draw) (c : Call) (drawn : Nat)
    (e : Nat × FaultRule) :
    asInstalled (visit decider random c drawn e).2.1 = asInstalled e := by
  unfold asInstalled
  by_cases hnr : e.1 = c.nr
  · cases hf : ruleFilter c e.2 with
    | skip => rw [visit_of_skip hnr hf]
    | stop => rw [visit_of_stop hnr hf]
    | consider =>
      rw [visit_rule_of_consider hnr hf]
      by_cases hs : e.2.shouldFire.1 = true
      · rw [if_pos hs, FaultRule.installed_fireDecision, FaultRule.installed_shouldFire]
      · rw [if_neg hs, FaultRule.installed_shouldFire]
  · rw [visit_of_other hnr]

theorem of_taken {rule : FaultRule} (h : (visit decider random c drawn e).1 = .take rule) :
    e.1 = c.nr ∧ e.2 = rule ∧ ruleFilter c rule = .consider ∧
      rule.selects decider (random drawn) = true ∧ rule.action ≠ .hold := by
  by_cases hnr : e.1 = c.nr
  · cases hf : ruleFilter c e.2 with
    | skip =>
      rw [visit_of_skip hnr hf] at h
      cases h
    | stop =>
      rw [visit_of_stop hnr hf] at h
      cases h
    | consider =>
      rw [visit_of_consider hnr hf] at h
      split_ifs at h with hsel
      cases h
      exact ⟨hnr, rfl, hf, hsel⟩
  · rw [visit_of_other hnr] at h
    cases h

theorem of_stop (h : (visit decider random c drawn e).1 = .stop) :
    e.1 = c.nr ∧ ruleFilter c e.2 = .stop := by
  by_cases hnr : e.1 = c.nr
  · refine ⟨hnr, ?_⟩
    cases hf : ruleFilter c e.2 with
    | skip =>
      rw [visit_of_skip hnr hf] at h
      cases h
    | stop => rfl
    | consider =>
      rw [visit_of_consider hnr hf] at h
      split_ifs at h
  · rw [visit_of_other hnr] at h
    cases h

end Visit

/-! ## The outcome of the handler -/

def Session.free (s : Session) (c : Call) : Bool :=
  !(s.virtualTime && isTimeSyscall c.name) && (s.heldBy c).isNone

def Session.rules (s : Session) : List (Nat × FaultRule) := s.static ++ s.dynamicRules

def Outcome.ofStep : scan.Step FaultRule → Outcome
  | .take rule => .faulted rule
  | .stop => .allowed true
  | .next => .allowed false

theorem Outcome.take_of_faulted {d : scan.Step FaultRule} {rule : FaultRule}
    (h : Outcome.ofStep d = .faulted rule) : d = .take rule := by
  cases d with
  | next => cases h
  | stop => cases h
  | take taken =>
    cases h
    rfl

theorem heldBy_countUnresolved (s : Session) (req : NotifReq) (c : Call) :
    (s.countUnresolved req).heldBy c = s.heldBy c := by
  unfold Session.countUnresolved
  simp only
  split
  · rfl
  · rfl

theorem countUnresolved_eq (s : Session) (req : NotifReq) :
    ∃ n, s.countUnresolved req = { s with unresolvedPaths := n } := by
  unfold Session.countUnresolved
  simp only
  split
  · exact ⟨_, rfl⟩
  · exact ⟨_, rfl⟩

variable {s : Session} {req : NotifReq}

/-- All that the handler does to a session: a free call goes through the rule
loop, any other leaves the rules alone. -/
theorem handleNotification_session (s : Session) (req : NotifReq) :
    ∃ n, (handleNotification s req).2 =
      if s.free (callOf s.arch req) then
        { s with
          static := (s.ruleLoop (callOf s.arch req)).2.1.take s.static.length
          dynamicRules := (s.ruleLoop (callOf s.arch req)).2.1.drop s.static.length
          drawn := (s.ruleLoop (callOf s.arch req)).2.2
          unresolvedPaths := n }
      else { s with unresolvedPaths := n } := by
  obtain ⟨n, hn⟩ := countUnresolved_eq s req
  refine ⟨n, ?_⟩
  unfold handleNotification
  simp only [hn]
  by_cases ht : (s.virtualTime && isTimeSyscall (callOf s.arch req).name) = true
  · have hf : s.free (callOf s.arch req) = false := by simp [Session.free, ht]
    rw [if_pos ht, hf]
    rfl
  · rw [if_neg ht]
    have hh : Session.heldBy { s with unresolvedPaths := n } (callOf s.arch req) =
        s.heldBy (callOf s.arch req) := rfl
    rw [hh]
    cases h : s.heldBy (callOf s.arch req) with
    | some rule =>
      have hf : s.free (callOf s.arch req) = false := by simp [Session.free, h]
      rw [hf]
      rfl
    | none =>
      have hf : s.free (callOf s.arch req) = true := by
        simp only [Session.free, h, Option.isNone_none, Bool.and_true, Bool.not_eq_true']
        simpa using ht
      rw [hf, if_pos rfl]
      dsimp only
      split
      · rfl
      · rfl
      · rfl

theorem handleNotification_installed (s : Session) (req : NotifReq) :
    (handleNotification s req).2.static.map asInstalled = s.static.map asInstalled ∧
      (handleNotification s req).2.dynamicRules.map asInstalled =
        s.dynamicRules.map asInstalled := by
  obtain ⟨n, hn⟩ := handleNotification_session s req
  rw [hn]
  by_cases hf : s.free (callOf s.arch req) = true
  · have hl : (s.ruleLoop (callOf s.arch req)).2.1.map asInstalled = _ :=
      scan.map_run (visit_installed s.decider s.random _) (s.static ++ s.dynamicRules) s.drawn
    rw [if_pos hf]
    simp only [List.map_take, List.map_drop, hl, List.map_append]
    constructor
    · exact List.take_left' (List.length_map _)
    · exact List.drop_left' (List.length_map _)
  · rw [if_neg hf]
    exact ⟨rfl, rfl⟩

theorem handleNotification_config (s : Session) (req : NotifReq) :
    (handleNotification s req).2.arch = s.arch ∧ (handleNotification s req).2.decider = s.decider ∧
      (handleNotification s req).2.faultRules = s.faultRules := by
  obtain ⟨n, hn⟩ := handleNotification_session s req
  rw [hn]
  split
  · exact ⟨rfl, rfl, rfl⟩
  · exact ⟨rfl, rfl, rfl⟩

theorem outcome_of_free (h : s.free (callOf s.arch req) = true) :
    (handleNotification s req).1 = .ofStep (s.ruleLoop (callOf s.arch req)).1 := by
  obtain ⟨n, hn⟩ := countUnresolved_eq s req
  simp only [Session.free, Bool.and_eq_true, Bool.not_eq_true', Option.isNone_iff_eq_none] at h
  have hl : Session.ruleLoop { s with unresolvedPaths := n } (callOf s.arch req) =
      s.ruleLoop (callOf s.arch req) := rfl
  have hh : Session.heldBy { s with unresolvedPaths := n } (callOf s.arch req) = none := h.2
  unfold handleNotification
  simp only [hn, h.1, Bool.false_eq_true, if_false, hh, hl]
  cases (s.ruleLoop (callOf s.arch req)).1 with
  | next => rfl
  | stop => rfl
  | take rule => rfl

theorem free_of_faulted {rule : FaultRule} (h : (handleNotification s req).1 = .faulted rule) :
    s.free (callOf s.arch req) = true := by
  obtain ⟨n, hn⟩ := countUnresolved_eq s req
  unfold handleNotification at h
  simp only [hn] at h
  by_cases ht : (s.virtualTime && isTimeSyscall (callOf s.arch req).name) = true
  · rw [if_pos ht] at h
    cases h
  · rw [if_neg ht] at h
    cases hh : s.heldBy (callOf s.arch req) with
    | some held =>
      have hs : Session.heldBy { s with unresolvedPaths := n } (callOf s.arch req) =
        some held := hh
      rw [hs] at h
      cases h
    | none =>
      simp only [Session.free, hh, Option.isNone_none, Bool.and_true, Bool.not_eq_true']
      simpa using ht

/-! ## Calls on an amd64 host -/

/-- A process whose path arguments and descriptors all name one file, or none
that /proc can resolve. -/
def namesFile (path : Option String) : Process :=
  ⟨fun _ => path.map fun p => bytes p ++ [0], fun _ => path.map bytes, fun _ => none⟩

def openatOf (path : Option String) : NotifReq := ⟨257, fun _ => 8, namesFile path⟩

def writeOf (path : Option String) : NotifReq := ⟨1, fun _ => 8, namesFile path⟩

def zeroDraws (_ : Nat) : Draw := ⟨0, le_refl 0, by norm_num⟩

end faultbox.engine
