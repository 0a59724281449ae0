-- The faults on system calls: what a spec declares, the rules of the engine
-- that a declaration expands to, the rules that a launch installs for the
-- filter, and the runtime that installs and removes them.
import Faultbox.Notifications
import Faultbox.EventLog

open goval gopath faultbox.plan_tree faultbox.engine faultbox.event_log

namespace faultbox.syscall_faults

/-! ## Declared faults -/

/-- The `Action` of a fault: what deny(), delay() and allow() set. -/
inductive DefAction where
  | deny
  | delay
  | allow
deriving DecidableEq

def DefAction.text : DefAction → String
  | .deny => "deny"
  | .delay => "delay"
  | .allow => "allow"

structure FaultDef where
  action : DefAction
  delay : Int := 0
  errno : String := ""
  probability : Rat := 0
  label : String := ""
  op : String := ""
  pathGlob : Bytes := []
  maxFires : Int := 0
  mode : FanoutMode := .unset
deriving DecidableEq

/-- The faults of one window: the entries of a Go map from keywords, in the
order in which a loop over the map meets them. -/
abbrev Faults : Type := List (String × FaultDef)

/-- The system calls behind a keyword. -/
def expandSyscallFamily (name : String) : List String :=
  match name with
  | "write" => ["write", "writev", "pwrite64"]
  | "read" => ["read", "readv", "pread64"]
  | "open" => ["open", "openat"]
  | "fsync" => ["fsync", "fdatasync"]
  | "sendto" => ["sendto", "sendmsg"]
  | "recvfrom" => ["recvfrom", "recvmsg"]
  | _ => [name]

/-- `errnoMap`, with the numbers of Linux. -/
def errnoMap : List (String × Nat) :=
  [("ENOENT", 2), ("EACCES", 13), ("EPERM", 1), ("EIO", 5), ("ENOSPC", 28), ("EROFS", 30),
   ("EEXIST", 17), ("ENOTEMPTY", 39), ("ENFILE", 23), ("EMFILE", 24), ("EFBIG", 27),
   ("ECONNREFUSED", 111), ("ECONNRESET", 104), ("ECONNABORTED", 103), ("ETIMEDOUT", 110),
   ("ENETUNREACH", 101), ("EHOSTUNREACH", 113), ("EADDRINUSE", 98), ("EADDRNOTAVAIL", 99),
   ("EINTR", 4), ("EAGAIN", 11), ("ENOMEM", 12), ("EBUSY", 16), ("EINVAL", 22), ("ENOSYS", 38),
   ("EDEADLK", 35), ("ELOOP", 40), ("EDQUOT", 122), ("ENOLCK", 37)]

def errnoOf (name : String) : Nat := (errnoMap.lookup name).getD 0

def FaultDef.fansOut (fd : FaultDef) : Bool :=
  decide (fd.probability < 1) && decide (0 < fd.maxFires) && fd.mode != .stochastic

def siteKey (svc kw : String) (fd : FaultDef) : String :=
  if fd.label = "" then svc ++ ":" ++ kw else fd.label

/-- The rule for one system call of the keyword's family. -/
def engineRule (svc kw : String) (fd : FaultDef) (sc : String) : FaultRule :=
  let rule : FaultRule :=
    { syscall := sc
      probability := fd.probability
      label := if fd.fansOut then siteKey svc kw fd else fd.label
      op := fd.op
      pathGlob := fd.pathGlob
      maxFires := fd.maxFires
      mode := fd.mode }
  match fd.action with
  | .delay => { rule with action := .delay, delay := fd.delay }
  | .deny => { rule with action := .deny, errno := errnoOf fd.errno }
  | .allow => rule

def keywordRules (svc : String) (kv : String × FaultDef) : List FaultRule :=
  (expandSyscallFamily kv.1).map (engineRule svc kv.1 kv.2)

def engineRules (svc : String) (faults : Faults) : List FaultRule :=
  faults.flatMap (keywordRules svc)

/-! ## The rules of a session -/

def resolve (arch : Arch) (r : FaultRule) : Option (Nat × FaultRule) :=
  (syscallNumber arch r.syscall).map fun nr => (nr, r)

def setDynamicFaultRules (s : Session) (rules : List FaultRule) : Session :=
  { s with dynamicRules := rules.filterMap (resolve s.arch) }

def clearDynamicFaultRules (s : Session) : Session := { s with dynamicRules := [] }

/-- `FiltersSyscall`: the filter of the launch intercepts the system call. -/
def filtersSyscall (s : Session) (name : String) : Bool :=
  s.faultRules.any fun r => r.syscall == name || (r.syscall == "open" && name == "openat")

def filteredSyscalls (s : Session) : List String :=
  sortStrings (s.faultRules.flatMap fun r =>
    if r.syscall = "open" then ["open", "openat"] else [r.syscall]).dedup

def uncoveredSyscalls (s : Session) (rules : List FaultRule) : List String :=
  sortStrings ((rules.filter fun r =>
    !(r.syscall == "" || filtersSyscall s r.syscall)).map (·.syscall)).dedup

/-- A `DynamicRuleReport` of DynamicRuleActivity. -/
structure DynamicRuleReport where
  syscall : String
  action : FaultAction
  op : String
  label : String
  matchCount : Nat
  pathGlob : Bytes
  unresolvedPaths : Nat

def reportOf (s : Session) (r : FaultRule) : DynamicRuleReport :=
  ⟨r.syscall, r.action, r.op, r.label, r.counter, r.pathGlob, s.unresolvedPaths⟩

def dynamicRuleActivity (s : Session) : List DynamicRuleReport :=
  s.dynamicRules.map fun e => reportOf s e.2

/-! ## The rules of a launch -/

def placeholder (sc : String) : FaultRule := { syscall := sc, action := .deny, probability := 0 }

def requiredFaultRulesForService (syscalls : List String) : List FaultRule :=
  syscalls.map placeholder

/-- The rules of a binary's launch: openat joins once where open is asked for. -/
def launchRules (arch : Arch) (rules : List FaultRule) : Except String (List (Nat × FaultRule)) :=
  match rules.find? fun r => (syscallNumber arch r.syscall).isNone with
  | some r => .error ("unknown syscall " ++ quote r.syscall)
  | none =>
    let resolved := rules.filterMap (resolve arch)
    match syscallNumber arch "openat", rules.find? (·.syscall == "open") with
    | some nr, some r =>
      .ok (if resolved.any (·.1 == nr) then resolved else resolved ++ [(nr, r)])
    | _, _ => .ok resolved

/-- The rules of a container's launch: unknown names are left out, and openat
joins for each open. -/
def externalRules (arch : Arch) (rules : List FaultRule) : List (Nat × FaultRule) :=
  rules.filterMap (resolve arch) ++
    match syscallNumber arch "openat" with
    | some nr => (rules.filter (·.syscall == "open")).map fun r => (nr, r)
    | none => []

/-! ## The decider of the leaf -/

/-- `ProbabilityFire` of the current leaf. -/
def probabilityFire (leaf : Option PlanLeaf) (key : String) (occurrence : Nat) : Option Bool :=
  match leaf with
  | none => none
  | some l => if key = "" then none else (l.probabilityOutcomes.lookup key).bind (·[occurrence]?)

/-- `probabilityDecider`, on the current leaf. -/
def probabilityDecider (svc : String) (leaf : Option PlanLeaf) : Decider := fun rule occurrence =>
  probabilityFire leaf (if rule.label = "" then svc ++ ":" ++ rule.syscall else rule.label)
    occurrence

/-! ## The runtime -/

/-- The part of `Runtime` that the windows change. A mock service, or one
without seccomp, runs with no session. -/
structure Runtime where
  remotes : GoMap String String
  sessions : GoMap String (Option Session)
  faults : GoMap String Faults
  probFaults : List ProbFaultSite
  events : EventLog

def Runtime.session (rt : Runtime) (svc : String) : Option Session :=
  (rt.sessions.lookup svc).bind id

def Runtime.dynamicRules (rt : Runtime) (svc : String) : List (Nat × FaultRule) :=
  ((rt.session svc).map (·.dynamicRules)).getD []

def Runtime.setSession (rt : Runtime) (svc : String) (s : Session) : Runtime :=
  { rt with sessions := rt.sessions.insert svc (some s) }

def Runtime.emit (rt : Runtime) (typ svc : String) (fields : List (String × String)) : Runtime :=
  { rt with events := rt.events.emit typ svc (storeAll ∅ fields) }

def Runtime.handleCall (rt : Runtime) (svc : String) (req : NotifReq) : Runtime :=
  match rt.session svc with
  | none => rt
  | some s => rt.setSession svc (handleNotification s req).2

/-! ## Opening a window -/

def sitesOf (svc : String) (faults : Faults) : List ProbFaultSite :=
  (sortStrings (faults.map (·.1))).filterMap fun kw =>
    (faults.lookup kw).bind fun fd =>
      if fd.fansOut then some ⟨siteKey svc kw fd, fd.maxFires⟩ else none

def remoteText (svc host : String) (faults : Faults) : String :=
  "service " ++ quote svc ++ " is remote (remote=" ++ quote host ++ "); syscall-level faults (" ++
    ", ".intercalate (sortStrings (faults.map (·.1))) ++
    ") are not available on remote services because Faultbox does not own the process. Use a " ++
    "protocol fault (response=, error=, slow=) at the interface layer (e.g. fault(" ++ svc ++
    ".<iface>, response(status=503), run=...)) or replace remote= with mock_service() if you " ++
    "need full control"

def notRunningText (svc : String) : String := "service " ++ quote svc ++ " is not running"

def keywordOf (faults : Faults) (sc : String) : String :=
  faults.foldl (fun kw kv => if (expandSyscallFamily kv.1).contains sc then kv.1 else kw) sc

def notFilterableText (svc : String) (s : Session) (faults : Faults) (missing : List String) :
    String :=
  let covered := filteredSyscalls s
  "service " ++ quote svc ++ " is not intercepting " ++ ", ".intercalate missing ++
    ", so this fault could not fire (intercepting: " ++
    (if covered.isEmpty then "nothing" else ", ".intercalate covered) ++
    "). Faultbox decides what to intercept by scanning the spec for fault() calls before the " ++
    "run starts, and it could not see this one — the syscall and the target have to be visible " ++
    "in the call itself. Write `fault(" ++ svc ++ ", " ++ keywordOf faults (missing.headD "") ++
    " = deny(...), ...)` rather than passing the rules in from a variable"

def faultSummary (kv : String × FaultDef) : String :=
  kv.2.action.text ++ "(" ++ kv.2.errno ++ ") → filter:[" ++
    ",".intercalate (expandSyscallFamily kv.1) ++ "]" ++
    (if kv.2.label = "" then "" else " label=" ++ quote kv.2.label)

def Runtime.noteFaults (rt : Runtime) (svc : String) (faults : Faults) : Runtime :=
  { rt with
    faults := rt.faults.insert svc faults
    probFaults := (sitesOf svc faults).foldl recordProbFault rt.probFaults }

/-- `applyFaults`: the error, if there is one, and the runtime after it. -/
def applyFaults (rt : Runtime) (svc : String) (faults : Faults) : Option String × Runtime :=
  match if faults.isEmpty then none else rt.remotes.lookup svc with
  | some host => (some (remoteText svc host faults), rt)
  | none =>
    let rt := rt.noteFaults svc faults
    match rt.sessions.lookup svc with
    | none => (some (notRunningText svc), rt)
    | some none =>
      let rt := rt.emit "fault_skipped_no_seccomp" svc
        [("reason", "mock-or-seccomp-disabled"), ("requested_rules", toString faults.length)]
      (none, rt.emit "fault_applied" svc [("note", "skipped (no seccomp session)")])
    | some (some s) =>
      let rules := engineRules svc faults
      let missing := uncoveredSyscalls s rules
      if missing.isEmpty then
        let rt := rt.setSession svc (setDynamicFaultRules s rules)
        (none, rt.emit "fault_applied" svc (faults.map fun kv => (kv.1, faultSummary kv)))
      else (some (notFilterableText svc s faults missing), rt)

def traceRules (syscalls : List String) : List FaultRule :=
  (syscalls.flatMap expandSyscallFamily).map fun sc =>
    { syscall := sc, action := .trace, probability := 1 }

def applyTrace (rt : Runtime) (svc : String) (syscalls : List String) : Option String × Runtime :=
  match rt.sessions.lookup svc with
  | none => (some (notRunningText svc), rt)
  | some none => (none, rt)
  | some (some s) =>
    let rt := rt.setSession svc (setDynamicFaultRules s (traceRules syscalls))
    (none, rt.emit "trace_applied" svc (syscalls.map fun sc =>
      (sc, "trace → filter:[" ++ ",".intercalate (expandSyscallFamily sc) ++ "]")))

/-! ## Closing a window -/

def fieldText (b : Bytes) : String := String.ofList (b.map fun x => Char.ofNat x.toNat)

def actionName : FaultAction → String
  | .deny => "deny"
  | .delay => "delay"
  | .hold => "hold"
  | .trace => "trace"

/-- The fields of a fault_zero_traffic event. -/
def zeroTrafficFields (r : DynamicRuleReport) : List (String × String) :=
  [("syscall", r.syscall), ("action", actionName r.action)] ++
    (if r.op = "" then [] else [("op", r.op)]) ++
    (if r.label = "" then [] else [("label", r.label)]) ++
    if r.pathGlob = [] then []
    else if 0 < r.unresolvedPaths then
      [("path", fieldText r.pathGlob), ("unresolved_paths", toString r.unresolvedPaths),
        ("hint", "path filter never matched, and " ++ toString r.unresolvedPaths ++
          " syscall path(s) could not be resolved from /proc — the filter may be correct but " ++
          "unmatched")]
    else
      [("path", fieldText r.pathGlob),
        ("hint", "path filter never matched any resolved path; check the glob (use ** to cross " ++
          "directories, e.g. /data/**/*.wal)")]

def zeroTraffic (order : MapOrder) (s : Session) : List DynamicRuleReport :=
  (order.order (dynamicRuleActivity s)).filter fun r => r.matchCount = 0

def Runtime.reportZeroTraffic (rt : Runtime) (svc : String) (reports : List DynamicRuleReport) :
    Runtime :=
  reports.foldl (fun rt r => rt.emit "fault_zero_traffic" svc (zeroTrafficFields r)) rt

def removeFaults (order : MapOrder) (rt : Runtime) (svc : String) : Runtime :=
  let rt := { rt with faults := rt.faults.erase svc }
  let rt := match rt.session svc with
    | none => rt
    | some s =>
      (rt.reportZeroTraffic svc (zeroTraffic order s)).setSession svc (clearDynamicFaultRules s)
  rt.emit "fault_removed" svc []

def removeTrace (rt : Runtime) (svc : String) : Runtime :=
  let rt := match rt.session svc with
    | none => rt
    | some s => rt.setSession svc (clearDynamicFaultRules s)
  rt.emit "trace_removed" svc []

/-! ## What the operations do to the sessions -/

variable (rt : Runtime) (svc : String)

@[simp] theorem sessions_emit (typ svc : String) (fields : List (String × String)) :
    (rt.emit typ svc fields).sessions = rt.sessions := rfl

@[simp] theorem sessions_noteFaults (faults : Faults) :
    (rt.noteFaults svc faults).sessions = rt.sessions := rfl

@[simp] theorem sessions_setSession (s : Session) :
    (rt.setSession svc s).sessions = rt.sessions.insert svc (some s) := rfl

@[simp] theorem sessions_reportZeroTraffic (reports : List DynamicRuleReport) :
    (rt.reportZeroTraffic svc reports).sessions = rt.sessions := by
  unfold Runtime.reportZeroTraffic
  induction reports generalizing rt with
  | nil => rfl
  | cons r reports ih => exact ih _

theorem session_eq_some {rt : Runtime} {svc : String} {s : Session} :
    rt.session svc = some s ↔ rt.sessions.lookup svc = some (some s) := by
  unfold Runtime.session
  cases rt.sessions.lookup svc with
  | none => simp
  | some running => simp

/-- All that applyFaults does to the sessions: nothing, with an error or for a
service without a session, or the rules of one session replaced. -/
theorem applyFaults_sessions (faults : Faults) :
    ((applyFaults rt svc faults).2.sessions = rt.sessions ∧
      ((applyFaults rt svc faults).1 = none → rt.sessions.lookup svc = some none)) ∨
    ∃ s, rt.sessions.lookup svc = some (some s) ∧ (applyFaults rt svc faults).1 = none ∧
      (applyFaults rt svc faults).2.sessions =
        rt.sessions.insert svc (some (setDynamicFaultRules s (engineRules svc faults))) := by
  unfold applyFaults
  split
  · exact .inl ⟨rfl, fun h => by cases h⟩
  · simp only [sessions_noteFaults]
    cases hl : rt.sessions.lookup svc with
    | none => exact .inl ⟨rfl, fun h => by cases h⟩
    | some running =>
      cases running with
      | none => exact .inl ⟨rfl, fun _ => rfl⟩
      | some s =>
        dsimp only
        split_ifs
        · exact .inr ⟨s, rfl, rfl, rfl⟩
        · exact .inl ⟨rfl, fun h => by cases h⟩

theorem applyTrace_sessions (syscalls : List String) :
    (applyTrace rt svc syscalls).2.sessions = rt.sessions ∨
    ∃ s, rt.sessions.lookup svc = some (some s) ∧ (applyTrace rt svc syscalls).1 = none ∧
      (applyTrace rt svc syscalls).2.sessions =
        rt.sessions.insert svc (some (setDynamicFaultRules s (traceRules syscalls))) := by
  unfold applyTrace
  cases hl : rt.sessions.lookup svc with
  | none => exact .inl rfl
  | some running =>
    cases running with
    | none => exact .inl rfl
    | some s => exact .inr ⟨s, rfl, rfl, rfl⟩

theorem session_of_applied {rt : Runtime} {svc : String} {faults : Faults} {s : Session}
    (hs : rt.session svc = some s) (h : (applyFaults rt svc faults).1 = none) :
    (applyFaults rt svc faults).2.session svc =
      some (setDynamicFaultRules s (engineRules svc faults)) := by
  have hl := session_eq_some.mp hs
  rcases applyFaults_sessions rt svc faults with ⟨-, hn⟩ | ⟨s', hs', -, heq⟩
  · rw [hn h] at hl
    cases hl
  · obtain rfl : s' = s := by
      rw [hl] at hs'
      exact (Option.some.inj (Option.some.inj hs')).symm
    rw [session_eq_some, heq, AList.lookup_insert]

end faultbox.syscall_faults
