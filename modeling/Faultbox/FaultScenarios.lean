-- The runner of a fault scenario: it registers monitors, applies the faults of
-- all assumptions, and starts the scenario once everything is installed. The
-- laws: of the last assumption on a service the last rule for each system call
-- is active then, and an installation that fails leaves nothing behind exactly
-- when nothing was installed before the place where it failed.
import Faultbox.Runs
import Faultbox.FaultWindows

open goval faultbox.engine faultbox.event_log faultbox.syscall_faults

namespace faultbox.protocol_faults

/-! ## Scenarios -/

/-- An interface of a service, with the address that its proxy dials. -/
structure InterfaceRef where
  svc : String
  iface : String
  protocol : String
  target : String

structure FaultAssumptionRule where
  target : String
  syscall : String
  fault : FaultDef

structure FaultAssumptionProxyRule where
  target : Option InterfaceRef
  proxyFault : Option ProxyFaultDef

structure FaultAssumptionDef where
  name : String
  rules : List FaultAssumptionRule
  proxyRules : List FaultAssumptionProxyRule
  monitors : List String

structure FaultScenarioDef where
  name : String
  faults : List FaultAssumptionDef
  monitors : List String

/-! ## The runner, up to the start of the scenario -/

/-- The rules of an assumption by service and system call; a later rule for the
same two takes the place of the earlier one. -/
def faultsByService (rules : List FaultAssumptionRule) : GoMap String (GoMap String FaultDef) :=
  rules.foldl (fun m r =>
    m.insert r.target (((m.lookup r.target).getD ∅).insert r.syscall r.fault)) ∅

def applications (order : MapOrder) (fa : FaultAssumptionDef) : List (String × Faults) :=
  (order.order (pairs (faultsByService fa.rules))).map fun p => (p.1, order.order (pairs p.2))

def schedule (order : MapOrder) (fs : FaultScenarioDef) : List (String × Faults) :=
  fs.faults.flatMap (applications order)

def applyService (rt : Runtime) (p : String × Faults) : Option String × Runtime :=
  applyFaults rt p.1 p.2

def applyEach (rt : Runtime) (l : List (String × Faults)) : Option String × Runtime :=
  runs.untilError applyService rt l

def proxyEntries (fs : FaultScenarioDef) : List (String × FaultAssumptionProxyRule) :=
  fs.faults.flatMap fun fa => fa.proxyRules.map fun pr => (fa.name, pr)

/-- One turn of the loop over the proxy rules. -/
def applyProxyRule (fs : FaultScenarioDef) (rt : FullRuntime)
    (e : String × FaultAssumptionProxyRule) : Option String × FullRuntime :=
  match e.2.target, e.2.proxyFault with
  | some ref, some pf =>
    match rt.proxyMgr.ensureProxy ref.svc ref.iface ref.protocol ref.target with
    | (.error err, m) =>
      (some ("fault_scenario " ++ quote fs.name ++ ": proxy start for " ++ ref.svc ++ "." ++
        ref.iface ++ ": " ++ err), { rt with proxyMgr := m })
    | (.ok _, m) =>
      (none, { rt with proxyMgr := m.addRule ref.svc ref.iface (proxyFaultToRule pf) }.emit
        "proxy_fault_applied" ref.svc
        [("interface", ref.iface), ("protocol", ref.protocol), ("assumption", e.1)])
  | _, _ => (none, rt)

def applyProxies (fs : FaultScenarioDef) (rt : FullRuntime)
    (l : List (String × FaultAssumptionProxyRule)) : Option String × FullRuntime :=
  runs.untilError (applyProxyRule fs) rt l

def scenarioMonitors (fs : FaultScenarioDef) : List String :=
  fs.faults.flatMap (·.monitors) ++ fs.monitors

def registered (l : Subscribers) (monitors : List String) : Subscribers :=
  runs.after Subscribers.register l monitors

def monitorIDs (l : Subscribers) (monitors : List String) : List Nat :=
  runs.answers Subscribers.register l monitors

def unregisterAll (l : Subscribers) (ids : List Nat) : Subscribers := ids.foldl (·.unregister ·) l

def removeEach (order : MapOrder) (rt : Runtime) (services : List String) : Runtime :=
  (order.order services.dedup).foldl (removeFaults order) rt

def withFaults (order : MapOrder) (rt : FullRuntime) (fs : FaultScenarioDef) : FullRuntime :=
  { rt with
    toRuntime := (applyEach rt.toRuntime (schedule order fs)).2
    subscribers := registered rt.subscribers (scenarioMonitors fs) }

def unregisterMonitors (fs : FaultScenarioDef) (start rt : FullRuntime) : FullRuntime :=
  { rt with subscribers :=
      unregisterAll rt.subscribers (monitorIDs start.subscribers (scenarioMonitors fs)) }

/-- makeFaultScenarioRunner, up to the call of the scenario: the runtime at that
point, or an error with the runtime once the deferred calls have run. The faults
are removed on an error of the second loop only, as that call is deferred between
the loops, and the proxy rules on neither. -/
def startScenario (order : MapOrder) (rt : FullRuntime) (fs : FaultScenarioDef) :
    Except (String × FullRuntime) FullRuntime :=
  match (applyEach rt.toRuntime (schedule order fs)).1 with
  | some err =>
    .error ("fault_scenario " ++ quote fs.name ++ ": " ++ err,
      unregisterMonitors fs rt (withFaults order rt fs))
  | none =>
    match applyProxies fs (withFaults order rt fs) (proxyEntries fs) with
    | (some err, rt₂) =>
      .error (err, unregisterMonitors fs rt { rt₂ with
        toRuntime := removeEach order rt₂.toRuntime ((schedule order fs).map Prod.fst) })
    | (none, rt₂) => .ok rt₂

/-! ## The monitors -/

variable {svc : String} {rt : FullRuntime} {p : String × Faults} {fa : FaultAssumptionDef}
  {order : MapOrder} {fs : FaultScenarioDef}

theorem registered_subs (l : Subscribers) (monitors : List String) :
    ∃ new, (registered l monitors).subs = l.subs ++ new ∧
      monitorIDs l monitors = new.map Prod.fst ∧ ∀ p ∈ new, l.nextSubID < p.1 := by
  induction monitors generalizing l with
  | nil => exact ⟨[], (List.append_nil _).symm, rfl, fun p hp => by cases hp⟩
  | cons m rest ih =>
    obtain ⟨new, hs, hids, hf⟩ := ih (l.register m).2
    refine ⟨(l.nextSubID + 1, m) :: new, ?_, ?_, ?_⟩
    · have hst : (registered l (m :: rest)).subs = (l.register m).2.subs ++ new := hs
      rw [hst, Subscribers.register, List.append_assoc, List.singleton_append]
    · have hst : monitorIDs l (m :: rest) =
          (l.register m).1 :: monitorIDs (l.register m).2 rest := rfl
      rw [hst, hids]
      rfl
    · intro p hp
      rcases List.mem_cons.mp hp with rfl | hp
      · exact Nat.lt_succ_self _
      · exact Nat.lt_of_succ_lt (hf p hp)

theorem unregisterAll_subs {old : List (Nat × String)} (new : List (Nat × String))
    (l : Subscribers) (h : l.subs = old ++ new) (hids : ∀ p ∈ old, ∀ q ∈ new, p.1 ≠ q.1) :
    (unregisterAll l (new.map Prod.fst)).subs = old := by
  induction new generalizing l with
  | nil => rw [List.map_nil, unregisterAll, List.foldl_nil, h, List.append_nil]
  | cons q new ih =>
    -- no old subscriber has the first ID, so the first new one is removed
    have hold : ∀ p ∈ old, ¬ (p.1 == q.1) = true := by
      intro p hp
      simpa using hids p hp q List.mem_cons_self
    have hs : (l.unregister q.1).subs = old ++ new := by
      have hsu : (l.unregister q.1).subs = l.subs.eraseP (·.1 == q.1) := rfl
      rw [hsu, h, List.eraseP_append_right _ hold]
      simp
    exact ih (l.unregister q.1) hs
      (fun p hp r hr => hids p hp r (List.mem_cons_of_mem q hr))

theorem unregister_registered (l : Subscribers) (monitors : List String) :
    (unregisterAll (registered l monitors) (monitorIDs l monitors)).subs = l.subs := by
  obtain ⟨new, hs, hids, hf⟩ := registered_subs l monitors
  rw [hids]
  apply unregisterAll_subs new _ hs
  intro p hp q hq heq
  have hle := l.fresh p hp
  have hlt := hf q hq
  omega

/-! ## The dynamic rules after the loop over the services -/

theorem session_applyFaults_other (rt : Runtime) {other : String} (faults : Faults)
    (h : other ≠ svc) : (applyFaults rt svc faults).2.session other = rt.session other := by
  unfold Runtime.session
  rcases applyFaults_sessions rt svc faults with ⟨hs, -⟩ | ⟨s, -, -, hs⟩
  · rw [hs]
  · rw [hs, lookup_insert_other h]

theorem session_applied {rt : Runtime} {faults : Faults}
    (h : (applyFaults rt svc faults).1 = none) :
    (applyFaults rt svc faults).2.session svc =
      (rt.session svc).map (setDynamicFaultRules · (engineRules svc faults)) := by
  cases hs : rt.session svc with
  | some s => exact session_of_applied hs h
  | none =>
    rcases applyFaults_sessions rt svc faults with ⟨hsa, -⟩ | ⟨s, hs', -, -⟩
    · unfold Runtime.session at hs ⊢
      rw [hsa]
      exact hs
    · rw [session_eq_some.mpr hs'] at hs
      cases hs

theorem session_applyEach {rt : Runtime} {l₁ l₂ : List (String × Faults)}
    (h : (applyEach rt (l₁ ++ p :: l₂)).1 = none) (hl : p.1 ∉ l₂.map Prod.fst) :
    (applyEach rt (l₁ ++ p :: l₂)).2.session p.1 =
      ((runs.after applyService rt l₁).session p.1).map
        (setDynamicFaultRules · (engineRules p.1 p.2)) := by
  have hs : (applyEach rt (l₁ ++ p :: l₂)).2 =
      runs.after applyService (applyService (runs.after applyService rt l₁) p).2 l₂ := by
    unfold applyEach
    rw [runs.untilError_ok h, runs.after_append]
    rfl
  rw [hs, ← session_applied (runs.attempt_ok h)]
  apply runs.after_preserves (fun rt' : Runtime => rt'.session p.1 = _) _ rfl
  intro rt' q hq hsa
  have ho : p.1 ≠ q.1 := by
    rintro heq
    exact hl (heq ▸ List.mem_map_of_mem hq)
  exact (session_applyFaults_other rt' q.2 ho).trans hsa

/-! ## The rules of a service at the start of the scenario -/

theorem lookup_faultsByService (pre : List FaultAssumptionRule) {post : List FaultAssumptionRule}
    {r : FaultAssumptionRule} (hl : ∀ q ∈ post, q.target = r.target → q.syscall ≠ r.syscall) :
    ∃ faults, (faultsByService (pre ++ r :: post)).lookup r.target = some faults ∧
      faults.lookup r.syscall = some r.fault := by
  unfold faultsByService
  rw [List.foldl_append, List.foldl_cons]
  -- what the rule stored stays under the rules after it
  generalize hm : List.foldl _ (∅ : GoMap String (GoMap String FaultDef)) pre = m
  have hs : ∃ faults,
      (m.insert r.target (((m.lookup r.target).getD ∅).insert r.syscall r.fault)).lookup r.target =
        some faults ∧ faults.lookup r.syscall = some r.fault :=
    ⟨_, AList.lookup_insert _, AList.lookup_insert _⟩
  clear hm
  generalize m.insert r.target _ = m at hs
  induction post generalizing m with
  | nil => exact hs
  | cons q post ih =>
    rw [List.foldl_cons]
    apply ih (fun q' hq' => hl q' (List.mem_cons_of_mem q hq'))
    obtain ⟨faults, hf, hfa⟩ := hs
    by_cases ht : q.target = r.target
    · have hsy := hl q List.mem_cons_self ht
      refine ⟨_, by rw [ht, AList.lookup_insert], ?_⟩
      rw [AList.lookup_insert_ne hsy.symm, hf]
      exact hfa
    · refine ⟨faults, ?_, hfa⟩
      rw [AList.lookup_insert_ne (Ne.symm ht)]
      exact hf

theorem target_of_mem_faultsByService {rules : List FaultAssumptionRule}
    (h : svc ∈ faultsByService rules) : ∃ r ∈ rules, r.target = svc := by
  induction rules using List.reverseRecOn with
  | nil => simp [faultsByService] at h
  | append_singleton rules r ih =>
    have hs : faultsByService (rules ++ [r]) = (faultsByService rules).insert r.target
        ((((faultsByService rules).lookup r.target).getD ∅).insert r.syscall r.fault) := by
      simp [faultsByService]
    rw [hs, AList.mem_insert] at h
    rcases h with rfl | h
    · exact ⟨r, by simp, rfl⟩
    · obtain ⟨q, hq, ht⟩ := ih h
      exact ⟨q, List.mem_append_left _ hq, ht⟩

theorem mem_applications (order : MapOrder) {faults : GoMap String FaultDef}
    (h : (faultsByService fa.rules).lookup svc = some faults) :
    (svc, order.order (pairs faults)) ∈ applications order fa := by
  apply List.mem_map.mpr
  exact ⟨(svc, faults), (order.perm _).mem_iff.mpr (mem_pairs.mpr h), rfl⟩

theorem target_of_mem_applications (h : p ∈ applications order fa) :
    ∃ r ∈ fa.rules, r.target = p.1 := by
  obtain ⟨q, hq, rfl⟩ := List.mem_map.mp h
  have hl := mem_pairs.mp ((order.perm _).mem_iff.mp hq)
  apply target_of_mem_faultsByService
  rw [← AList.lookup_isSome, hl]
  rfl

theorem nodup_applications (order : MapOrder) (fa : FaultAssumptionDef) :
    ((applications order fa).map Prod.fst).Nodup := by
  unfold applications
  rw [List.map_map]
  exact (((order.perm _).map Prod.fst).nodup_iff).mpr (nodup_pairs _)

theorem schedule_split {before after : List FaultAssumptionDef}
    (hfa : fs.faults = before ++ fa :: after) (hp : p ∈ applications order fa)
    (ha : ∀ fb ∈ after, ∀ q ∈ fb.rules, q.target ≠ p.1) :
    ∃ l₁ l₂, schedule order fs = l₁ ++ p :: l₂ ∧ p.1 ∉ l₂.map Prod.fst := by
  obtain ⟨m₁, m₂, hs⟩ := List.append_of_mem hp
  refine ⟨before.flatMap (applications order) ++ m₁, m₂ ++ after.flatMap (applications order),
    ?_, ?_⟩
  · rw [schedule, hfa, List.flatMap_append, List.flatMap_cons, hs]
    simp
  · rw [List.map_append, List.mem_append]
    rintro (hmem | hmem)
    · have hn := nodup_applications order fa
      rw [hs, List.map_append, List.map_cons] at hn
      exact (List.nodup_cons.mp hn.of_append_right).1 hmem
    · obtain ⟨q, hq, hsa⟩ := List.mem_map.mp hmem
      obtain ⟨fb, hfb, hqfb⟩ := List.mem_flatMap.mp hq
      obtain ⟨r, hr, ht⟩ := target_of_mem_applications hqfb
      exact ha fb hfb r hr (ht.trans hsa)

/-- A rule of the engine does what a fault says. An allow() has probability 0, so
the rule for it never fires, whatever its action. -/
structure Implements (rule : FaultRule) (fd : FaultDef) : Prop where
  op : rule.op = fd.op
  path : rule.pathGlob = fd.pathGlob
  probability : rule.probability = fd.probability
  maxFires : rule.maxFires = fd.maxFires
  mode : rule.mode = fd.mode
  deny : fd.action = .deny → rule.action = .deny ∧ rule.errno = errnoOf fd.errno
  delay : fd.action = .delay → rule.action = .delay ∧ rule.delay = fd.delay

theorem implements_engineRule (svc kw : String) (fd : FaultDef) (sc : String) :
    (engineRule svc kw fd sc).syscall = sc ∧ Implements (engineRule svc kw fd sc) fd := by
  unfold engineRule
  cases ha : fd.action with
  | deny => exact ⟨rfl, rfl, rfl, rfl, rfl, rfl, fun _ => ⟨rfl, rfl⟩, by simp [ha]⟩
  | delay => exact ⟨rfl, rfl, rfl, rfl, rfl, rfl, by simp [ha], fun _ => ⟨rfl, rfl⟩⟩
  | allow => exact ⟨rfl, rfl, rfl, rfl, rfl, rfl, by simp [ha], by simp [ha]⟩

theorem mem_engineRules {kw : String} {fd : FaultDef} {faults : Faults} (h : (kw, fd) ∈ faults)
    {sc : String} (hsc : sc ∈ expandSyscallFamily kw) :
    engineRule svc kw fd sc ∈ engineRules svc faults :=
  List.mem_flatMap.mpr ⟨(kw, fd), h, List.mem_map_of_mem hsc⟩

/-! ## The loop over the proxy rules -/

theorem applyProxyRule_frame (fs : FaultScenarioDef) (rt : FullRuntime)
    (e : String × FaultAssumptionProxyRule) :
    (applyProxyRule fs rt e).2.sessions = rt.sessions ∧
      (applyProxyRule fs rt e).2.subscribers = rt.subscribers := by
  unfold applyProxyRule
  split
  · split
    · exact ⟨rfl, rfl⟩
    · exact ⟨rfl, rfl⟩
  · exact ⟨rfl, rfl⟩

theorem after_applyProxyRule_frame (fs : FaultScenarioDef) (rt : FullRuntime)
    (l : List (String × FaultAssumptionProxyRule)) :
    (runs.after (applyProxyRule fs) rt l).sessions = rt.sessions ∧
      (runs.after (applyProxyRule fs) rt l).subscribers = rt.subscribers := by
  apply runs.after_preserves
    (fun rt' : FullRuntime => rt'.sessions = rt.sessions ∧ rt'.subscribers = rt.subscribers)
  · rintro rt' e - ⟨hs, hsu⟩
    obtain ⟨hs', hsu'⟩ := applyProxyRule_frame fs rt' e
    exact ⟨hs'.trans hs, hsu'.trans hsu⟩
  · exact ⟨rfl, rfl⟩

theorem startScenario_ok {rt' : FullRuntime} (h : startScenario order rt fs = .ok rt') :
    (applyEach rt.toRuntime (schedule order fs)).1 = none ∧
      rt' = runs.after (applyProxyRule fs) (withFaults order rt fs) (proxyEntries fs) := by
  unfold startScenario at h
  cases ha : (applyEach rt.toRuntime (schedule order fs)).1 with
  | some err =>
    rw [ha] at h
    cases h
  | none =>
    rw [ha] at h
    dsimp only at h
    split at h
    · cases h
    · rename_i rt₂ hp
      have hok : (applyProxies fs (withFaults order rt fs) (proxyEntries fs)).1 = none := by
        rw [hp]
      obtain rfl := Except.ok.inj h
      refine ⟨rfl, ?_⟩
      rw [← runs.untilError_ok hok]
      exact (congrArg Prod.snd hp).symm

/-- When the scenario starts, each service with a session has the rules of the last
assumption on it: for the last rule there for a system call, every call of its
family that the host knows has an active dynamic rule that implements it. -/
theorem the_last_assumption_on_a_service_is_active (order : MapOrder) (rt rt' : FullRuntime)
    (fs : FaultScenarioDef) (hstart : startScenario order rt fs = .ok rt')
    (before after : List FaultAssumptionDef) (fa : FaultAssumptionDef)
    (hfa : fs.faults = before ++ fa :: after) (pre post : List FaultAssumptionRule)
    (r : FaultAssumptionRule) (hr : fa.rules = pre ++ r :: post)
    (hafter : ∀ fb ∈ after, ∀ q ∈ fb.rules, q.target ≠ r.target)
    (hpost : ∀ q ∈ post, q.target = r.target → q.syscall ≠ r.syscall) (s : Session)
    (hs : rt'.toRuntime.session r.target = some s) (sc : String)
    (hsc : sc ∈ expandSyscallFamily r.syscall) (nr : Nat)
    (hnr : syscallNumber s.arch sc = some nr) :
    ∃ rule, (nr, rule) ∈ s.dynamicRules ∧ rule.syscall = sc ∧ Implements rule r.fault := by
  obtain ⟨ha, rfl⟩ := startScenario_ok hstart
  obtain ⟨faults, hf, hfau⟩ := lookup_faultsByService pre hpost
  rw [← hr] at hf
  obtain ⟨l₁, l₂, hsp, hl⟩ := schedule_split hfa (mem_applications order hf) hafter
  -- the session is the one that the last application on the service left
  have hse : (applyEach rt.toRuntime (schedule order fs)).2.session r.target = some s := by
    unfold Runtime.session at hs ⊢
    rw [(after_applyProxyRule_frame fs (withFaults order rt fs) (proxyEntries fs)).1] at hs
    exact hs
  rw [hsp] at ha hse
  rw [session_applyEach ha hl] at hse
  obtain ⟨s₀, -, rfl⟩ := Option.map_eq_some_iff.mp hse
  have hmem : (r.syscall, r.fault) ∈ order.order (pairs faults) :=
    (order.perm _).mem_iff.mpr (mem_pairs.mpr hfau)
  refine ⟨engineRule r.target r.syscall r.fault sc, ?_, implements_engineRule _ _ _ _⟩
  apply List.mem_filterMap.mpr
  refine ⟨_, mem_engineRules hmem hsc, ?_⟩
  unfold resolve
  rw [(implements_engineRule _ _ _ _).1]
  exact congrArg (Option.map _) hnr

/-- A scenario on `db` with the given assumptions. -/
def onDb (assumptions : List (List (String × FaultDef))) : FaultScenarioDef :=
  { name := "disk"
    faults := assumptions.map fun rules =>
      ⟨"wal", rules.map fun r => ⟨"db", r.1, r.2⟩, [], ["order"]⟩
    monitors := [] }

def denyAt (errno glob : String) : FaultDef :=
  { action := .deny, errno, probability := 1, pathGlob := gopath.bytes glob }

/-- `hostOfDb` when a scenario starts on it. -/
def startedOn (fs : FaultScenarioDef) : FullRuntime :=
  runs.after (applyProxyRule fs) (withFaults .asStored hostOfDb fs) (proxyEntries fs)

/-- One assumption with two rules on `write`, for two paths. -/
def twoPaths : FaultScenarioDef :=
  onDb [[("write", denyAt "EIO" "/data/*"), ("write", denyAt "ENOSPC" "/tmp/*")]]

theorem the_second_rule_on_write_is_active :
    ∃ s rule, (startedOn twoPaths).toRuntime.session "db" = some s ∧ (1, rule) ∈ s.dynamicRules ∧
      rule.syscall = "write" ∧ Implements rule (denyAt "ENOSPC" "/tmp/*") := by
  obtain ⟨s, hs⟩ : ∃ s, (startedOn twoPaths).toRuntime.session "db" = some s := ⟨_, rfl⟩
  have hnr : syscallNumber s.arch "write" = some 1 := by
    have hb : ((startedOn twoPaths).toRuntime.session "db").bind
        (syscallNumber ·.arch "write") = some 1 := by decide
    rw [hs] at hb
    exact hb
  obtain ⟨rule, hr⟩ := the_last_assumption_on_a_service_is_active .asStored hostOfDb
    (startedOn twoPaths) twoPaths rfl [] [] _ rfl [⟨"db", "write", denyAt "EIO" "/data/*"⟩] []
    ⟨"db", "write", denyAt "ENOSPC" "/tmp/*"⟩ rfl (by simp) (by simp) s hs "write" (by decide) 1 hnr
  exact ⟨s, rule, hs, hr⟩

/-- Two assumptions on `db`, with rules on different system calls. -/
def twoAssumptions : FaultScenarioDef :=
  onDb [[("writev", denyAt "EIO" "/data/*")], [("pwrite64", denyAt "EIO" "/tmp/*")]]

/-- In both scenarios no active rule implements the first rule that was declared. -/
theorem the_first_rule_is_replaced :
    startScenario .asStored hostOfDb twoPaths = .ok (startedOn twoPaths) ∧
      (¬ ∃ e ∈ (startedOn twoPaths).toRuntime.dynamicRules "db",
        Implements e.2 (denyAt "EIO" "/data/*")) ∧
      startScenario .asStored hostOfDb twoAssumptions = .ok (startedOn twoAssumptions) ∧
      ¬ ∃ e ∈ (startedOn twoAssumptions).toRuntime.dynamicRules "db",
        Implements e.2 (denyAt "EIO" "/data/*") := by
  have hp : ∀ e ∈ (startedOn twoPaths).toRuntime.dynamicRules "db",
      e.2.pathGlob ≠ (denyAt "EIO" "/data/*").pathGlob := by
    decide
  have ha : ∀ e ∈ (startedOn twoAssumptions).toRuntime.dynamicRules "db",
      e.2.pathGlob ≠ (denyAt "EIO" "/data/*").pathGlob := by
    decide
  refine ⟨rfl, ?_, rfl, ?_⟩
  · rintro ⟨e, he, hi⟩
    exact hp e he hi.path
  · rintro ⟨e, he, hi⟩
    exact ha e he hi.path

/-! ## Installations that fail -/

def host (rt : Runtime) (svc : String) : Option Arch := (rt.session svc).map (·.arch)

/-- The dynamic rules that an application installs: none without a session, or if
the host knows none of its system calls. -/
def installs (rt : Runtime) (p : String × Faults) : List (Nat × FaultRule) :=
  ((host rt p.1).map fun arch => (engineRules p.1 p.2).filterMap (resolve arch)).getD []

theorem host_applyFaults (rt : Runtime) (svc : String) (faults : Faults) (other : String) :
    host (applyFaults rt svc faults).2 other = host rt other := by
  unfold host Runtime.session
  rcases applyFaults_sessions rt svc faults with ⟨hsa, -⟩ | ⟨s, hs, -, hsa⟩
  · rw [hsa]
  · rw [hsa]
    by_cases ho : other = svc
    · subst ho
      rw [AList.lookup_insert, hs]
      rfl
    · rw [lookup_insert_other ho]

theorem host_after (rt : Runtime) (l : List (String × Faults)) (svc : String) :
    host (runs.after applyService rt l) svc = host rt svc := by
  apply runs.after_preserves (fun rt' => host rt' svc = host rt svc) _ rfl
  intro rt' p _ hs
  exact (host_applyFaults rt' p.1 p.2 svc).trans hs

theorem dynamicRules_applyEach {rt : Runtime} {l₁ l₂ : List (String × Faults)}
    (h : (applyEach rt (l₁ ++ p :: l₂)).1 = none) (hl : p.1 ∉ l₂.map Prod.fst) :
    (applyEach rt (l₁ ++ p :: l₂)).2.dynamicRules p.1 = installs rt p := by
  unfold Runtime.dynamicRules installs
  rw [session_applyEach h hl, ← host_after rt l₁ p.1, host, Option.map_map, Option.map_map]
  rfl

theorem dynamicRules_applyEach_other {rt : Runtime} {l : List (String × Faults)}
    (h : (applyEach rt l).1 = none) (hsvc : svc ∉ l.map Prod.fst) :
    (applyEach rt l).2.dynamicRules svc = rt.dynamicRules svc := by
  unfold applyEach
  rw [runs.untilError_ok h]
  apply runs.after_preserves (fun rt' : Runtime => rt'.dynamicRules svc = rt.dynamicRules svc) _ rfl
  intro rt' p hp hs
  have ho : svc ≠ p.1 := by
    rintro rfl
    exact hsvc (List.mem_map_of_mem hp)
  exact (dynamicRules_applyFaults_other rt' p.2 ho).trans hs

/-- The last application of each service in the list installs no rule. -/
def InstallsNothing (rt : Runtime) (l : List (String × Faults)) : Prop :=
  ∀ l₁ p l₂, l = l₁ ++ p :: l₂ → p.1 ∉ l₂.map Prod.fst → installs rt p = []

theorem no_rules_iff {rt : Runtime} {l : List (String × Faults)} (h : (applyEach rt l).1 = none) :
    (∀ svc ∈ l.map Prod.fst, (applyEach rt l).2.dynamicRules svc = []) ↔ InstallsNothing rt l := by
  constructor
  · rintro hn l₁ p l₂ rfl hl
    rw [← dynamicRules_applyEach h hl]
    exact hn p.1 (by simp)
  · intro hno svc hsvc
    obtain ⟨l₁, p, l₂, rfl, rfl, hl⟩ := last_with_key hsvc
    rw [dynamicRules_applyEach h hl]
    exact hno l₁ p l₂ rfl hl

/-! ### Proxy rules -/

def rulesFor (key : String) (e : String × FaultAssumptionProxyRule) : List ProxyRule :=
  match e.2.target, e.2.proxyFault with
  | some ref, some pf => if key = proxyKey ref.svc ref.iface then [proxyFaultToRule pf] else []
  | _, _ => []

theorem lookup_ensureProxy {m m' : Manager} {iface protocol target addr : String}
    (h : m.ensureProxy svc iface protocol target = (.ok addr, m')) :
    (m'.proxies.lookup (proxyKey svc iface)).isSome = true := by
  unfold Manager.ensureProxy at h
  cases hl : m.proxies.lookup (proxyKey svc iface) with
  | some rp =>
    simp only [hl] at h
    obtain ⟨-, rfl⟩ := Prod.mk.inj h
    rw [hl]
    rfl
  | none =>
    simp only [hl] at h
    split at h
    · split at h
      · cases (Prod.mk.inj h).1
      · obtain ⟨-, rfl⟩ := Prod.mk.inj h
        simp
    · cases (Prod.mk.inj h).1

theorem rules_addRule_own {m : Manager} {iface : String}
    (h : (m.proxies.lookup (proxyKey svc iface)).isSome = true) (rule : ProxyRule) :
    (m.addRule svc iface rule).rules (proxyKey svc iface) =
      m.rules (proxyKey svc iface) ++ [rule] := by
  obtain ⟨rp, hrp⟩ := Option.isSome_iff_exists.mp h
  unfold Manager.addRule Manager.rules
  rw [hrp]
  simp

theorem rules_applyProxyRule (fs : FaultScenarioDef) (rt : FullRuntime)
    (e : String × FaultAssumptionProxyRule) (key : String) :
    (applyProxyRule fs rt e).2.proxyMgr.rules key = rt.proxyMgr.rules key ++
      if (applyProxyRule fs rt e).1 = none then rulesFor key e else [] := by
  unfold applyProxyRule rulesFor
  split
  · rename_i ref pf ht hpf
    have he := rules_ensureProxy rt.proxyMgr ref.svc ref.iface ref.protocol ref.target key
    split
    · rename_i err m hm
      rw [hm] at he
      simpa using he
    · rename_i addr m hm
      rw [hm] at he
      rw [if_pos rfl, ← he]
      by_cases hkey : key = proxyKey ref.svc ref.iface
      · subst hkey
        rw [if_pos rfl]
        exact rules_addRule_own (lookup_ensureProxy hm) _
      · rw [if_neg hkey, List.append_nil]
        exact rules_addRule m ref.svc ref.iface _ hkey
  · simp

theorem rules_applyProxies {l : List (String × FaultAssumptionProxyRule)}
    (h : (applyProxies fs rt l).1 = none) (key : String) :
    (runs.after (applyProxyRule fs) rt l).proxyMgr.rules key =
      rt.proxyMgr.rules key ++ l.flatMap (rulesFor key) := by
  unfold applyProxies at h
  induction l generalizing rt with
  | nil => simp [runs.after]
  | cons e l ih =>
    have he : (applyProxyRule fs rt e).1 = none := by
      by_contra herr
      rw [runs.untilError_cons_error herr] at h
      exact herr h
    rw [runs.untilError_cons_ok he] at h
    have hr := ih h
    rw [rules_applyProxyRule, if_pos he, List.append_assoc] at hr
    rw [List.flatMap_cons]
    exact hr

/-- Every entry is without a target or without a fault. -/
def AddsNothing (l : List (String × FaultAssumptionProxyRule)) : Prop :=
  ∀ e ∈ l, e.2.target = none ∨ e.2.proxyFault = none

theorem addsNothing_iff {l : List (String × FaultAssumptionProxyRule)} :
    AddsNothing l ↔ ∀ key, l.flatMap (rulesFor key) = [] := by
  constructor
  · intro hn key
    rw [List.flatMap_eq_nil_iff]
    intro e he
    unfold rulesFor
    rcases hn e he with hno | hno
    · rw [hno]
    · rw [hno]
      cases e.2.target with
      | none => rfl
      | some ref => rfl
  · intro hno e he
    cases ht : e.2.target with
    | none => exact .inl rfl
    | some ref =>
      cases hpf : e.2.proxyFault with
      | none => exact .inr rfl
      | some pf =>
        have hem := List.flatMap_eq_nil_iff.mp (hno (proxyKey ref.svc ref.iface)) e he
        simp [rulesFor, ht, hpf] at hem

/-! ### The deferred removal -/

theorem dynamicRules_removeEach (order : MapOrder) (rt : Runtime) (services : List String)
    (svc : String) :
    (removeEach order rt services).dynamicRules svc =
      if svc ∈ services then [] else rt.dynamicRules svc := by
  have hf : ∀ (l : List String) (rt : Runtime),
      (l.foldl (removeFaults order) rt).dynamicRules svc =
        if svc ∈ l then [] else rt.dynamicRules svc := by
    intro l
    induction l with
    | nil => simp
    | cons x l ih =>
      intro rt
      rw [List.foldl_cons, ih, dynamicRules_cleared (sessions_removeFaults order rt x)]
      by_cases hl : svc ∈ l
      · simp [hl]
      · simp [hl]
  unfold removeEach
  rw [hf]
  simp [(order.perm services.dedup).mem_iff]

/-! ### The law -/

/-- A place where the installation stops: after some of the applications, or after
all of them and some of the proxy rules. -/
inductive Position where
  | syscall (done : List (String × Faults))
  | proxy (done : List (String × FaultAssumptionProxyRule))

/-- The installation fails right after what is done. -/
def FailsAt (order : MapOrder) (rt : FullRuntime) (fs : FaultScenarioDef) : Position → Prop
  | .syscall done => (applyEach rt.toRuntime done).1 = none ∧
      ∃ p rest, schedule order fs = done ++ p :: rest ∧
        (applyService (applyEach rt.toRuntime done).2 p).1 ≠ none
  | .proxy done => (applyEach rt.toRuntime (schedule order fs)).1 = none ∧
      (applyProxies fs (withFaults order rt fs) done).1 = none ∧
      ∃ e rest, proxyEntries fs = done ++ e :: rest ∧
        (applyProxyRule fs (applyProxies fs (withFaults order rt fs) done).2 e).1 ≠ none

def Position.applied (order : MapOrder) (fs : FaultScenarioDef) : Position → List String
  | .syscall done => done.map Prod.fst
  | .proxy _ => (schedule order fs).map Prod.fst

/-- No monitor, no dynamic rule and no proxy rule of the installation is left. An
application replaces all dynamic rules of its service, so those are its own. -/
structure LeavesNothing (before after : FullRuntime) (applied : List String) : Prop where
  monitors : after.subscribers.subs = before.subscribers.subs
  dynamic : ∀ svc ∈ applied, after.toRuntime.dynamicRules svc = []
  others : ∀ svc, svc ∉ applied →
    after.toRuntime.dynamicRules svc = before.toRuntime.dynamicRules svc
  proxies : ∀ key, after.proxyMgr.rules key = before.proxyMgr.rules key

/-- Nothing was installed before the place. -/
def NothingBefore (rt : FullRuntime) : Position → Prop
  | .syscall done => InstallsNothing rt.toRuntime done
  | .proxy done => AddsNothing done

theorem startScenario_syscall_error (h : (applyEach rt.toRuntime (schedule order fs)).1 ≠ none) :
    ∃ err, startScenario order rt fs =
      .error (err, unregisterMonitors fs rt (withFaults order rt fs)) := by
  unfold startScenario
  cases ha : (applyEach rt.toRuntime (schedule order fs)).1 with
  | none => exact absurd ha h
  | some err => exact ⟨_, rfl⟩

theorem syscall_error_leaves_nothing_iff {done : List (String × Faults)}
    (h : FailsAt order rt fs (.syscall done)) :
    ∃ err rt', startScenario order rt fs = .error (err, rt') ∧
      (LeavesNothing rt rt' (done.map Prod.fst) ↔ InstallsNothing rt.toRuntime done) := by
  obtain ⟨hd, p, rest, hs, hf⟩ := h
  have hl : applyEach rt.toRuntime (schedule order fs) =
      applyService (applyEach rt.toRuntime done).2 p := by
    have hst : (applyEach rt.toRuntime done).2 = runs.after applyService rt.toRuntime done :=
      runs.untilError_ok hd
    rw [hst] at hf ⊢
    unfold applyEach
    rw [hs, runs.untilError_append hd, runs.untilError_cons_error hf]
  have he : (applyEach rt.toRuntime (schedule order fs)).1 ≠ none := by
    rw [hl]
    exact hf
  obtain ⟨err, hsta⟩ := startScenario_syscall_error he
  refine ⟨err, _, hsta, ?_⟩
  -- the application that failed has changed no rules
  have hr : ∀ svc, (unregisterMonitors fs rt (withFaults order rt fs)).toRuntime.dynamicRules
      svc = (applyEach rt.toRuntime done).2.dynamicRules svc := by
    intro svc
    rw [← dynamicRules_applyFaults_error hf svc]
    exact congrArg (fun r : Option String × Runtime => r.2.dynamicRules svc) hl
  rw [← no_rules_iff hd]
  constructor
  · intro hn svc hsvc
    rw [← hr]
    exact hn.dynamic svc hsvc
  · intro hno
    refine ⟨unregister_registered rt.subscribers _, fun svc hsvc => ?_, fun svc hsvc => ?_,
      fun key => rfl⟩
    · rw [hr]
      exact hno svc hsvc
    · rw [hr]
      exact dynamicRules_applyEach_other hd hsvc

def afterProxyError (order : MapOrder) (rt : FullRuntime) (fs : FaultScenarioDef)
    (failed : FullRuntime) : FullRuntime :=
  unregisterMonitors fs rt { failed with
    toRuntime := removeEach order failed.toRuntime ((schedule order fs).map Prod.fst) }

theorem startScenario_proxy_error (ha : (applyEach rt.toRuntime (schedule order fs)).1 = none)
    (h : (applyProxies fs (withFaults order rt fs) (proxyEntries fs)).1 ≠ none) :
    ∃ err, startScenario order rt fs = .error (err, afterProxyError order rt fs
      (applyProxies fs (withFaults order rt fs) (proxyEntries fs)).2) := by
  unfold startScenario
  rw [ha]
  dsimp only
  split
  · rename_i err failed heq
    rw [heq]
    exact ⟨err, rfl⟩
  · rename_i rt₂ heq
    rw [heq] at h
    exact absurd rfl h

theorem afterProxyError_frame {failed : FullRuntime}
    (ha : (applyEach rt.toRuntime (schedule order fs)).1 = none)
    (hs : failed.sessions = (withFaults order rt fs).sessions)
    (hsu : failed.subscribers = (withFaults order rt fs).subscribers) :
    (afterProxyError order rt fs failed).subscribers.subs = rt.subscribers.subs ∧
      (∀ svc ∈ (schedule order fs).map Prod.fst,
        (afterProxyError order rt fs failed).toRuntime.dynamicRules svc = []) ∧
      ∀ svc, svc ∉ (schedule order fs).map Prod.fst →
        (afterProxyError order rt fs failed).toRuntime.dynamicRules svc =
          rt.toRuntime.dynamicRules svc := by
  have hr := dynamicRules_removeEach order failed.toRuntime ((schedule order fs).map Prod.fst)
  refine ⟨?_, fun svc hsvc => ?_, fun svc hsvc => ?_⟩
  · unfold afterProxyError unregisterMonitors
    dsimp only
    rw [hsu]
    exact unregister_registered rt.subscribers _
  · have hsa := hr svc
    rw [if_pos hsvc] at hsa
    exact hsa
  · have hsa := hr svc
    rw [if_neg hsvc] at hsa
    calc (afterProxyError order rt fs failed).toRuntime.dynamicRules svc
        = failed.toRuntime.dynamicRules svc := hsa
      _ = (applyEach rt.toRuntime (schedule order fs)).2.dynamicRules svc :=
          dynamicRules_eq (by rw [hs]; rfl)
      _ = rt.toRuntime.dynamicRules svc := dynamicRules_applyEach_other ha hsvc

theorem proxy_error_leaves_nothing_iff {done : List (String × FaultAssumptionProxyRule)}
    (h : FailsAt order rt fs (.proxy done)) :
    ∃ err rt', startScenario order rt fs = .error (err, rt') ∧
      (LeavesNothing rt rt' ((schedule order fs).map Prod.fst) ↔ AddsNothing done) := by
  obtain ⟨ha, hd, e, rest, hs, hf⟩ := h
  have hst : (applyProxies fs (withFaults order rt fs) done).2 =
      runs.after (applyProxyRule fs) (withFaults order rt fs) done := runs.untilError_ok hd
  rw [hst] at hf
  have hl : applyProxies fs (withFaults order rt fs) (proxyEntries fs) =
      applyProxyRule fs (runs.after (applyProxyRule fs) (withFaults order rt fs) done) e := by
    unfold applyProxies
    rw [hs, runs.untilError_append hd, runs.untilError_cons_error hf]
  have he : (applyProxies fs (withFaults order rt fs) (proxyEntries fs)).1 ≠ none := by
    rw [hl]
    exact hf
  obtain ⟨err, hsta⟩ := startScenario_proxy_error ha he
  rw [hl] at hsta
  refine ⟨err, _, hsta, ?_⟩
  obtain ⟨hse, hsu⟩ := after_applyProxyRule_frame fs (withFaults order rt fs) done
  obtain ⟨hse', hsu'⟩ := applyProxyRule_frame fs
    (runs.after (applyProxyRule fs) (withFaults order rt fs) done) e
  obtain ⟨hm, hdy, ho⟩ := afterProxyError_frame ha
    (hse'.trans hse) (hsu'.trans hsu)
  -- the proxies keep the rules of every entry before the one that failed
  have hr : ∀ key, (afterProxyError order rt fs (applyProxyRule fs
      (runs.after (applyProxyRule fs) (withFaults order rt fs) done) e).2).proxyMgr.rules key =
      rt.proxyMgr.rules key ++ done.flatMap (rulesFor key) := by
    intro key
    have hfa := rules_applyProxyRule fs
      (runs.after (applyProxyRule fs) (withFaults order rt fs) done) e key
    rw [if_neg hf, List.append_nil, rules_applyProxies hd] at hfa
    exact hfa
  rw [addsNothing_iff]
  constructor
  · intro hn key
    have hk := hn.proxies key
    rw [hr] at hk
    exact List.append_right_eq_self.mp hk
  · intro hno
    refine ⟨hm, hdy, ho, fun key => ?_⟩
    rw [hr, hno key, List.append_nil]

/-- Wherever the installation fails, the runner returns an error; and nothing of
the installation is left exactly when the loop that failed had installed nothing
before that place. -/
theorem a_failed_start_leaves_nothing_iff (order : MapOrder) (rt : FullRuntime)
    (fs : FaultScenarioDef) (pos : Position) (h : FailsAt order rt fs pos) :
    ∃ err rt', startScenario order rt fs = .error (err, rt') ∧
      (LeavesNothing rt rt' (pos.applied order fs) ↔ NothingBefore rt pos) := by
  cases pos with
  | syscall done => exact syscall_error_leaves_nothing_iff h
  | proxy done => exact proxy_error_leaves_nothing_iff h

/-- A scenario whose assumptions are on the given services, one rule on `write` and
one monitor each. -/
def onServices (services : List String) : FaultScenarioDef :=
  { name := "outage"
    faults := services.map fun svc =>
      ⟨svc, [⟨svc, "write", denyAt "EIO" ""⟩], [], ["order"]⟩
    monitors := [] }

/-- `cache` does not run, so a scenario on it fails at once and leaves nothing. -/
theorem a_start_that_fails_at_once_leaves_nothing :
    ∃ err rt', startScenario .asStored hostOfDb (onServices ["cache", "db"]) = .error (err, rt') ∧
      LeavesNothing hostOfDb rt' [] := by
  have hf : FailsAt .asStored hostOfDb (onServices ["cache", "db"]) (.syscall []) :=
    ⟨rfl, ("cache", [("write", denyAt "EIO" "")]), _, rfl, by decide⟩
  obtain ⟨err, rt', hs, hiff⟩ := a_failed_start_leaves_nothing_iff .asStored hostOfDb
    (onServices ["cache", "db"]) (.syscall []) hf
  refine ⟨err, rt', hs, hiff.mpr ?_⟩
  intro l₁ p l₂ hsp
  cases l₁ with
  | nil => cases hsp
  | cons q l₁ => cases hsp

/-- A proxy fault on an interface of `db`. -/
def proxyOn (iface protocol : String) : FaultAssumptionProxyRule :=
  ⟨some ⟨"db", iface, protocol, "127.0.0.1:5432"⟩, some { action := .respond, status := 503 }⟩

def onInterfaces : FaultScenarioDef :=
  { name := "outage"
    faults := [⟨"slow", [], [proxyOn "main" "http", proxyOn "admin" "ssh"], []⟩]
    monitors := [] }

def leftBy (r : Except (String × FullRuntime) FullRuntime) : Option FullRuntime :=
  match r with
  | .error e => some e.2
  | .ok _ => none

/-- The rules on `db` stay when the next service does not run, and the rule on
`db.main` stays when the proxy of the next interface does not start. -/
theorem a_failed_start_leaves_rules :
    (leftBy (startScenario .asStored hostOfDb (onServices ["db", "cache"]))).map
        (fun rt' => ((rt'.toRuntime.dynamicRules "db").length, rt'.subscribers.subs)) =
      some (3, []) ∧
    (leftBy (startScenario .asStored hostOfDb onInterfaces)).map
        (fun rt' => (rt'.proxyMgr.rules "db:main").length) = some 1 ∧
    hostOfDb.toRuntime.dynamicRules "db" = [] ∧ hostOfDb.proxyMgr.rules "db:main" = [] := by
  exact ⟨by decide, by decide, by decide, by decide⟩

end faultbox.protocol_faults
