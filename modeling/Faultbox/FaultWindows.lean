-- The windows that fault() and trace() open around a body, on a service or on an
-- interface, however they are nested. Windows set and clear, they do not stack.
-- The laws: a closed window leaves its service or interface without rules, and
-- what no window was opened on keeps the rules that it had.
import Faultbox.Windows
import Faultbox.ProtocolFaults
import Faultbox.Placeholders

open goval faultbox.engine faultbox.event_log faultbox.syscall_faults

namespace faultbox.protocol_faults

variable {rt : Runtime} {svc other key : String}

/-! ## Bodies -/

/-- What happens in a body besides its windows: system calls of the services, and
events. -/
inductive BodyStep where
  | call (svc : String) (req : NotifReq)
  | emit (typ svc : String) (fields : List (String × String))

inductive FaultWindow where
  | fault (svc : String) (faults : Faults)
  | trace (svc : String) (syscalls : List String)
  | protocol (w : ProtocolFault)

/-- What a body does in one run. Starlark has no way to catch an error, so a window
that does not open ends the body. -/
abbrev Body : Type := windows.Prog BodyStep FaultWindow

def stepBody (rt : FullRuntime) : BodyStep → FullRuntime
  | .call svc req => { rt with toRuntime := rt.toRuntime.handleCall svc req }
  | .emit typ svc fields => rt.emit typ svc fields

def enterWindow (rt : FullRuntime) : FaultWindow → Bool × FullRuntime
  | .fault svc faults =>
    ((applyFaults rt.toRuntime svc faults).1.isNone,
      { rt with toRuntime := (applyFaults rt.toRuntime svc faults).2 })
  | .trace svc syscalls =>
    ((applyTrace rt.toRuntime svc syscalls).1.isNone,
      { rt with toRuntime := (applyTrace rt.toRuntime svc syscalls).2 })
  | .protocol w => ((rt.openProtocol w).1.isNone, (rt.openProtocol w).2)

def leaveWindow (order : MapOrder) (rt : FullRuntime) : FaultWindow → FullRuntime
  | .fault svc _ => { rt with toRuntime := removeFaults order rt.toRuntime svc }
  | .trace svc _ => { rt with toRuntime := removeTrace rt.toRuntime svc }
  | .protocol w => rt.closeProtocol w

def bodySemantics (order : MapOrder) : windows.Semantics FullRuntime BodyStep FaultWindow :=
  ⟨stepBody, enterWindow, leaveWindow order⟩

def builtinFault (order : MapOrder) (rt : FullRuntime) (svc : String) (faults : Faults)
    (bodyFn : Body) : windows.Result FullRuntime FaultWindow :=
  windows.run (bodySemantics order) (.window (.fault svc faults) bodyFn) rt

def builtinFaultProtocol (order : MapOrder) (rt : FullRuntime) (w : ProtocolFault)
    (bodyFn : Body) : windows.Result FullRuntime FaultWindow :=
  windows.run (bodySemantics order) (.window (.protocol w) bodyFn) rt

/-! ## Dynamic rules -/

def FaultWindow.services : FaultWindow → List String
  | .fault svc _ => [svc]
  | .trace svc _ => [svc]
  | .protocol _ => []

/-- The same rules, whatever their counters show. -/
def SameRules (before after : List (Nat × FaultRule)) : Prop :=
  after.map asInstalled = before.map asInstalled

theorem dynamicRules_eq {rt' : Runtime} (h : rt'.sessions.lookup svc = rt.sessions.lookup svc) :
    rt'.dynamicRules svc = rt.dynamicRules svc := by
  unfold Runtime.dynamicRules Runtime.session
  rw [h]

theorem dynamicRules_insert (rt : Runtime) (svc : String) (s : Session) :
    (rt.setSession svc s).dynamicRules svc = s.dynamicRules := by
  simp [Runtime.dynamicRules, Runtime.session]

theorem lookup_insert_other (h : other ≠ svc) (s : Option Session) :
    (rt.sessions.insert svc s).lookup other = rt.sessions.lookup other :=
  AList.lookup_insert_ne h

theorem dynamicRules_of_session {s : Session} (h : rt.session svc = some s) :
    rt.dynamicRules svc = s.dynamicRules := by
  simp [Runtime.dynamicRules, h]

theorem sameRules_handleCall (rt : Runtime) (svc other : String) (req : NotifReq) :
    SameRules (rt.dynamicRules other) ((rt.handleCall svc req).dynamicRules other) := by
  unfold Runtime.handleCall
  cases hs : rt.session svc with
  | none => exact rfl
  | some s =>
    by_cases ho : other = svc
    · subst ho
      dsimp only
      rw [dynamicRules_insert, dynamicRules_of_session hs]
      exact (handleNotification_installed s req).2
    · have hsa : (rt.setSession svc (handleNotification s req).2).dynamicRules other =
          rt.dynamicRules other := dynamicRules_eq (lookup_insert_other ho _)
      dsimp only
      rw [hsa]
      exact rfl

theorem dynamicRules_cleared {rt' : Runtime} (h : rt'.sessions = match rt.session svc with
      | none => rt.sessions
      | some s => rt.sessions.insert svc (some (clearDynamicFaultRules s))) (other : String) :
    rt'.dynamicRules other = if other = svc then [] else rt.dynamicRules other := by
  by_cases ho : other = svc
  · subst ho
    rw [if_pos rfl]
    cases hs : rt.session other with
    | none =>
      rw [hs] at h
      simp only [Runtime.dynamicRules, Runtime.session, h]
      exact (congrArg (fun x => (x.map Session.dynamicRules).getD []) hs :)
    | some s =>
      rw [hs] at h
      simp [Runtime.dynamicRules, Runtime.session, h, clearDynamicFaultRules]
  · rw [if_neg ho]
    apply dynamicRules_eq
    rw [h]
    cases rt.session svc with
    | none => rfl
    | some s => exact lookup_insert_other ho _

variable (order : MapOrder) (m : Manager)

theorem sessions_removeFaults (rt : Runtime) (svc : String) :
    (removeFaults order rt svc).sessions = match rt.session svc with
      | none => rt.sessions
      | some s => rt.sessions.insert svc (some (clearDynamicFaultRules s)) := by
  have hs : Runtime.session { rt with faults := rt.faults.erase svc } svc = rt.session svc := rfl
  unfold removeFaults
  rw [sessions_emit, hs]
  cases rt.session svc with
  | none => rfl
  | some s => rw [sessions_setSession, sessions_reportZeroTraffic]

theorem sessions_removeTrace (rt : Runtime) (svc : String) :
    (removeTrace rt svc).sessions = match rt.session svc with
      | none => rt.sessions
      | some s => rt.sessions.insert svc (some (clearDynamicFaultRules s)) := by
  unfold removeTrace
  rw [sessions_emit]
  cases rt.session svc with
  | none => rfl
  | some s => rfl

/-! ## What opening and closing on an interface changes -/

def FaultWindow.proxyKeys : FaultWindow → List String
  | .protocol w => [proxyKey w.svc w.iface]
  | _ => []

def FaultWindow.packetKeys : FaultWindow → List String
  | .protocol w => if w.packetFaults.isEmpty then [] else [ruleKey w.source w.svc w.iface]
  | _ => []

theorem rules_ensureProxy (svc iface protocol target key : String) :
    (m.ensureProxy svc iface protocol target).2.rules key = m.rules key := by
  unfold Manager.ensureProxy
  cases hl : m.proxies.lookup (proxyKey svc iface) with
  | some rp => simp only [hl]
  | none =>
    simp only [hl]
    by_cases hp : proxyProtocols.contains protocol = true
    · rw [if_pos hp]
      cases m.starts m.started with
      | error err => rfl
      | ok addr =>
        -- a new proxy has no rules, and none was there before
        by_cases hkey : key = proxyKey svc iface
        · subst hkey
          simp [Manager.rules, hl]
        · simp [Manager.rules, AList.lookup_insert_ne hkey]
    · rw [if_neg hp]

theorem rules_addRule (svc iface : String) (rule : ProxyRule) (h : key ≠ proxyKey svc iface) :
    (m.addRule svc iface rule).rules key = m.rules key := by
  unfold Manager.addRule
  cases m.proxies.lookup (proxyKey svc iface) with
  | none => rfl
  | some rp => simp [Manager.rules, AList.lookup_insert_ne h]

theorem rules_addRules (svc iface : String) (faults : List ProxyFaultDef)
    (h : key ≠ proxyKey svc iface) : (m.addRules svc iface faults).rules key = m.rules key := by
  unfold Manager.addRules
  induction faults generalizing m with
  | nil => rfl
  | cons pf faults ih =>
    rw [List.foldl_cons, ih, rules_addRule m svc iface _ h]

theorem rules_clearRules (svc iface key : String) :
    (m.clearRules svc iface).rules key =
      if key = proxyKey svc iface then [] else m.rules key := by
  unfold Manager.clearRules
  by_cases hkey : key = proxyKey svc iface
  · subst hkey
    rw [if_pos rfl]
    cases hl : m.proxies.lookup (proxyKey svc iface) with
    | none => simp [Manager.rules, hl]
    | some rp => simp [Manager.rules]
  · rw [if_neg hkey]
    cases m.proxies.lookup (proxyKey svc iface) with
    | none => rfl
    | some rp => simp [Manager.rules, AList.lookup_insert_ne hkey]

theorem lookup_installRules {g g' : Gateway} {consumer service iface : String}
    {rules : List PacketRule} (h : g.installRules consumer service iface rules = .ok g')
    (hkey : key ≠ ruleKey consumer service iface) : g'.rules.lookup key = g.rules.lookup key := by
  unfold Gateway.installRules at h
  split at h
  · cases h
  · split_ifs at h with hc
    · obtain rfl := Except.ok.inj h
      exact AList.lookup_insert_ne hkey
    · split at h
      · cases h
      · obtain rfl := Except.ok.inj h
        exact AList.lookup_insert_ne hkey

theorem rules_install (r : PacketRuleRegistry) (consumer service iface : String)
    (rules : List PacketRule) (hkey : key ≠ ruleKey consumer service iface) :
    (r.install consumer service iface rules).2.rules key = r.rules key := by
  unfold PacketRuleRegistry.install
  cases hg : r.gateway with
  | none => simp [PacketRuleRegistry.rules, AList.lookup_insert_ne hkey, hg]
  | some g =>
    dsimp only
    cases hi : g.installRules consumer service iface rules with
    | error err => simp [PacketRuleRegistry.rules, AList.lookup_insert_ne hkey, hg]
    | ok g' =>
      simp [PacketRuleRegistry.rules, AList.lookup_insert_ne hkey, hg,
        lookup_installRules hi hkey]

theorem rules_clear (r : PacketRuleRegistry) (consumer service iface key : String) :
    (r.clear consumer service iface).rules key =
      if key = ruleKey consumer service iface then ([], []) else r.rules key := by
  unfold PacketRuleRegistry.clear PacketRuleRegistry.rules Gateway.clearRules
  by_cases hkey : key = ruleKey consumer service iface
  · subst hkey
    cases r.gateway with
    | none => simp
    | some g => simp
  · cases r.gateway with
    | none => simp [hkey, AList.lookup_erase_ne hkey]
    | some g => simp [hkey, AList.lookup_erase_ne hkey]

/-- No rules of any kind are changed. -/
structure KeepsRules (rt rt' : FullRuntime) : Prop where
  sessions : rt'.sessions = rt.sessions
  proxies : rt'.proxyMgr = rt.proxyMgr
  packets : ∀ key, rt'.packetRules.rules key = rt.packetRules.rules key

theorem KeepsRules.refl (rt : FullRuntime) : KeepsRules rt rt := ⟨rfl, rfl, fun _ => rfl⟩

theorem keepsRules_ensurePacketGateway (rt : FullRuntime) :
    KeepsRules rt rt.ensurePacketGateway := by
  unfold FullRuntime.ensurePacketGateway
  cases hg : rt.packetRules.gateway with
  | some g => exact .refl rt
  | none =>
    dsimp only
    split
    · exact ⟨rfl, rfl, fun _ => rfl⟩
    · refine ⟨rfl, rfl, fun key => ?_⟩
      simp [FullRuntime.emit, PacketRuleRegistry.rules, hg]

theorem keepsRules_validateFaultSource (rt : FullRuntime) (consumer service iface : String) :
    KeepsRules rt (rt.validateFaultSource consumer service iface).2 := by
  unfold FullRuntime.validateFaultSource
  split_ifs
  · exact .refl rt
  · exact .refl rt
  · dsimp only
    split
    · exact keepsRules_ensurePacketGateway rt
    · split
      · exact keepsRules_ensurePacketGateway rt
      · exact keepsRules_ensurePacketGateway rt

theorem keepsRules_checkProtocol (rt : FullRuntime) (w : ProtocolFault) :
    KeepsRules rt (rt.checkProtocol w).2 := by
  unfold FullRuntime.checkProtocol
  by_cases hd : w.proxyDisabled = true
  · rw [if_pos hd]
    exact .refl rt
  · rw [if_neg hd]
    split
    · exact .refl rt
    · split
      · exact .refl rt
      · cases rt.requirePacketRuntime (describePacketFaults w.packetFaults) with
        | some err => exact .refl rt
        | none =>
          dsimp only
          split
          · exact .refl rt
          · exact keepsRules_validateFaultSource rt w.source w.svc w.iface

theorem applyPacketFaults_frame (rt : FullRuntime) (w : ProtocolFault) :
    (rt.applyPacketFaults w).2.sessions = rt.sessions ∧
      (rt.applyPacketFaults w).2.proxyMgr = rt.proxyMgr ∧
      ∀ key, key ≠ ruleKey w.source w.svc w.iface →
        (rt.applyPacketFaults w).2.packetRules.rules key = rt.packetRules.rules key := by
  unfold FullRuntime.applyPacketFaults
  cases compileAll w.packetFaults with
  | error err => exact ⟨rfl, rfl, fun _ _ => rfl⟩
  | ok rules =>
    dsimp only
    have hi := fun key (hkey : key ≠ ruleKey w.source w.svc w.iface) =>
      rules_install rt.packetRules w.source w.svc w.iface rules hkey
    split
    · rename_i err reg heq
      rw [heq] at hi
      exact ⟨rfl, rfl, hi⟩
    · rename_i reg heq
      rw [heq] at hi
      exact ⟨rfl, rfl, hi⟩

theorem noteProxyFaults_frame (rt : FullRuntime) (w : ProtocolFault) (addr : String) :
    (rt.noteProxyFaults w addr).sessions = rt.sessions ∧
      (rt.noteProxyFaults w addr).proxyMgr = rt.proxyMgr ∧
      (rt.noteProxyFaults w addr).packetRules = rt.packetRules := by
  unfold FullRuntime.noteProxyFaults
  split
  · exact ⟨rfl, rfl, rfl⟩
  · exact ⟨rfl, rfl, rfl⟩

/-- A window on an interface opens and fails to open within its own keys. -/
theorem openProtocol_frame (rt : FullRuntime) (w : ProtocolFault) :
    (rt.openProtocol w).2.sessions = rt.sessions ∧
      (∀ key, key ≠ proxyKey w.svc w.iface →
        (rt.openProtocol w).2.proxyMgr.rules key = rt.proxyMgr.rules key) ∧
      ∀ key, key ∉ (FaultWindow.protocol w).packetKeys →
        (rt.openProtocol w).2.packetRules.rules key = rt.packetRules.rules key := by
  obtain ⟨hse, hpr, hpa⟩ := keepsRules_checkProtocol rt w
  unfold FullRuntime.openProtocol
  split
  · rename_i err rt₁ hc
    rw [hc] at hse hpr hpa
    exact ⟨hse, fun key _ => congrArg (·.rules key) hpr, fun key _ => hpa key⟩
  · rename_i rt₁ hc
    rw [hc] at hse hpr hpa
    have he := fun key => rules_ensureProxy rt₁.proxyMgr w.svc w.iface w.protocol w.target key
    split
    · rename_i err m hm
      rw [hm] at he
      refine ⟨hse, fun key _ => ?_, fun key _ => hpa key⟩
      rw [← hpr]
      exact he key
    · rename_i addr m hm
      rw [hm] at he
      have ha : ∀ key, key ≠ proxyKey w.svc w.iface →
          (m.addRules w.svc w.iface w.proxyFaults).rules key = rt.proxyMgr.rules key := by
        intro key hkey
        rw [rules_addRules m w.svc w.iface w.proxyFaults hkey, ← hpr]
        exact he key
      obtain ⟨hse', hpr', hpa'⟩ := noteProxyFaults_frame
        { rt₁ with proxyMgr := m.addRules w.svc w.iface w.proxyFaults } w addr
      dsimp only
      set rt₂ := FullRuntime.noteProxyFaults
        { rt₁ with proxyMgr := m.addRules w.svc w.iface w.proxyFaults } w addr
      by_cases hem : w.packetFaults.isEmpty = true
      · rw [if_pos hem]
        refine ⟨hse'.trans hse, fun key hkey => ?_, fun key _ => ?_⟩
        · rw [hpr']
          exact ha key hkey
        · rw [hpa']
          exact hpa key
      · rw [if_neg hem]
        obtain ⟨hs, hp, hk⟩ := applyPacketFaults_frame rt₂ w
        have hown : ∀ key, key ∉ (FaultWindow.protocol w).packetKeys →
            (rt₂.applyPacketFaults w).2.packetRules.rules key = rt.packetRules.rules key := by
          intro key hkey
          rw [FaultWindow.packetKeys, if_neg hem, List.mem_singleton] at hkey
          rw [hk key hkey, hpa']
          exact hpa key
        have hpro : ∀ key, key ≠ proxyKey w.svc w.iface →
            (rt₂.applyPacketFaults w).2.proxyMgr.rules key = rt.proxyMgr.rules key := by
          intro key hkey
          rw [hp, hpr']
          exact ha key hkey
        have hses := hs.trans (hse'.trans hse)
        split
        · rename_i err rt₃ heq
          rw [heq] at hown hpro hses
          exact ⟨hses, hpro, hown⟩
        · rename_i rt₃ heq
          rw [heq] at hown hpro hses
          exact ⟨hses, hpro, hown⟩

/-! ## The windows and the three kinds of rules -/

theorem dynamicRules_applyFaults_other (rt : Runtime) (faults : Faults) (h : other ≠ svc) :
    (applyFaults rt svc faults).2.dynamicRules other = rt.dynamicRules other := by
  apply dynamicRules_eq
  rcases applyFaults_sessions rt svc faults with ⟨hs, -⟩ | ⟨s, -, -, hs⟩
  · rw [hs]
  · rw [hs]
    exact lookup_insert_other h _

theorem dynamicRules_applyFaults_error {faults : Faults} (h : (applyFaults rt svc faults).1 ≠ none)
    (other : String) :
    (applyFaults rt svc faults).2.dynamicRules other = rt.dynamicRules other := by
  apply dynamicRules_eq
  rcases applyFaults_sessions rt svc faults with ⟨hs, -⟩ | ⟨s, -, hok, -⟩
  · rw [hs]
  · exact absurd hok h

theorem dynamicRules_applyTrace_other (rt : Runtime) (syscalls : List String) (h : other ≠ svc) :
    (applyTrace rt svc syscalls).2.dynamicRules other = rt.dynamicRules other := by
  apply dynamicRules_eq
  rcases applyTrace_sessions rt svc syscalls with hs | ⟨s, -, -, hs⟩
  · rw [hs]
  · rw [hs]
    exact lookup_insert_other h _

theorem dynamicRules_applyTrace_error {syscalls : List String}
    (h : (applyTrace rt svc syscalls).1 ≠ none) (other : String) :
    (applyTrace rt svc syscalls).2.dynamicRules other = rt.dynamicRules other := by
  apply dynamicRules_eq
  rcases applyTrace_sessions rt svc syscalls with hs | ⟨s, -, hok, -⟩
  · rw [hs]
  · exact absurd hok h

theorem sessions_closeProtocol (rt : FullRuntime) (w : ProtocolFault) :
    (rt.closeProtocol w).sessions = rt.sessions := by
  unfold FullRuntime.closeProtocol
  dsimp only
  split
  · rfl
  · rfl

theorem dynamicRules_openProtocol (rt : FullRuntime) (w : ProtocolFault) (other : String) :
    (rt.openProtocol w).2.toRuntime.dynamicRules other = rt.toRuntime.dynamicRules other :=
  dynamicRules_eq (by rw [(openProtocol_frame rt w).1])

theorem dynamicRules_closeProtocol (rt : FullRuntime) (w : ProtocolFault) (other : String) :
    (rt.closeProtocol w).toRuntime.dynamicRules other = rt.toRuntime.dynamicRules other :=
  dynamicRules_eq (by rw [sessions_closeProtocol rt w])

theorem dynamicRules_leaveWindow (rt : FullRuntime) (b : FaultWindow) (other : String) :
    (leaveWindow order rt b).toRuntime.dynamicRules other =
      if other ∈ b.services then [] else rt.toRuntime.dynamicRules other := by
  cases b with
  | fault svc faults =>
    simp only [FaultWindow.services, List.mem_singleton]
    exact dynamicRules_cleared (sessions_removeFaults order rt.toRuntime svc) other
  | trace svc syscalls =>
    simp only [FaultWindow.services, List.mem_singleton]
    exact dynamicRules_cleared (sessions_removeTrace rt.toRuntime svc) other
  | protocol w =>
    simp only [FaultWindow.services, List.not_mem_nil, if_false]
    exact dynamicRules_closeProtocol rt w other

theorem framed_dynamicRules :
    windows.Framed (bodySemantics order) (fun rt svc => rt.toRuntime.dynamicRules svc) SameRules
      (· = []) FaultWindow.services (fun _ => []) where
  refl _ := rfl
  trans _ _ _ h h' := h'.trans h
  stays x y hx h := by
    subst hx
    exact List.map_eq_nil_iff.mp h
  step rt a other := by
    cases a with
    | call svc req => exact sameRules_handleCall rt.toRuntime svc other req
    | emit typ svc fields => exact rfl
  enter rt b other ho hkey := by
    cases b with
    | fault svc faults =>
      have hot : other ≠ svc := by simpa [FaultWindow.services] using hkey
      exact congrArg (List.map asInstalled)
        (dynamicRules_applyFaults_other rt.toRuntime faults hot)
    | trace svc syscalls =>
      have hot : other ≠ svc := by simpa [FaultWindow.services] using hkey
      exact congrArg (List.map asInstalled)
        (dynamicRules_applyTrace_other rt.toRuntime syscalls hot)
    | protocol w =>
      exact congrArg (List.map asInstalled) (dynamicRules_openProtocol rt w other)
  refuse rt b other ho _ := by
    cases b with
    | fault svc faults =>
      have he : (applyFaults rt.toRuntime svc faults).1 ≠ none := by
        intro hn
        simp [bodySemantics, enterWindow, hn] at ho
      exact congrArg (List.map asInstalled) (dynamicRules_applyFaults_error he other)
    | trace svc syscalls =>
      have he : (applyTrace rt.toRuntime svc syscalls).1 ≠ none := by
        intro hn
        simp [bodySemantics, enterWindow, hn] at ho
      exact congrArg (List.map asInstalled) (dynamicRules_applyTrace_error he other)
    | protocol w =>
      exact congrArg (List.map asInstalled) (dynamicRules_openProtocol rt w other)
  leave rt b other hkey := by
    have hl := dynamicRules_leaveWindow order rt b other
    rw [if_neg hkey] at hl
    exact congrArg (List.map asInstalled) hl
  clears rt b other hkey := by
    have hl := dynamicRules_leaveWindow order rt b other
    rw [if_pos hkey] at hl
    exact hl

theorem proxyMgr_closeProtocol (rt : FullRuntime) (w : ProtocolFault) :
    (rt.closeProtocol w).proxyMgr = rt.proxyMgr.clearRules w.svc w.iface := by
  unfold FullRuntime.closeProtocol
  dsimp only
  split
  · rfl
  · rfl

theorem proxyRules_leaveWindow (rt : FullRuntime) (b : FaultWindow) (key : String) :
    (leaveWindow order rt b).proxyMgr.rules key =
      if key ∈ b.proxyKeys then [] else rt.proxyMgr.rules key := by
  cases b with
  | fault svc faults => rfl
  | trace svc syscalls => rfl
  | protocol w =>
    simp only [FaultWindow.proxyKeys, List.mem_singleton]
    rw [← rules_clearRules, ← proxyMgr_closeProtocol]
    rfl

theorem proxyRules_enterWindow (rt : FullRuntime) (b : FaultWindow) (h : key ∉ b.proxyKeys) :
    rt.proxyMgr.rules key = (enterWindow rt b).2.proxyMgr.rules key := by
  cases b with
  | fault svc faults => rfl
  | trace svc syscalls => rfl
  | protocol w =>
    have ho : key ≠ proxyKey w.svc w.iface := by simpa [FaultWindow.proxyKeys] using h
    exact ((openProtocol_frame rt w).2.1 key ho).symm

theorem framed_proxyRules :
    windows.Framed (bodySemantics order) (fun rt key => rt.proxyMgr.rules key) Eq (· = [])
      FaultWindow.proxyKeys FaultWindow.proxyKeys := by
  refine .of_restores (fun rt a key => ?_) (fun rt b key => proxyRules_enterWindow rt b)
    (proxyRules_leaveWindow order)
  cases a with
  | call svc req => rfl
  | emit typ svc fields => rfl

theorem packetRules_closeProtocol (rt : FullRuntime) (w : ProtocolFault) (key : String) :
    (rt.closeProtocol w).packetRules.rules key =
      if key ∈ (FaultWindow.protocol w).packetKeys then ([], []) else rt.packetRules.rules key := by
  unfold FullRuntime.closeProtocol FaultWindow.packetKeys
  dsimp only
  by_cases he : w.packetFaults.isEmpty = true
  · simp only [if_pos he, List.not_mem_nil, if_false]
    rfl
  · simp only [if_neg he, List.mem_singleton]
    exact rules_clear rt.packetRules w.source w.svc w.iface key

theorem packetRules_leaveWindow (rt : FullRuntime) (b : FaultWindow) (key : String) :
    (leaveWindow order rt b).packetRules.rules key =
      if key ∈ b.packetKeys then ([], []) else rt.packetRules.rules key := by
  cases b with
  | fault svc faults => rfl
  | trace svc syscalls => rfl
  | protocol w => exact packetRules_closeProtocol rt w key

theorem packetRules_enterWindow (rt : FullRuntime) (b : FaultWindow) (h : key ∉ b.packetKeys) :
    rt.packetRules.rules key = (enterWindow rt b).2.packetRules.rules key := by
  cases b with
  | fault svc faults => rfl
  | trace svc syscalls => rfl
  | protocol w => exact ((openProtocol_frame rt w).2.2 key h).symm

theorem framed_packetRules :
    windows.Framed (bodySemantics order) (fun rt key => rt.packetRules.rules key) Eq (· = ([], []))
      FaultWindow.packetKeys FaultWindow.packetKeys := by
  refine .of_restores (fun rt a key => ?_) (fun rt b key => packetRules_enterWindow rt b)
    (packetRules_leaveWindow order)
  cases a with
  | call svc req => rfl
  | emit typ svc fields => rfl

/-! ## The laws -/

/-- Once fault(service, ...) returns, normally or not, the service of a window that
was open during the call has no dynamic rules, and every other service has the
rules that it had. -/
theorem closed_windows_leave_no_dynamic_rules (order : MapOrder) (rt : FullRuntime) (svc : String)
    (faults : Faults) (bodyFn : Body) :
    ((applyFaults rt.toRuntime svc faults).1 = none →
      (builtinFault order rt svc faults bodyFn).state.toRuntime.dynamicRules svc = []) ∧
    ∀ other,
      ((∃ b ∈ (builtinFault order rt svc faults bodyFn).closed, other ∈ b.services) →
        (builtinFault order rt svc faults bodyFn).state.toRuntime.dynamicRules other = []) ∧
      ((∀ b ∈ (builtinFault order rt svc faults bodyFn).closed, other ∉ b.services) →
        SameRules (rt.toRuntime.dynamicRules other)
          ((builtinFault order rt svc faults bodyFn).state.toRuntime.dynamicRules other)) := by
  have hf := fun other => (framed_dynamicRules order).run
    (.window (.fault svc faults) bodyFn) rt other (fun _ _ => List.not_mem_nil)
  refine ⟨fun ho => ?_, hf⟩
  apply (hf svc).1
  have he : ((bodySemantics order).enter rt (.fault svc faults)).1 = true := by
    simp [bodySemantics, enterWindow, ho]
  refine ⟨.fault svc faults, ?_, by simp [FaultWindow.services]⟩
  rw [windows.run_window_opened he]
  simp

/-- A runtime with `db` alone, whose proxies start and whose gateway runs. -/
def hostOfDb : FullRuntime :=
  { runningDb "" [] with
    services := ["db", "api"]
    detRuntime := "gvisor"
    proxyMgr := ⟨∅, fun _ => .ok "127.0.0.1:9000", 0⟩
    packetRules := ⟨some ⟨fun _ _ _ => none, ∅⟩, 0, ∅⟩
    gatewayStarts := fun _ => none
    gatewayStarted := 0
    subscribers := ⟨[], 0, fun _ hp => by cases hp⟩ }

/-- `hostOfDb` inside fault(db, write=deny("EIO"), run=...). -/
def insideFault : FullRuntime :=
  (enterWindow hostOfDb
    (.fault "db" [("write", { action := .deny, errno := "EIO", probability := 1 })])).2

/-- A second window on `db` inside the first ends with no rules, where there were
three before it. -/
theorem an_inner_window_ends_the_outer_one :
    (insideFault.toRuntime.dynamicRules "db").length = 3 ∧
      (builtinFault .asStored insideFault "db"
        [("write", { action := .delay, delay := 1000, probability := 1 })] .skip).ok = true ∧
      (builtinFault .asStored insideFault "db"
        [("write", { action := .delay, delay := 1000, probability := 1 })]
        .skip).state.toRuntime.dynamicRules "db" = [] := by
  exact ⟨by decide, by decide, by decide⟩

/-- Once fault(interface, ...) returns, its interface has no proxy rules and its
triple no packet rules. So it is for each interface and triple that a window was
open on, and all others have the rules that they had; the window that failed to
open, if one did, is left out. -/
theorem closed_windows_leave_no_protocol_rules (order : MapOrder) (rt : FullRuntime)
    (w : ProtocolFault) (bodyFn : Body) :
    ((rt.openProtocol w).1 = none →
      (builtinFaultProtocol order rt w bodyFn).state.proxyMgr.rules (proxyKey w.svc w.iface) = [] ∧
      (w.packetFaults.isEmpty = false →
        (builtinFaultProtocol order rt w bodyFn).state.packetRules.rules
          (ruleKey w.source w.svc w.iface) = ([], []))) ∧
    (∀ key, (∀ b, (builtinFaultProtocol order rt w bodyFn).refused = some b → key ∉ b.proxyKeys) →
      ((∃ b ∈ (builtinFaultProtocol order rt w bodyFn).closed, key ∈ b.proxyKeys) →
        (builtinFaultProtocol order rt w bodyFn).state.proxyMgr.rules key = []) ∧
      ((∀ b ∈ (builtinFaultProtocol order rt w bodyFn).closed, key ∉ b.proxyKeys) →
        rt.proxyMgr.rules key =
          (builtinFaultProtocol order rt w bodyFn).state.proxyMgr.rules key)) ∧
    (∀ key, (∀ b, (builtinFaultProtocol order rt w bodyFn).refused = some b → key ∉ b.packetKeys) →
      ((∃ b ∈ (builtinFaultProtocol order rt w bodyFn).closed, key ∈ b.packetKeys) →
        (builtinFaultProtocol order rt w bodyFn).state.packetRules.rules key = ([], [])) ∧
      ((∀ b ∈ (builtinFaultProtocol order rt w bodyFn).closed, key ∉ b.packetKeys) →
        rt.packetRules.rules key =
          (builtinFaultProtocol order rt w bodyFn).state.packetRules.rules key)) := by
  refine ⟨fun ho => ?_,
    fun key hkey => (framed_proxyRules order).run (.window (.protocol w) bodyFn) rt key hkey,
    fun key hkey => (framed_packetRules order).run (.window (.protocol w) bodyFn) rt key hkey⟩
  -- the window itself is closed last, so it clears even what a failed opening left
  have he : ((bodySemantics order).enter rt (.protocol w)).1 = true := by
    simp [bodySemantics, enterWindow, ho]
  have hl : (builtinFaultProtocol order rt w bodyFn).state =
      (windows.run (bodySemantics order) bodyFn
        ((bodySemantics order).enter rt (.protocol w)).2).state.closeProtocol w := by
    unfold builtinFaultProtocol
    rw [windows.run_window_opened he]
    rfl
  rw [hl]
  constructor
  · exact (framed_proxyRules order).clears _ (.protocol w) _ (by simp [FaultWindow.proxyKeys])
  · intro hp
    apply (framed_packetRules order).clears _ (.protocol w)
    simp [FaultWindow.packetKeys, hp]

/-- A window on `db.main` with one proxy fault and one packet fault. -/
def onDbMain (pf : ProxyFaultDef) : ProtocolFault :=
  { svc := "db", iface := "main", protocol := "http", target := "127.0.0.1:5432"
    proxyDisabled := false, source := "", proxyFaults := [pf]
    packetFaults := [⟨"drop", "", .ok ⟨"drop", "", 0, "", none⟩⟩] }

def insideProtocolFault : FullRuntime :=
  (hostOfDb.openProtocol (onDbMain { action := .respond, status := 503 })).2

/-- A second window on `db.main` inside the first ends with no proxy rule and no
packet rule, where there was one of each before it. -/
theorem an_inner_protocol_window_ends_the_outer_one :
    (insideProtocolFault.proxyMgr.rules "db:main").length = 1 ∧
      (insideProtocolFault.packetRules.rules (ruleKey "" "db" "main")).2.length = 1 ∧
      (builtinFaultProtocol .asStored insideProtocolFault
        (onDbMain { action := .delay, delay := 1000 }) .skip).ok = true ∧
      (builtinFaultProtocol .asStored insideProtocolFault
        (onDbMain { action := .delay, delay := 1000 }) .skip).state.proxyMgr.rules "db:main" = [] ∧
      (builtinFaultProtocol .asStored insideProtocolFault
        (onDbMain { action := .delay, delay := 1000 }) .skip).state.packetRules.rules
          (ruleKey "" "db" "main") = ([], []) := by
  exact ⟨by decide, by decide, by decide, by decide,
    by decide⟩

end faultbox.protocol_faults
