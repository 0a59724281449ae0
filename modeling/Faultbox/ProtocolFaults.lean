-- The faults on an interface: rules of its proxy, and packet rules that reach
-- the gateway through the registry. The runtime here holds both beside the
-- sessions of the services, and opens and closes a window on an interface.
import Faultbox.SyscallFaults

open goval faultbox.event_log

namespace faultbox.protocol_faults

open faultbox.syscall_faults

/-! ## Proxy rules -/

inductive ProxyAction where
  | respond
  | error
  | delay
  | drop
  | duplicate
deriving DecidableEq

structure ProxyFaultDef where
  action : ProxyAction
  method : String := ""
  path : String := ""
  query : String := ""
  key : String := ""
  topic : String := ""
  command : String := ""
  status : Int := 0
  body : String := ""
  error : String := ""
  delay : Int := 0
  probability : Rat := 0

/-- `proxy.Rule`. -/
structure ProxyRule where
  method : String
  path : String
  query : String
  key : String
  topic : String
  command : String
  action : ProxyAction
  status : Int
  body : String
  error : String
  delay : Int
  prob : Rat

def proxyFaultToRule (pf : ProxyFaultDef) : ProxyRule :=
  { method := pf.method, path := pf.path, query := pf.query, key := pf.key, topic := pf.topic
    command := pf.command, action := pf.action, status := pf.status, body := pf.body
    error := pf.error, delay := pf.delay, prob := pf.probability }

/-! ## The proxy manager -/

structure RunningProxy where
  listenAddr : String
  target : String
  rules : List ProxyRule

/-- `Manager`, with what the host answers to each start of a proxy: the address
that it listens on, or an error. -/
structure Manager where
  proxies : GoMap String RunningProxy
  starts : Nat → Except String String
  started : Nat

def proxyKey (svc iface : String) : String := svc ++ ":" ++ iface

/-- The protocols that `newProxy` knows. -/
def proxyProtocols : List String :=
  ["tcp", "http", "http2", "redis", "postgres", "mysql", "grpc", "kafka", "mongodb", "amqp", "nats",
    "memcached", "udp", "cassandra", "clickhouse"]

def Manager.ensureProxy (m : Manager) (svc iface protocol target : String) :
    Except String String × Manager :=
  let key := proxyKey svc iface
  match m.proxies.lookup key with
  | some rp => (.ok rp.listenAddr, m)
  | none =>
    if proxyProtocols.contains protocol then
      match m.starts m.started with
      | .error err =>
        (.error ("start " ++ protocol ++ " proxy for " ++ key ++ ": " ++ err),
          { m with started := m.started + 1 })
      | .ok addr =>
        (.ok addr, { m with
          proxies := m.proxies.insert key ⟨addr, target, []⟩
          started := m.started + 1 })
    else
      (.error ("create " ++ protocol ++ " proxy for " ++ key ++ ": protocol " ++ quote protocol ++
        " does not support proxy-level faults"), m)

/-- `AddRule`; with no proxy under the key, the callers drop its error. -/
def Manager.addRule (m : Manager) (svc iface : String) (rule : ProxyRule) : Manager :=
  match m.proxies.lookup (proxyKey svc iface) with
  | none => m
  | some rp =>
    { m with proxies :=
        m.proxies.insert (proxyKey svc iface) { rp with rules := rp.rules ++ [rule] } }

def Manager.clearRules (m : Manager) (svc iface : String) : Manager :=
  match m.proxies.lookup (proxyKey svc iface) with
  | none => m
  | some rp => { m with proxies := m.proxies.insert (proxyKey svc iface) { rp with rules := [] } }

def Manager.rules (m : Manager) (key : String) : List ProxyRule :=
  ((m.proxies.lookup key).map (·.rules)).getD []

/-! ## Packet rules -/

/-- A packet rule: its action and label, the destination that scopes it, and what
its validation objects to. -/
structure PacketRule where
  action : String
  label : String
  port : Nat
  dstIP : String
  invalid : Option String
deriving DecidableEq

/-- A packet fault, with the rule that it compiles to. -/
structure PacketFaultDef where
  action : String
  label : String
  compiled : Except String PacketRule

def describePacketFaults (defs : List PacketFaultDef) : String :=
  ", ".intercalate (defs.map fun d =>
    "packet_" ++ d.action ++ if d.label = "" then "" else "[" ++ d.label ++ "]")

/-- `Gateway`: the address of each consumer of an interface, and the rule sets. -/
structure Gateway where
  alloc : String → String → String → Option (String × Nat)
  rules : GoMap String (List PacketRule)

def ruleKey (consumer service iface : String) : String :=
  consumer ++ "\x00" ++ service ++ "\x00" ++ iface

def scopeTo (addr : String × Nat) (r : PacketRule) : PacketRule :=
  { r with port := if r.port = 0 then addr.2 else r.port, dstIP := addr.1 }

/-- What `NewRuleSet` objects to: the first rule that is not valid. -/
def ruleSetError (rules : List PacketRule) : Option String :=
  rules.zipIdx.findSome? fun p => p.1.invalid.map fun err =>
    "rule " ++ toString p.2 ++ " (" ++ p.1.action ++ "): " ++ err

/-- `InstallRules` replaces the rule set of the triple. -/
def Gateway.installRules (g : Gateway) (consumer service iface : String)
    (rules : List PacketRule) : Except String Gateway :=
  match ruleSetError rules with
  | some err => .error err
  | none =>
    if consumer = "" then
      .ok { g with rules := g.rules.insert (ruleKey consumer service iface) rules }
    else match g.alloc consumer service iface with
      | none => .error ("no gateway address for consumer " ++ quote consumer ++ " of " ++ service ++
          "." ++ iface ++ "; does " ++ quote consumer ++ " actually reach that interface?")
      | some addr => .ok { g with
          rules := g.rules.insert (ruleKey consumer service iface) (rules.map (scopeTo addr)) }

def Gateway.clearRules (g : Gateway) (consumer service iface : String) : Gateway :=
  { g with rules := g.rules.erase (ruleKey consumer service iface) }

/-- `packetRuleRegistry`; the packet faults of a test without a gateway are counted. -/
structure PacketRuleRegistry where
  gateway : Option Gateway
  unwired : Nat
  installs : GoMap String (List PacketRule)

/-- `install` notes the rules before it hands them to the gateway. -/
def PacketRuleRegistry.install (r : PacketRuleRegistry) (consumer service iface : String)
    (rules : List PacketRule) : Option String × PacketRuleRegistry :=
  let noted := { r with installs := r.installs.insert (ruleKey consumer service iface) rules }
  match r.gateway with
  | none => (none, { noted with unwired := r.unwired + 1 })
  | some g =>
    match g.installRules consumer service iface rules with
    | .error err => (some err, noted)
    | .ok g' => (none, { noted with gateway := some g' })

def PacketRuleRegistry.clear (r : PacketRuleRegistry) (consumer service iface : String) :
    PacketRuleRegistry :=
  { r with
    installs := r.installs.erase (ruleKey consumer service iface)
    gateway := r.gateway.map (·.clearRules consumer service iface) }

def PacketRuleRegistry.rules (r : PacketRuleRegistry) (key : String) :
    List PacketRule × List PacketRule :=
  ((r.installs.lookup key).getD [], (r.gateway.bind (·.rules.lookup key)).getD [])

/-! ## The subscribers of the event log -/

/-- The monitors that follow the event log, each under its ID, and the last ID
that was given out. -/
structure Subscribers where
  subs : List (Nat × String)
  nextSubID : Nat
  fresh : ∀ p ∈ subs, p.1 ≤ nextSubID

/-- `RegisterMonitor`: the monitor is subscribed under a new ID. -/
def Subscribers.register (l : Subscribers) (monitor : String) : Nat × Subscribers :=
  (l.nextSubID + 1,
    { subs := l.subs ++ [(l.nextSubID + 1, monitor)]
      nextSubID := l.nextSubID + 1
      fresh := by
        intro p hp
        rcases List.mem_append.mp hp with hp | hp
        · exact Nat.le_succ_of_le (l.fresh p hp)
        · rw [List.mem_singleton.mp hp] })

/-- `UnregisterMonitor`: the first subscriber with the ID is removed. -/
def Subscribers.unregister (l : Subscribers) (id : Nat) : Subscribers :=
  { subs := l.subs.eraseP (·.1 == id)
    nextSubID := l.nextSubID
    fresh := fun p hp => l.fresh p (List.mem_of_mem_eraseP hp) }

/-! ## The runtime -/

/-- `Runtime` with its proxies, its packet rules and the subscribers of its event
log, and what the host answers to each start of the gateway. -/
structure FullRuntime extends Runtime where
  services : List String
  detRuntime : String
  proxyMgr : Manager
  packetRules : PacketRuleRegistry
  gatewayStarts : Nat → Option (String → String → String → Option (String × Nat))
  gatewayStarted : Nat
  subscribers : Subscribers

def FullRuntime.emit (rt : FullRuntime) (typ svc : String) (fields : List (String × String)) :
    FullRuntime :=
  { rt with toRuntime := rt.toRuntime.emit typ svc fields }

/-- `requirePacketRuntime`, for the gvisor runtime alone. -/
def FullRuntime.requirePacketRuntime (rt : FullRuntime) (what : String) : Option String :=
  if rt.detRuntime = "gvisor" then none
  else some ((if what = "" then "packet faults" else what) ++
    " require the netstack packet gateway, but this spec runs on runtime=" ++ quote rt.detRuntime ++
    "; add determinism(runtime=" ++ quote "gvisor" ++ ") at the top of the spec")

/-- `ensurePacketGateway`: a gateway that starts has no rules. -/
def FullRuntime.ensurePacketGateway (rt : FullRuntime) : FullRuntime :=
  match rt.packetRules.gateway with
  | some _ => rt
  | none =>
    let rt := { rt with gatewayStarted := rt.gatewayStarted + 1 }
    match rt.gatewayStarts (rt.gatewayStarted - 1) with
    | none => rt
    | some alloc =>
      { rt with packetRules := { rt.packetRules with gateway := some ⟨alloc, ∅⟩ } }.emit
        "packet_gateway_started" "" []

/-- The source= of a window must be a consumer of the interface. -/
def FullRuntime.validateFaultSource (rt : FullRuntime) (consumer service iface : String) :
    Option String × FullRuntime :=
  if !rt.services.contains consumer then
    (some ("fault() source=" ++ quote consumer ++ ": no such service"), rt)
  else if consumer = service then
    (some ("fault() source=" ++ quote consumer ++ " targets " ++ service ++ "." ++ iface ++
      ", which is the same service; source= names the *consumer* of the interface, not its owner"),
      rt)
  else
    let rt := rt.ensurePacketGateway
    match rt.packetRules.gateway with
    | none => (none, rt)
    | some g =>
      match g.alloc consumer service iface with
      | some _ => (none, rt)
      | none => (some ("fault() source=" ++ quote consumer ++ ": " ++ quote consumer ++
          " has no route to " ++ service ++ "." ++ iface ++
          ", so the rule would match nothing. Does " ++ quote consumer ++ " reference " ++
          service ++ "." ++ iface ++ " in its env?"), rt)

/-! ## A window on an interface -/

/-- The arguments of fault(interface, ...): the interface, the source= service,
empty when there is none, and the faults. -/
structure ProtocolFault where
  svc : String
  iface : String
  protocol : String
  target : String
  proxyDisabled : Bool
  source : String
  proxyFaults : List ProxyFaultDef
  packetFaults : List PacketFaultDef

def compileAll : List PacketFaultDef → Except String (List PacketRule)
  | [] => .ok []
  | d :: rest =>
    match d.compiled with
    | .error err => .error ("packet_" ++ d.action ++ "(): " ++ err)
    | .ok r =>
      match compileAll rest with
      | .error err => .error err
      | .ok rules => .ok (r :: rules)

def FullRuntime.applyPacketFaults (rt : FullRuntime) (w : ProtocolFault) :
    Option String × FullRuntime :=
  match compileAll w.packetFaults with
  | .error err => (some err, rt)
  | .ok rules =>
    match rt.packetRules.install w.source w.svc w.iface rules with
    | (some err, reg) =>
      (some ("install packet rules on " ++ w.svc ++ "." ++ w.iface ++ ": " ++ err),
        { rt with packetRules := reg })
    | (none, reg) =>
      (none, { rt with packetRules := reg }.emit "packet_fault_applied" w.svc
        ([("interface", w.iface), ("rules", describePacketFaults w.packetFaults),
          ("count", toString rules.length)] ++
          if w.source = "" then [] else [("source", w.source)]))

/-- The checks of builtinFaultProtocol that come before any change. -/
def FullRuntime.checkProtocol (rt : FullRuntime) (w : ProtocolFault) :
    Option String × FullRuntime :=
  if w.proxyDisabled then
    (some ("fault(): proxy is disabled for " ++ w.svc ++ "." ++ w.iface), rt)
  else if w.proxyFaults.isEmpty && w.packetFaults.isEmpty then
    (some ("fault(interface_ref, ...) requires at least one protocol fault (response, error, " ++
      "drop, ...) or packet fault (packet_drop, packet_delay, ...)"), rt)
  else if w.packetFaults.isEmpty then (none, rt)
  else match rt.requirePacketRuntime (describePacketFaults w.packetFaults) with
    | some err => (some err, rt)
    | none => if w.source = "" then (none, rt) else rt.validateFaultSource w.source w.svc w.iface

def Manager.addRules (m : Manager) (svc iface : String) (faults : List ProxyFaultDef) : Manager :=
  faults.foldl (fun m pf => m.addRule svc iface (proxyFaultToRule pf)) m

/-- A window without proxy faults has no event for them. -/
def FullRuntime.noteProxyFaults (rt : FullRuntime) (w : ProtocolFault) (proxyAddr : String) :
    FullRuntime :=
  if w.proxyFaults.isEmpty then rt
  else rt.emit "proxy_fault_applied" w.svc
    [("interface", w.iface), ("protocol", w.protocol), ("proxy", proxyAddr), ("source", w.source)]

/-- builtinFaultProtocol, up to the call of the body. -/
def FullRuntime.openProtocol (rt : FullRuntime) (w : ProtocolFault) : Option String × FullRuntime :=
  match rt.checkProtocol w with
  | (some err, rt) => (some err, rt)
  | (none, rt) =>
    match rt.proxyMgr.ensureProxy w.svc w.iface w.protocol w.target with
    | (.error err, m) => (some ("fault(): " ++ err), { rt with proxyMgr := m })
    | (.ok proxyAddr, m) =>
      let rt := { rt with proxyMgr := m.addRules w.svc w.iface w.proxyFaults }
      let rt := rt.noteProxyFaults w proxyAddr
      if w.packetFaults.isEmpty then (none, rt)
      else match rt.applyPacketFaults w with
        | (some err, rt) => (some ("fault(): " ++ err), rt)
        | (none, rt) => (none, rt)

/-- The deferred calls of builtinFaultProtocol. -/
def FullRuntime.closeProtocol (rt : FullRuntime) (w : ProtocolFault) : FullRuntime :=
  let rt := { rt with proxyMgr := rt.proxyMgr.clearRules w.svc w.iface }.emit
    "proxy_fault_removed" w.svc [("interface", w.iface)]
  if w.packetFaults.isEmpty then rt
  else { rt with packetRules := rt.packetRules.clear w.source w.svc w.iface }

end faultbox.protocol_faults
