-- The packet rules of the gateway, and the scope that InstallRules gives them. A
-- rule of one consumer is scoped by the destination of a packet alone: it matches
-- what the consumer sends to its address, and never the replies. A rule without a
-- consumer is not scoped at all.
import Faultbox.ProtocolFaults

open goval faultbox.protocol_faults

namespace faultbox.packet_scope

/-! ## Packets and matchers -/

/-- The way of a packet: from the service that dialed, or back to it. -/
inductive Direction where
  | c2s
  | s2c
deriving DecidableEq

structure PacketView where
  proto : String
  dir : Direction
  srcIP : String
  dstIP : String
  srcPort : UInt16
  dstPort : UInt16
  payloadLen : Int
  payload : List UInt8
  flags : UInt8
  seq : UInt32
  ack : UInt32
  window : UInt16
  index : Int
  flow : String

/-- `Match`: a zero field matches every packet, as no `where` function does. -/
structure Match where
  dir : Option Direction := none
  proto : String := ""
  flagsSet : UInt8 := 0
  flagsClear : UInt8 := 0
  port : UInt16 := 0
  dstIP : String := ""
  len : Int := 0
  hasLen : Bool := false
  lenGT : Int := 0
  hasLenGT : Bool := false
  lenLT : Int := 0
  hasLenLT : Bool := false
  payloadPrefix : List UInt8 := []
  payloadContains : List UInt8 := []
  whereFn : Option (PacketView → Bool) := none

def Match.matchesDeclarative (m : Match) (p : PacketView) : Bool :=
  if m.dir ≠ none ∧ m.dir ≠ some p.dir then false
  else if m.proto ≠ "" ∧ m.proto ≠ p.proto then false
  else if m.flagsSet ≠ 0 ∧ p.flags &&& m.flagsSet ≠ m.flagsSet then false
  else if m.flagsClear ≠ 0 ∧ p.flags &&& m.flagsClear ≠ 0 then false
  else if m.port ≠ 0 ∧ p.dstPort ≠ m.port then false
  else if m.dstIP ≠ "" ∧ p.dstIP ≠ m.dstIP then false
  else if m.hasLen = true ∧ p.payloadLen ≠ m.len then false
  else if m.hasLenGT = true ∧ p.payloadLen ≤ m.lenGT then false
  else if m.hasLenLT = true ∧ m.lenLT ≤ p.payloadLen then false
  else if m.payloadPrefix ≠ [] ∧ ¬ m.payloadPrefix <+: p.payload then false
  else if m.payloadContains ≠ [] ∧ ¬ m.payloadContains <:+: p.payload then false
  else true

/-- The `where` function is asked last. -/
def Match.matches (m : Match) (p : PacketView) : Bool :=
  if m.matchesDeclarative p then
    match m.whereFn with
    | some f => f p
    | none => true
  else false

def Match.anyDestination (m : Match) : Match := { m with port := 0, dstIP := "" }

theorem check_iff (c : Prop) [Decidable c] (rest : Bool) :
    (if c then false else rest) = true ↔ ¬ c ∧ rest = true := by
  by_cases h : c <;> simp [h]

theorem matches_iff_declarative (m : Match) (p : PacketView) :
    m.matches p = true ↔ m.matchesDeclarative p = true ∧ ∀ f, m.whereFn = some f → f p = true := by
  unfold Match.matches
  by_cases h : m.matchesDeclarative p = true
  · cases hw : m.whereFn with
    | none => simp [h]
    | some f => simp [h]
  · simp [h]

theorem matches_iff (m : Match) (p : PacketView) :
    m.matches p = true ↔ m.anyDestination.matches p = true ∧
      (m.port = 0 ∨ p.dstPort = m.port) ∧ (m.dstIP = "" ∨ p.dstIP = m.dstIP) := by
  have hd : m.matchesDeclarative p = true ↔ m.anyDestination.matchesDeclarative p = true ∧
      (m.port = 0 ∨ p.dstPort = m.port) ∧ (m.dstIP = "" ∨ p.dstIP = m.dstIP) := by
    unfold Match.matchesDeclarative Match.anyDestination
    have hp : ¬ (m.port ≠ 0 ∧ p.dstPort ≠ m.port) ↔ m.port = 0 ∨ p.dstPort = m.port := by
      rw [not_and_or, not_ne_iff, not_ne_iff]
    have hip : ¬ (m.dstIP ≠ "" ∧ p.dstIP ≠ m.dstIP) ↔ m.dstIP = "" ∨ p.dstIP = m.dstIP := by
      rw [not_and_or, not_ne_iff, not_ne_iff]
    simp only [check_iff, hp, hip, ne_eq, not_true_eq_false, false_and, not_false_eq_true,
      true_and]
    constructor
    · rintro ⟨h1, h2, h3, h4, h5, h6, hr⟩
      exact ⟨⟨h1, h2, h3, h4, hr⟩, h5, h6⟩
    · rintro ⟨⟨h1, h2, h3, h4, hr⟩, h5, h6⟩
      exact ⟨h1, h2, h3, h4, h5, h6, hr⟩
  rw [matches_iff_declarative, matches_iff_declarative m.anyDestination, hd]
  exact and_right_comm

/-! ## The gateway -/

/-- `GatewayAddr`: the address that a consumer dials in place of the upstream. It
names a host and a port that can be dialed. -/
structure GatewayAddr where
  ip : String
  port : UInt16
  named : ip ≠ ""
  dialable : port ≠ 0

abbrev Alloc : Type := String → String → String → Option GatewayAddr

/-- `Rule`, and what its validation objects to. -/
structure Rule where
  action : String
  matcher : Match
  label : String
  invalid : Option String

/-- A rule as a packet fault compiles to it: the destination address is open. -/
structure WrittenRule where
  rule : Rule
  unscoped : rule.matcher.dstIP = ""

def Rule.toPacketRule (r : Rule) : PacketRule :=
  ⟨r.action, r.label, r.matcher.port.toNat, r.matcher.dstIP, r.invalid⟩

/-- `Gateway`: the addresses, the rule set of each triple, and the one list that the
endpoint matches packets against. -/
structure Gateway where
  alloc : Alloc
  rules : GoMap String (List Rule)
  endpoint : List Rule

/-- `republish`: the rule sets after each other, in the order of their keys. -/
def Gateway.republish (g : Gateway) : Gateway :=
  { g with endpoint := (sortStrings g.rules.keys).flatMap fun k => (g.rules.lookup k).getD [] }

def Gateway.setRules (g : Gateway) (key : String) (rules : List Rule) : Gateway :=
  { g with rules := g.rules.insert key rules }.republish

/-- What `InstallRules` makes of a rule of a consumer. -/
def Rule.scopeTo (addr : GatewayAddr) (r : Rule) : Rule :=
  { r with matcher := { r.matcher with
      port := if r.matcher.port = 0 then addr.port else r.matcher.port
      dstIP := addr.ip } }

def Gateway.installRules (g : Gateway) (consumer service iface : String) (rules : List Rule) :
    Except String Gateway :=
  match ruleSetError (rules.map Rule.toPacketRule) with
  | some err => .error err
  | none =>
    if consumer = "" then .ok (g.setRules (ruleKey consumer service iface) rules)
    else match g.alloc consumer service iface with
      | none => .error ("no gateway address for consumer " ++ quote consumer ++ " of " ++ service ++
          "." ++ iface ++ "; does " ++ quote consumer ++ " actually reach that interface?")
      | some addr =>
        .ok (g.setRules (ruleKey consumer service iface) (rules.map (Rule.scopeTo addr)))

def Gateway.rulesOf (g : Gateway) (consumer service iface : String) : List Rule :=
  (g.rules.lookup (ruleKey consumer service iface)).getD []

/-- What becomes of each rule of an accepted list. -/
def scopedRule (alloc : Alloc) (consumer service iface : String) (r : Rule) : Rule :=
  if consumer = "" then r
  else match alloc consumer service iface with
    | none => r
    | some addr => r.scopeTo addr

variable {g : Gateway} {consumer service iface : String}

theorem rulesOf_setRules (g : Gateway) (consumer service iface : String) (rules : List Rule) :
    (g.setRules (ruleKey consumer service iface) rules).rulesOf consumer service iface = rules := by
  simp [Gateway.rulesOf, Gateway.setRules, Gateway.republish]

theorem installRules_ok {g' : Gateway} {rules : List Rule}
    (h : g.installRules consumer service iface rules = .ok g') :
    g' = g.setRules (ruleKey consumer service iface)
        (rules.map (scopedRule g.alloc consumer service iface)) ∧
      (consumer ≠ "" → ∃ addr, g.alloc consumer service iface = some addr) := by
  unfold Gateway.installRules at h
  cases herr : ruleSetError (rules.map Rule.toPacketRule) with
  | some err => simp [herr] at h
  | none =>
    simp only [herr] at h
    by_cases hc : consumer = ""
    · have hid : scopedRule g.alloc consumer service iface = id := by
        funext r
        simp [scopedRule, hc]
      rw [if_pos hc] at h
      rw [hid, List.map_id]
      exact ⟨(Except.ok.inj h).symm, fun hne => absurd hc hne⟩
    · rw [if_neg hc] at h
      cases ha : g.alloc consumer service iface with
      | none => simp [ha] at h
      | some addr =>
        have hs : scopedRule g.alloc consumer service iface = Rule.scopeTo addr := by
          funext r
          simp [scopedRule, hc, ha]
        simp only [ha] at h
        rw [hs]
        exact ⟨(Except.ok.inj h).symm, fun _ => ⟨addr, rfl⟩⟩

/-! ## The scope of a rule -/

/-- A packet of a connection to the address: sent to it, or sent back by it. -/
def GatewayAddr.Carries (addr : GatewayAddr) (p : PacketView) : Prop :=
  (p.dir = .c2s ∧ p.dstIP = addr.ip ∧ p.dstPort = addr.port) ∨
  (p.dir = .s2c ∧ p.srcIP = addr.ip ∧ p.srcPort = addr.port)

instance (addr : GatewayAddr) (p : PacketView) : Decidable (addr.Carries p) :=
  inferInstanceAs (Decidable (_ ∨ _))

/-- The packet belongs to a connection of the consumer to the interface; without a
consumer, to one of any consumer. -/
def Belongs (alloc : Alloc) (consumer service iface : String) (p : PacketView) : Prop :=
  ∃ c addr, (consumer = "" ∨ c = consumer) ∧ alloc c service iface = some addr ∧ addr.Carries p

/-- The packets that the gateway carries: the services do not live at its addresses,
so no reply is sent to one. -/
def Carried (alloc : Alloc) (p : PacketView) : Prop :=
  p.dir = .s2c → ∀ c s i addr, alloc c s i = some addr → p.dstIP ≠ addr.ip

/-- When the scope is right for a packet that the rule accepts as it is written. With
a consumer: the packet is not a reply, and a rule that names a port names the one of
the address. Without one: the packet is one of the interface. -/
def ScopeFits (alloc : Alloc) (consumer service iface : String) (m : Match) (p : PacketView) :
    Prop :=
  (consumer = "" → ∃ c addr, alloc c service iface = some addr ∧ addr.Carries p) ∧
  (consumer ≠ "" → ∀ addr, alloc consumer service iface = some addr →
    ¬ (p.dir = .s2c ∧ p.srcIP = addr.ip ∧ p.srcPort = addr.port) ∧
    (p.dir = .c2s → p.dstIP = addr.ip → m.port = 0 ∨ m.port = addr.port))

/-- A rule that is scoped to an address matches by its own matcher, but only what is
sent to the address: to the port that the rule names, or else to the address's. -/
theorem matches_scopeTo_iff (addr : GatewayAddr) (w : WrittenRule) (p : PacketView) :
    (w.rule.scopeTo addr).matcher.matches p = true ↔
      w.rule.matcher.matches p = true ∧ p.dstIP = addr.ip ∧
        (w.rule.matcher.port = 0 → p.dstPort = addr.port) := by
  have hany : (w.rule.scopeTo addr).matcher.anyDestination = w.rule.matcher.anyDestination := rfl
  have hip : (w.rule.scopeTo addr).matcher.dstIP = addr.ip := rfl
  have hp : (w.rule.scopeTo addr).matcher.port =
      if w.rule.matcher.port = 0 then addr.port else w.rule.matcher.port := rfl
  rw [matches_iff, hany, hip, hp, matches_iff w.rule.matcher]
  have hd := addr.dialable
  have hn := addr.named
  have ho := w.unscoped
  by_cases hz : w.rule.matcher.port = 0
  · simp only [hz, hd, hn, ho, if_true, false_or, true_or, and_true, forall_const]
    constructor
    · rintro ⟨hr, hp, hip⟩
      exact ⟨hr, hip, hp⟩
    · rintro ⟨hr, hip, hp⟩
      exact ⟨hr, hp, hip⟩
  · simp only [hz, hn, ho, if_false, false_or, true_or, and_true, false_implies, and_assoc]

theorem scope_of_consumer_iff {alloc : Alloc} {addr : GatewayAddr}
    (ha : alloc consumer service iface = some addr) (w : WrittenRule) {p : PacketView}
    (hp : Carried alloc p) : ((w.rule.scopeTo addr).matcher.matches p = true ↔
        addr.Carries p ∧ w.rule.matcher.matches p = true) ↔
      (w.rule.matcher.matches p = true →
        ¬ (p.dir = .s2c ∧ p.srcIP = addr.ip ∧ p.srcPort = addr.port) ∧
        (p.dir = .c2s → p.dstIP = addr.ip →
          w.rule.matcher.port = 0 ∨ w.rule.matcher.port = addr.port)) := by
  rw [matches_scopeTo_iff]
  by_cases hm : w.rule.matcher.matches p = true
  · obtain ⟨-, hpo, -⟩ := (matches_iff _ _).mp hm
    unfold GatewayAddr.Carries
    cases hdir : p.dir with
    | s2c =>
      -- No reply is sent to the address, so the scoped rule rejects it.
      have hdst := hp hdir consumer service iface addr ha
      simp [hm, hdst]
    | c2s =>
      by_cases hip : p.dstIP = addr.ip
      · by_cases hz : w.rule.matcher.port = 0
        · simp [hm, hip, hz]
        · have hpo := hpo.resolve_left hz
          simp [hm, hip, hz, hpo]
      · simp [hm, hip]
  · simp [hm]

/-- The installed rule matches the packets of its connections that the rule as it is
written accepts, exactly if its scope fits the packet. -/
theorem installed_rule_is_scoped_iff (g g' : Gateway) (consumer service iface : String)
    (rules : List WrittenRule)
    (hin : g.installRules consumer service iface (rules.map WrittenRule.rule) = .ok g')
    (w : WrittenRule) (r : Rule) (hr : (w, r) ∈ rules.zip (g'.rulesOf consumer service iface))
    (p : PacketView) (hp : Carried g.alloc p) :
    (r.matcher.matches p = true ↔
        Belongs g.alloc consumer service iface p ∧ w.rule.matcher.matches p = true) ↔
      (w.rule.matcher.matches p = true →
        ScopeFits g.alloc consumer service iface w.rule.matcher p) := by
  obtain ⟨hset, ha⟩ := installRules_ok hin
  have hru : g'.rulesOf consumer service iface =
      (rules.map WrittenRule.rule).map (scopedRule g.alloc consumer service iface) := by
    rw [hset, rulesOf_setRules]
  have hrul : r = scopedRule g.alloc consumer service iface w.rule := by
    rw [hru, List.map_map] at hr
    nth_rewrite 1 [← List.map_id rules] at hr
    rw [List.zip_map'] at hr
    obtain ⟨v, -, hv⟩ := List.mem_map.mp hr
    obtain ⟨rfl, rfl⟩ := Prod.mk.inj hv
    rfl
  rw [hrul]
  by_cases hc : consumer = ""
  · -- Without a consumer the rule is installed as it is written.
    have hbel : Belongs g.alloc consumer service iface p ↔
        ∃ c addr, g.alloc c service iface = some addr ∧ addr.Carries p := by
      simp [Belongs, hc]
    have hf : ScopeFits g.alloc consumer service iface w.rule.matcher p ↔
        ∃ c addr, g.alloc c service iface = some addr ∧ addr.Carries p := by
      simp [ScopeFits, hc]
    rw [hbel, hf]
    simp only [scopedRule, if_pos hc]
    exact iff_and_self
  · obtain ⟨addr, ha⟩ := ha hc
    have hbel : Belongs g.alloc consumer service iface p ↔ addr.Carries p := by
      simp [Belongs, hc, ha]
    have hrul : scopedRule g.alloc consumer service iface w.rule = w.rule.scopeTo addr := by
      simp [scopedRule, hc, ha]
    rw [hbel, hrul, scope_of_consumer_iff ha w hp]
    simp [ScopeFits, hc, ha]

def apiToDb : GatewayAddr := ⟨"10.77.0.2", 5432, by decide, by decide⟩

def apiAlloc : Alloc := fun c s i =>
  if c = "api" ∧ s = "db" ∧ i = "main" then some apiToDb else none

def dropAll : WrittenRule := ⟨⟨"drop", {}, "", none⟩, rfl⟩

def dbDropped : Gateway :=
  (⟨apiAlloc, ∅, []⟩ : Gateway).setRules (ruleKey "api" "db" "main") [dropAll.rule.scopeTo apiToDb]

def queryPacket : PacketView :=
  { proto := "tcp", dir := .c2s, srcIP := "10.77.0.1", dstIP := "10.77.0.2", srcPort := 40001
    dstPort := 5432, payloadLen := 0, payload := [], flags := 0, seq := 0, ack := 0, window := 0
    index := 0, flow := "api-db" }

def replyPacket : PacketView :=
  { queryPacket with
    dir := .s2c, srcIP := "10.77.0.2", dstIP := "10.77.0.1", srcPort := 5432, dstPort := 40001 }

theorem query_is_matched_by_the_scoped_rule :
    (dropAll.rule.scopeTo apiToDb).matcher.matches queryPacket = true ↔
      Belongs apiAlloc "api" "db" "main" queryPacket ∧
        dropAll.rule.matcher.matches queryPacket = true := by
  apply (installed_rule_is_scoped_iff ⟨apiAlloc, ∅, []⟩ dbDropped "api" "db" "main" [dropAll] rfl
    dropAll (dropAll.rule.scopeTo apiToDb) ?_ queryPacket ?_).mpr
  · intro _
    refine ⟨fun h => absurd h (by decide), ?_⟩
    rintro - addr ha
    cases ha
    decide
  · exact List.mem_singleton.mpr rfl
  · intro h
    exact absurd h (by decide)

/-- A drop rule for api on db.main, with no direction, does not match the replies. -/
theorem reply_escapes_the_rule_of_its_consumer :
    (⟨apiAlloc, ∅, []⟩ : Gateway).installRules "api" "db" "main" [dropAll.rule] = .ok dbDropped ∧
      dbDropped.rulesOf "api" "db" "main" = [dropAll.rule.scopeTo apiToDb] ∧
      Carried apiAlloc replyPacket ∧
      Belongs apiAlloc "api" "db" "main" replyPacket ∧
      dropAll.rule.matcher.dir = none ∧
      dropAll.rule.matcher.matches replyPacket = true ∧
      (dropAll.rule.scopeTo apiToDb).matcher.matches replyPacket = false := by
  refine ⟨rfl, rulesOf_setRules _ _ _ _ _, ?_, ⟨"api", apiToDb, .inr rfl, rfl, .inr (by decide)⟩,
    rfl, by decide, by decide⟩
  intro _ c s i addr ha
  unfold apiAlloc at ha
  split at ha
  · cases ha
    decide
  · cases ha

end faultbox.packet_scope
