-- Which rules of a proxy take effect on a request: every protocol has its own loop over the
-- shared rule type, and its own part of the six matchers that it looks at.
-- The law: a rule takes effect only on requests that each of its matchers fits. It holds for
-- rules that set no matcher but those that the loop of the protocol compares as globs.
import Faultbox.SqlMatch
import Faultbox.NatsRelay
import Faultbox.AmqpRelay

open gopath gotext faultbox.protocol_faults faultbox.proxy_rules faultbox.sqlmatch

namespace faultbox.proxy_matching

/-! ## Matchers -/

inductive Matcher where
  | method | path | query | key | topic | command
deriving DecidableEq

def Matcher.all : List Matcher := [.method, .path, .query, .key, .topic, .command]

/-- The pattern of a rule for a matcher; an empty one is not set. -/
def pattern (rule : ProxyRule) : Matcher → Bytes
  | .method => bytes rule.method
  | .path => bytes rule.path
  | .query => bytes rule.query
  | .key => bytes rule.key
  | .topic => bytes rule.topic
  | .command => bytes rule.command

/-- The standard library, as far as the proxies use it on a request. -/
structure Lib extends GoLib where
  toUpper : Bytes → Bytes
  equalFold_ascii : ∀ a b : Bytes, (a ++ b).all (· < 128) = true →
    equalFold a b = decide (a.map upper = b.map upper)

/-- The check of one matcher: `rule.Field != "" && !matchGlob(actual, rule.Field)`. -/
def passes (lib : Lib) (rule : ProxyRule) (m : Matcher) (actual : Bytes) : Bool :=
  pattern rule m = [] || matchGlob lib.toGoLib actual (pattern rule m)

/-- `Rule.MatchRequest`. -/
def matchRequest (lib : Lib) (rule : ProxyRule) (method path query key topic command : Bytes) :
    Bool :=
  if passes lib rule .method method = false then false
  else if passes lib rule .path path = false then false
  else if passes lib rule .query query = false then false
  else if passes lib rule .key key = false then false
  else if passes lib rule .topic topic = false then false
  else if passes lib rule .command command = false then false
  else true

/-! ## Loops -/

/-- What an action does in a loop: nothing, something before the next rule, or the last thing. -/
inductive Outcome where
  | nothing
  | goesOn
  | ends

/-- The loop of the proxies over their rules, from the rule at position `i`: the rules that take
effect. A delay is an effect, whatever the action. -/
def ruleLoop (accepts : ProxyRule → Bool) (outcome : ProxyAction → Outcome) (rolls : Nat → Bool) :
    Nat → List ProxyRule → List ProxyRule
  | _, [] => []
  | i, rule :: rest =>
    if accepts rule = false then ruleLoop accepts outcome rolls (i + 1) rest
    else if sitsOut rule (rolls i) then ruleLoop accepts outcome rolls (i + 1) rest
    else
      match outcome rule.action with
      | .ends => [rule]
      | .goesOn => rule :: ruleLoop accepts outcome rolls (i + 1) rest
      | .nothing =>
        (if 0 < rule.delay then [rule] else []) ++ ruleLoop accepts outcome rolls (i + 1) rest

theorem accepts_of_mem_ruleLoop {accepts : ProxyRule → Bool} {outcome : ProxyAction → Outcome}
    {rolls : Nat → Bool} {i : Nat} {rules : List ProxyRule} {r : ProxyRule}
    (h : r ∈ ruleLoop accepts outcome rolls i rules) : accepts r = true := by
  induction rules generalizing i with
  | nil => simp [ruleLoop] at h
  | cons rule rest ih =>
    unfold ruleLoop at h
    split at h
    · exact ih h
    · rename_i hr
      rw [Bool.not_eq_false] at hr
      split at h
      · exact ih h
      · split at h
        · rw [List.mem_singleton] at h
          rwa [h]
        · rcases List.mem_cons.mp h with rfl | hre
          · exact hr
          · exact ih hre
        · rcases List.mem_append.mp h with hone | hre
          · split at hone
            · rw [List.mem_singleton] at hone
              rwa [hone]
            · exact nomatch hone
          · exact ih hre

/-! ## The proxies -/

section proxies

variable (lib : Lib) (rolls : Nat → Bool) (rules : List ProxyRule)

/-- The switch of `httpProxy.handleRequest`, and of http2's. -/
def httpOutcome : ProxyAction → Outcome
  | .respond | .error | .drop => .ends
  | .delay => .goesOn
  | .duplicate => .nothing

def httpHandleRequest (method path : Bytes) : List ProxyRule :=
  ruleLoop (fun rule => matchRequest lib rule method path [] [] [] []) httpOutcome rolls 0 rules

def http2HandleRequest (method path : Bytes) : List ProxyRule :=
  ruleLoop (fun rule => matchRequest lib rule method path [] [] [] []) httpOutcome rolls 0 rules

def grpcOutcome : ProxyAction → Outcome
  | .error | .drop => .ends
  | .delay => .goesOn
  | .respond | .duplicate => .nothing

def grpcHandleStream (method : Bytes) : List ProxyRule :=
  ruleLoop (fun rule => matchRequest lib rule method [] [] [] [] []) grpcOutcome rolls 0 rules

def redisOutcome : ProxyAction → Outcome
  | .error | .respond | .drop => .ends
  | .delay => .goesOn
  | .duplicate => .nothing

def commandOf (words : List Bytes) : Bytes := lib.toUpper (words.headD [])

def keyOf (words : List Bytes) : Bytes := words.tail.headD []

def redisHandleConn (args : List Bytes) : List ProxyRule :=
  if args = [] then []
  else ruleLoop (fun rule => matchRequest lib rule [] [] [] (keyOf args) [] (commandOf lib args))
    redisOutcome rolls 0 rules

inductive KafkaApi where
  | produce
  | fetch
deriving DecidableEq

def kafkaOutcome (api : KafkaApi) : ProxyAction → Outcome
  | .drop | .delay | .error => .ends
  | .duplicate => if api = .produce then .ends else .nothing
  | .respond => .nothing

def kafkaCheckRules (api : KafkaApi) (topic : Bytes) : List ProxyRule :=
  ruleLoop (fun rule => passes lib rule .topic topic) (kafkaOutcome api) rolls 0 rules

def natsOutcome : ProxyAction → Outcome
  | .drop => .ends
  | .delay => .goesOn
  | .error | .respond | .duplicate => .nothing

def natsShouldDrop (subject : Bytes) : List ProxyRule :=
  ruleLoop (fun rule => passes lib rule .topic subject) natsOutcome rolls 0 rules

def amqpOutcome : ProxyAction → Outcome
  | .drop | .delay | .error => .ends
  | .respond | .duplicate => .nothing

def amqpCheckRules (exchange routingKey : Bytes) : List ProxyRule :=
  ruleLoop (fun rule => passes lib rule .topic (amqp_relay.topicOf exchange routingKey))
    amqpOutcome rolls 0 rules

def sqlOutcome : ProxyAction → Outcome
  | .error | .delay | .drop => .ends
  | .respond | .duplicate => .nothing

def postgresCheckRules (query : Bytes) : List ProxyRule :=
  ruleLoop (fun rule => sqlMatch lib.toGoLib query (pattern rule .query)) sqlOutcome rolls 0 rules

def postgresHandleConn (query : Bytes) : List ProxyRule :=
  if query = [] then [] else postgresCheckRules lib rolls rules query

def mysqlCheckRules (query : Bytes) : List ProxyRule :=
  ruleLoop (fun rule => sqlMatch lib.toGoLib query (pattern rule .query)) sqlOutcome rolls 0 rules

/-- A request with its statement, or one that refers to statements. -/
inductive CqlRequest where
  | query (cql : Bytes)
  | execute
  | batch

def extractCQL : CqlRequest → Bytes
  | .query cql => cql
  | .execute | .batch => []

def cassandraCheckRules (cql : Bytes) : List ProxyRule :=
  ruleLoop (fun rule => passes lib rule .query cql) sqlOutcome rolls 0 rules

def clickhouseOutcome : ProxyAction → Outcome
  | .error | .respond | .drop => .ends
  | .delay => .goesOn
  | .duplicate => .nothing

def extractClickhouseSQL (param body : Bytes) : Bytes :=
  if param = [] then body.take (1024 * 1024) else param

def clickhouseHandle (param body : Bytes) : List ProxyRule :=
  ruleLoop (fun rule => passes lib rule .query (extractClickhouseSQL param body)) clickhouseOutcome
    rolls 0 rules

def mongodbCheckRules (cmd collection : Bytes) : List ProxyRule :=
  ruleLoop (fun rule => passes lib rule .method cmd && passes lib rule .key collection) sqlOutcome
    rolls 0 rules

def mongodbHandleConn (cmd collection : Bytes) : List ProxyRule :=
  if cmd = [] then [] else mongodbCheckRules lib rolls rules cmd collection

def memcachedOutcome : ProxyAction → Outcome
  | .error | .respond | .delay | .drop => .ends
  | .duplicate => .nothing

def memcachedCheckRules (command key : Bytes) : List ProxyRule :=
  ruleLoop (fun rule => passes lib rule .command command && passes lib rule .key key)
    memcachedOutcome rolls 0 rules

def memcachedHandleConn (parts : List Bytes) : List ProxyRule :=
  if parts = [] then [] else memcachedCheckRules lib rolls rules (commandOf lib parts) (keyOf parts)

def tcpOutcome : ProxyAction → Outcome
  | .drop | .respond => .ends
  | .delay => .goesOn
  | .error | .duplicate => .nothing

/-- `tcpPrefixMatches`: the method is a text that the first bytes begin with. -/
def tcpPrefixMatches (first pre : Bytes) : Bool := pre = [] || pre.isPrefixOf first

def tcpApplyRules (first : Bytes) : List ProxyRule :=
  ruleLoop (fun rule => tcpPrefixMatches first (pattern rule .method)) tcpOutcome rolls 0 rules

def udpOutcome : ProxyAction → Outcome
  | .drop | .delay => .ends
  | .respond | .error | .duplicate => .nothing

def udpApplyRules : List ProxyRule := ruleLoop (fun _ => true) udpOutcome rolls 0 rules

end proxies

/-! ## Requests -/

inductive Protocol where
  | tcp | http | http2 | redis | postgres | mysql | grpc | kafka | mongodb | amqp | nats | memcached
  | udp | cassandra | clickhouse

/-- A request that comes to the rules of a proxy. -/
inductive Request where
  | tcp (first : Bytes)
  | http (method path : Bytes)
  | http2 (method path : Bytes)
  | redis (args : List Bytes)
  | postgres (query : Bytes)
  | mysql (query : Bytes)
  | grpc (method : Bytes)
  | kafka (api : KafkaApi) (topic : Bytes)
  | mongodb (cmd collection : Bytes)
  | amqp (exchange routingKey : Bytes)
  | nats (subject : Bytes)
  | memcached (parts : List Bytes)
  | udp (datagram : Bytes)
  | cassandra (request : CqlRequest)
  | clickhouse (param body : Bytes)

def Request.protocol : Request → Protocol
  | .tcp _ => .tcp
  | .http _ _ => .http
  | .http2 _ _ => .http2
  | .redis _ => .redis
  | .postgres _ => .postgres
  | .mysql _ => .mysql
  | .grpc _ => .grpc
  | .kafka _ _ => .kafka
  | .mongodb _ _ => .mongodb
  | .amqp _ _ => .amqp
  | .nats _ => .nats
  | .memcached _ => .memcached
  | .udp _ => .udp
  | .cassandra _ => .cassandra
  | .clickhouse _ _ => .clickhouse

/-- The attribute of a request that a matcher is for; empty where its protocol has none. -/
def Request.attribute (lib : Lib) : Request → Matcher → Bytes
  | .tcp first, .method => first
  | .http method _, .method => method
  | .http _ path, .path => path
  | .http2 method _, .method => method
  | .http2 _ path, .path => path
  | .redis args, .key => keyOf args
  | .redis args, .command => commandOf lib args
  | .postgres query, .query => query
  | .mysql query, .query => query
  | .grpc method, .method => method
  | .kafka _ topic, .topic => topic
  | .mongodb cmd _, .method => cmd
  | .mongodb _ collection, .key => collection
  | .amqp exchange routingKey, .topic => amqp_relay.topicOf exchange routingKey
  | .nats subject, .topic => subject
  | .memcached parts, .key => keyOf parts
  | .memcached parts, .command => commandOf lib parts
  | .cassandra request, .query => extractCQL request
  | .clickhouse param body, .query => extractClickhouseSQL param body
  | _, _ => []

/-- The rules that take effect on a request. -/
def Request.effects (lib : Lib) (rolls : Nat → Bool) (rules : List ProxyRule) :
    Request → List ProxyRule
  | .tcp first => tcpApplyRules rolls rules first
  | .http method path => httpHandleRequest lib rolls rules method path
  | .http2 method path => http2HandleRequest lib rolls rules method path
  | .redis args => redisHandleConn lib rolls rules args
  | .postgres query => postgresHandleConn lib rolls rules query
  | .mysql query => mysqlCheckRules lib rolls rules query
  | .grpc method => grpcHandleStream lib rolls rules method
  | .kafka api topic => kafkaCheckRules lib rolls rules api topic
  | .mongodb cmd collection => mongodbHandleConn lib rolls rules cmd collection
  | .amqp exchange routingKey => amqpCheckRules lib rolls rules exchange routingKey
  | .nats subject => natsShouldDrop lib rolls rules subject
  | .memcached parts => memcachedHandleConn lib rolls rules parts
  | .udp _ => udpApplyRules rolls rules
  | .cassandra request => cassandraCheckRules lib rolls rules (extractCQL request)
  | .clickhouse param body => clickhouseHandle lib rolls rules param body

/-! ## Rules and requests -/

/-- Each matcher that is set in the rule matches the request. -/
def Request.Fits (lib : Lib) (req : Request) (rule : ProxyRule) : Prop :=
  ∀ m, pattern rule m ≠ [] → matchGlob lib.toGoLib (req.attribute lib m) (pattern rule m) = true

/-- The rules with no other matchers than these take effect only on requests that they fit. -/
def NeverIgnored (lib : Lib) (protocol : Protocol) (matchers : List Matcher) : Prop :=
  ∀ req : Request, req.protocol = protocol → ∀ rolls rules, ∀ rule ∈ req.effects lib rolls rules,
    (∀ m, pattern rule m ≠ [] → m ∈ matchers) → req.Fits lib rule

/-- The matchers that a protocol compares as globs with its requests. -/
def Protocol.globbed : Protocol → List Matcher
  | .http | .http2 | .grpc | .redis => Matcher.all
  | .kafka | .nats | .amqp => [.topic]
  | .cassandra | .clickhouse => [.query]
  | .mongodb => [.method, .key]
  | .memcached => [.command, .key]
  -- a text up to case, blanks and placeholders
  | .postgres | .mysql => []
  -- a text to begin with
  | .tcp => []
  | .udp => []

/-! ## Where it holds -/

theorem matchRequest_iff (lib : Lib) (rule : ProxyRule)
    (method path query key topic command : Bytes) :
    matchRequest lib rule method path query key topic command = true ↔
      passes lib rule .method method = true ∧ passes lib rule .path path = true ∧
        passes lib rule .query query = true ∧ passes lib rule .key key = true ∧
        passes lib rule .topic topic = true ∧ passes lib rule .command command = true := by
  unfold matchRequest
  cases passes lib rule .method method <;> cases passes lib rule .path path <;>
    cases passes lib rule .query query <;> cases passes lib rule .key key <;>
    cases passes lib rule .topic topic <;> cases passes lib rule .command command <;> simp

variable {m : Matcher} {protocol : Protocol}

/-- A rule that takes effect passes the checks that compare as globs. -/
theorem passes_of_effects {lib : Lib} {rolls : Nat → Bool} {rules : List ProxyRule} {req : Request}
    {rule : ProxyRule} (h : rule ∈ req.effects lib rolls rules) (hm : m ∈ req.protocol.globbed) :
    passes lib rule m (req.attribute lib m) = true := by
  have hall : ∀ {method path query key topic command : Bytes},
      matchRequest lib rule method path query key topic command = true →
      ∀ m, passes lib rule m (match m with
        | .method => method | .path => path | .query => query | .key => key | .topic => topic
        | .command => command) = true := by
    intro method path query key topic command hma m
    obtain ⟨h1, h2, h3, h4, h5, h6⟩ := (matchRequest_iff ..).mp hma
    cases m <;> assumption
  cases req with
  | http | http2 | grpc =>
    have hma := hall (accepts_of_mem_ruleLoop h) m
    cases m <;> exact hma
  | redis args =>
    simp only [Request.effects, redisHandleConn] at h
    split at h
    · exact nomatch h
    · have hma := hall (accepts_of_mem_ruleLoop h) m
      cases m <;> exact hma
  | kafka | nats | amqp | cassandra | clickhouse =>
    obtain rfl := List.mem_singleton.mp hm
    exact accepts_of_mem_ruleLoop h
  | mongodb cmd collection =>
    simp only [Request.effects, mongodbHandleConn] at h
    split at h
    · exact nomatch h
    · have hb := accepts_of_mem_ruleLoop h
      rw [Bool.and_eq_true] at hb
      rcases List.mem_pair.mp hm with rfl | rfl
      · exact hb.1
      · exact hb.2
  | memcached parts =>
    simp only [Request.effects, memcachedHandleConn] at h
    split at h
    · exact nomatch h
    · have hb := accepts_of_mem_ruleLoop h
      rw [Bool.and_eq_true] at hb
      rcases List.mem_pair.mp hm with rfl | rfl
      · exact hb.1
      · exact hb.2
  | postgres query => exact nomatch hm
  | mysql query => exact nomatch hm
  | tcp first => exact nomatch hm
  | udp datagram => exact nomatch hm

/-! ## Where it fails -/

def dropAt (m : Matcher) : ProxyRule :=
  let text (n : Matcher) : String := if n = m then ";" else ""
  ⟨text .method, text .path, text .query, text .key, text .topic, text .command,
    .drop, 0, "", "", 0, 0⟩

theorem pattern_dropAt (m n : Matcher) :
    pattern (dropAt m) n = if n = m then [semicolon] else [] := by
  cases m <;> cases n <;> rfl

/-- A request that the rule takes effect on. -/
def Protocol.sample : Protocol → Request
  | .tcp => .tcp (bytes ";x")
  | .http => .http (bytes "GET") (bytes "/")
  | .http2 => .http2 (bytes "GET") (bytes "/")
  | .redis => .redis [bytes "PING"]
  | .postgres => .postgres (bytes "x")
  | .mysql => .mysql (bytes "x")
  | .grpc => .grpc (bytes "/s/m")
  | .kafka => .kafka .produce (bytes "x")
  | .mongodb => .mongodb (bytes "find") (bytes "x")
  | .amqp => .amqp [] (bytes "x")
  | .nats => .nats (bytes "x")
  | .memcached => .memcached [bytes "get", bytes "x"]
  | .udp => .udp (bytes "x")
  | .cassandra => .cassandra (.query (bytes "x"))
  | .clickhouse => .clickhouse [] (bytes "x")

theorem matchGlob_semicolon (lib : Lib) {actual : Bytes}
    (ha : (actual ++ [semicolon]).all (· < 128) = true)
    (hne : actual.map upper ≠ [semicolon].map upper) :
    matchGlob lib.toGoLib actual [semicolon] = false := by
  have hf := lib.equalFold_ascii actual [semicolon] ha
  rw [decide_eq_false hne] at hf
  unfold matchGlob
  rw [if_neg (by decide), if_neg (by decide), hf]

theorem sample_attribute (lib : Lib) (hm : m ∉ protocol.globbed) :
    protocol.sample.attribute lib m ∈ [[], bytes "x", bytes ";x"] := by
  cases protocol <;> cases m
  all_goals first
    | exact absurd (by decide) hm
    | simp [Protocol.sample, Request.attribute]

theorem dropAt_mem_effects (lib : Lib) (hm : m ∉ protocol.globbed) :
    dropAt m ∈ protocol.sample.effects lib (fun _ => false) [dropAt m] := by
  cases protocol <;> cases m
  all_goals first
    | exact absurd (by decide) hm
    | exact List.mem_singleton.mpr rfl

theorem sample_not_fits (lib : Lib) (hm : m ∉ protocol.globbed) :
    ¬ protocol.sample.Fits lib (dropAt m) := by
  intro h
  have hma := h m
  rw [pattern_dropAt, if_pos rfl] at hma
  have hn : ∀ s ∈ [[], bytes "x", bytes ";x"], matchGlob lib.toGoLib s [semicolon] = false := by
    intro s hs
    simp only [List.mem_cons, List.not_mem_nil, or_false] at hs
    rcases hs with rfl | rfl | rfl
    all_goals exact matchGlob_semicolon lib (by decide) (by decide)
  rw [hn _ (sample_attribute lib hm)] at hma
  exact absurd (hma (by decide)) (by decide)

/-! ## The law -/

/-- ASCII letters are equal up to case, patterns with a star match nothing else. -/
def asciiLib : Lib where
  filepathMatch := fun _ _ => some false
  equalFold := fun a b => a.map upper = b.map upper
  toUpper := fun s => s.map upper
  equalFold_ascii := fun _ _ _ => rfl

/-- A rule that drops the messages of the topic `orders` with the key `k1`. -/
def keyedDrop : ProxyRule := ⟨"", "", "", "k1", "orders", "", .drop, 0, "", "", 0, 0⟩

end faultbox.proxy_matching
