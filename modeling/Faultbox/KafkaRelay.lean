-- The Kafka proxy (handleConn): what it forwards to the broker while a rule that drops a topic is
-- first in the list. The law: no topic of a forwarded produce request fits the pattern. The rules
-- are asked about the first topic only, so the law holds exactly where the loop comes to no request
-- whose first topic gets it past the rules and whose later topics fit.
import Faultbox.GoValues
import Faultbox.ProxyMatching

open goval gopath gotext faultbox.protocol_faults faultbox.proxy_rules faultbox.proxy_matching

namespace faultbox.kafka_relay

/-! ## The proxy -/

/-- A topic of a request: by name, or by id with an empty name. -/
structure Topic where
  name : Bytes
  id : Bytes

inductive Request where
  | produce (topics : List Topic) (acks : Int)
  | fetch (topics : List Topic)
  | other

/-- The codecs: DecodeRequest, and the topics of a metadata response that have a name. A request
decodes to what its API key says. -/
structure KafkaLib extends Lib where
  decodeRequest : Bytes → Option Request
  metadataTopics : Bytes → Bytes → List Topic
  produce_key : ∀ {payload topics acks}, decodeRequest payload = some (.produce topics acks) →
    10 ≤ payload.length ∧ beValue (payload.take 2) = 0

abbrev TopicIDs : Type := GoMap Bytes Bytes

def noID : Bytes := List.replicate 16 0

def learn (ids : TopicIDs) (topics : List Topic) : TopicIDs :=
  topics.foldl (fun ids t => ids.insert t.id t.name) ids

def nameOf (ids : TopicIDs) (t : Topic) : Bytes :=
  if t.name ≠ [] then t.name else (ids.lookup t.id).getD []

variable (lib : KafkaLib)

def extractTopic (ids : TopicIDs) (payload : Bytes) : Bytes :=
  match lib.decodeRequest payload with
  | none => []
  | some (.produce topics _) | some (.fetch topics) => nameOf ids (topics.headD ⟨[], noID⟩)
  | some .other => nameOf ids ⟨[], noID⟩

def learnTopics (ids : TopicIDs) (request response : Bytes) : TopicIDs :=
  if request.length < 2 ∨ beValue (request.take 2) ≠ 3 ∨ response.length < 4 then ids
  else learn ids (lib.metadataTopics request response)

inductive Verdict where
  | dropped
  | closed
  | forward (duplicate : Bool)

/-- What `checkRules` returns, by the last rule that took effect. -/
def verdictOf (api : KafkaApi) (effects : List ProxyRule) : Verdict :=
  match effects.getLast? with
  | none => .forward false
  | some rule =>
    match rule.action with
    | .drop => .dropped
    | .error => .closed
    | .duplicate => .forward (api = .produce)
    | .delay | .respond => .forward false

def checkRequest (rolls : Nat → Bool) (rules : List ProxyRule) (ids : TopicIDs) (payload : Bytes) :
    Verdict :=
  let check api :=
    verdictOf api (kafkaCheckRules lib.toLib rolls rules api (extractTopic lib ids payload))
  if payload.length < 8 then .forward false
  else if beValue (payload.take 2) = 0 then check .produce
  else if beValue (payload.take 2) = 1 then check .fetch
  else .forward false

inductive Reply where
  | writeFails
  | readFails
  | answer (response : Bytes)

/-- What a turn of the loop meets: what other connections have learned, the rules behind the first
one, which rules sit out, the broker, and whether a duplicate gets through. -/
structure Turn where
  learned : List Topic
  rest : List ProxyRule
  rolls : Nat → Bool
  reply : Reply
  again : Bool

/-- A request that was forwarded, with the table of its time. -/
structure Forwarded where
  ids : TopicIDs
  payload : Bytes

def maxMessage : Nat := 10 * 1024 * 1024

def expectsNoReply (payload : Bytes) : Bool :=
  match lib.decodeRequest payload with
  | some (.produce _ acks) => acks = 0
  | _ => false

/-- The next message of the client, and what follows it. -/
def readMessage (input : Bytes) : Option (Bytes × Bytes) :=
  (readFull 4 input).bind fun (lenBuf, rest) =>
    if beValue lenBuf = 0 ∨ maxMessage < beValue lenBuf then none
    else readFull (beValue lenBuf) rest

/-- A request that no rule has taken: what the broker gets, and the table with which the loop goes
on, if it does. -/
def forwardRequest (turn : Turn) (ids : TopicIDs) (payload : Bytes) (duplicate : Bool) :
    List Forwarded × Option TopicIDs :=
  let once := [⟨ids, payload⟩]
  let sent := if duplicate && turn.again then once ++ once else once
  match turn.reply with
  | .writeFails => ([], none)
  | .readFails => if expectsNoReply lib payload then (sent, some ids) else (once, none)
  | .answer response =>
    if expectsNoReply lib payload then (sent, some ids)
    else if response = [] ∨ maxMessage < response.length then (once, none)
    else if duplicate && !turn.again then (once, none)
    else (sent, some (learnTopics lib ids payload response))

/-- The loop of `handleConn` on what the client sends. -/
def handleConn (rule : ProxyRule) : List Turn → TopicIDs → Bytes → List Forwarded
  | [], _, _ => []
  | turn :: turns, ids, input =>
    match readMessage input with
    | none => []
    | some (payload, after) =>
      match checkRequest lib turn.rolls (rule :: turn.rest) (learn ids turn.learned) payload with
      | .dropped => handleConn rule turns (learn ids turn.learned) after
      | .closed => []
      | .forward duplicate =>
        match forwardRequest lib turn (learn ids turn.learned) payload duplicate with
        | (sent, none) => sent
        | (sent, some ids) => sent ++ handleConn rule turns ids after

/-! ## Topics of a request -/

def Topic.Known (t : Topic) (ids : TopicIDs) : Prop := t.name ≠ [] ∨ t.id ∈ ids

def Topic.Fits (rule : ProxyRule) (ids : TopicIDs) (t : Topic) : Prop :=
  t.Known ids ∧ matchGlob lib.toGoLib (nameOf ids t) (bytes rule.topic) = true

/-- No forwarded produce request has a topic that the rule drops. -/
def Stops (rule : ProxyRule) (sent : List Forwarded) : Prop :=
  ∀ f ∈ sent, ∀ topics acks, lib.decodeRequest f.payload = some (.produce topics acks) →
    ∀ t ∈ topics, ¬ t.Fits lib rule f.ids

/-! ## Requests that slip through -/

/-- The table and the bytes with which the loop comes to the turn behind these. -/
def comesTo (rule : ProxyRule) : List Turn → TopicIDs → Bytes → Option (TopicIDs × Bytes)
  | [], ids, input => some (ids, input)
  | turn :: turns, ids, input =>
    match readMessage input with
    | none => none
    | some (payload, after) =>
      match checkRequest lib turn.rolls (rule :: turn.rest) (learn ids turn.learned) payload with
      | .dropped => comesTo rule turns (learn ids turn.learned) after
      | .closed => none
      | .forward duplicate =>
        match forwardRequest lib turn (learn ids turn.learned) payload duplicate with
        | (_, none) => none
        | (_, some ids) => comesTo rule turns ids after

/-- No rule behind the first one stops a produce request with this first topic. -/
def LetsThrough (turn : Turn) (topic : Bytes) : Prop :=
  ∃ duplicate, verdictOf .produce (ruleLoop (fun rule => passes lib.toLib rule .topic topic)
    (kafkaOutcome .produce) turn.rolls 1 turn.rest) = .forward duplicate

/-- A produce request whose first topic gets it past all rules and a later topic of which the first
rule drops, at a turn in which the broker takes it. -/
def Slips (rule : ProxyRule) (turn : Turn) (ids : TopicIDs) (payload : Bytes) : Prop :=
  ∃ first later acks, lib.decodeRequest payload = some (.produce (first :: later) acks) ∧
    matchGlob lib.toGoLib (nameOf ids first) (bytes rule.topic) = false ∧
    LetsThrough lib turn (nameOf ids first) ∧ turn.reply ≠ .writeFails ∧
    ∃ t ∈ later, t.Fits lib rule ids

variable {lib} {rule : ProxyRule}

variable {ids : TopicIDs} {payload : Bytes}

/-- What the rules say about a produce request is what they say about its first topic. -/
theorem checkRequest_produce {rolls : Nat → Bool} {rules : List ProxyRule} {first : Topic}
    {later : List Topic} {acks : Int}
    (hr : lib.decodeRequest payload = some (.produce (first :: later) acks)) :
    checkRequest lib rolls rules ids payload =
      verdictOf .produce (kafkaCheckRules lib.toLib rolls rules .produce (nameOf ids first)) := by
  obtain ⟨hlen, hkey⟩ := lib.produce_key hr
  have htopic : extractTopic lib ids payload = nameOf ids first := by simp [extractTopic, hr]
  rw [checkRequest]
  dsimp only
  rw [if_neg (by omega), if_pos hkey, htopic]

/-- The first rule stops the requests that begin with a topic of its own, and no others. -/
theorem checkRequest_forward_iff (hd : rule.action = .drop) (hp : ¬ 0 < rule.prob) {turn : Turn}
    {first : Topic} {later : List Topic} {acks : Int}
    (hr : lib.decodeRequest payload = some (.produce (first :: later) acks)) :
    (∃ duplicate, checkRequest lib turn.rolls (rule :: turn.rest) ids payload =
        .forward duplicate) ↔
      matchGlob lib.toGoLib (nameOf ids first) (bytes rule.topic) = false ∧
        LetsThrough lib turn (nameOf ids first) := by
  have hpass : passes lib.toLib rule .topic (nameOf ids first) =
      matchGlob lib.toGoLib (nameOf ids first) (bytes rule.topic) := by
    rw [passes, pattern]
    by_cases h0 : bytes rule.topic = []
    · simp [h0, matchGlob]
    · simp [h0]
  rw [checkRequest_produce hr, kafkaCheckRules, ruleLoop, hpass]
  cases hm : matchGlob lib.toGoLib (nameOf ids first) (bytes rule.topic) with
  | false =>
    rw [if_pos rfl]
    exact (and_iff_right rfl).symm
  | true =>
    simp [sitsOut, hp, hd, kafkaOutcome, verdictOf]

/-- A request that is forwarded reaches the broker unless the write fails. -/
theorem mem_forwardRequest {turn : Turn} {duplicate : Bool} {f : Forwarded} :
    f ∈ (forwardRequest lib turn ids payload duplicate).1 ↔
      turn.reply ≠ .writeFails ∧ f = ⟨ids, payload⟩ := by
  cases hr : turn.reply with
  | writeFails => simp [forwardRequest, hr]
  | readFails | answer =>
    simp only [forwardRequest, hr]
    split_ifs <;> simp

theorem exists_split_cons {α : Type} {a : α} {l : List α} {P : List α → α → Prop} :
    (∃ before x after, a :: l = before ++ x :: after ∧ P before x) ↔
      P [] a ∨ ∃ before x after, l = before ++ x :: after ∧ P (a :: before) x := by
  constructor
  · rintro ⟨_ | ⟨b, before⟩, x, after, he, h⟩
    · obtain ⟨rfl, rfl⟩ := List.cons.inj he
      exact .inl h
    · obtain ⟨rfl, rfl⟩ := List.cons.inj he
      exact .inr ⟨before, x, after, rfl, h⟩
  · rintro (h | ⟨before, x, after, rfl, h⟩)
    · exact ⟨[], a, l, rfl, h⟩
    · exact ⟨a :: before, x, after, rfl, h⟩

/-- What the loop forwards, it forwards at a turn that it comes to. -/
theorem mem_handleConn_iff {turns : List Turn} {input : Bytes} {f : Forwarded} :
    f ∈ handleConn lib rule turns ids input ↔
      ∃ before turn after, turns = before ++ turn :: after ∧
        ∃ ids' input' rest, comesTo lib rule before ids input = some (ids', input') ∧
          readMessage input' = some (f.payload, rest) ∧ f.ids = learn ids' turn.learned ∧
          turn.reply ≠ .writeFails ∧ ∃ duplicate,
            checkRequest lib turn.rolls (rule :: turn.rest) f.ids f.payload =
              .forward duplicate := by
  induction turns generalizing ids input with
  | nil => simp [handleConn]
  | cons turn turns ih =>
    rw [exists_split_cons, handleConn]
    simp only [comesTo, Option.some.injEq, Prod.mk.injEq]
    cases hread : readMessage input with
    | none => simp [hread]
    | some message =>
      obtain ⟨payload, rest⟩ := message
      dsimp only
      -- The request of this turn, and what the rules say about it.
      have hfirst : (∃ ids' input' rest', (ids = ids' ∧ input = input') ∧
          readMessage input' = some (f.payload, rest') ∧ f.ids = learn ids' turn.learned ∧
          turn.reply ≠ .writeFails ∧ ∃ duplicate, checkRequest lib turn.rolls
            (rule :: turn.rest) f.ids f.payload = .forward duplicate) ↔
          f = ⟨learn ids turn.learned, payload⟩ ∧ turn.reply ≠ .writeFails ∧ ∃ duplicate,
            checkRequest lib turn.rolls (rule :: turn.rest) (learn ids turn.learned) payload =
              .forward duplicate := by
        obtain ⟨fids, fpayload⟩ := f
        constructor
        · rintro ⟨_, _, _, ⟨rfl, rfl⟩, hr, rfl, hw, hc⟩
          obtain ⟨rfl, rfl⟩ := Prod.mk.inj (Option.some.inj (hread.symm.trans hr))
          exact ⟨rfl, hw, hc⟩
        · rintro ⟨he, hw, hc⟩
          obtain ⟨rfl, rfl⟩ := Forwarded.mk.inj he
          exact ⟨ids, input, rest, ⟨rfl, rfl⟩, hread, rfl, hw, hc⟩
      rw [hfirst]
      cases checkRequest lib turn.rolls (rule :: turn.rest) (learn ids turn.learned) payload with
      | dropped => simp [ih]
      | closed => simp
      | forward duplicate =>
        have hsent : f ∈ (forwardRequest lib turn (learn ids turn.learned) payload duplicate).1 ↔
            turn.reply ≠ .writeFails ∧ f = ⟨learn ids turn.learned, payload⟩ := mem_forwardRequest
        dsimp only
        split
        · rename_i hs
          rw [hs] at hsent
          simp [hsent, and_comm]
        · rename_i hs
          rw [hs] at hsent
          rw [List.mem_append, hsent, ih]
          simp [and_comm]

/-- The rule stops every matching record exactly where the loop comes to no request that slips
through. -/
theorem stops_iff (hd : rule.action = .drop) (hp : ¬ 0 < rule.prob)
    (turns : List Turn) (ids : TopicIDs) (input : Bytes) :
    Stops lib rule (handleConn lib rule turns ids input) ↔
      ∀ before turn after, turns = before ++ turn :: after → ∀ ids' input' payload rest,
        comesTo lib rule before ids input = some (ids', input') →
        readMessage input' = some (payload, rest) →
          ¬ Slips lib rule turn (learn ids' turn.learned) payload := by
  constructor
  · rintro h before turn after hturns ids' input' payload rest hc hread
      ⟨first, later, acks, hr, hm, hl, hw, t, ht, hf⟩
    have hfwd := (checkRequest_forward_iff hd hp hr).mpr ⟨hm, hl⟩
    exact h ⟨learn ids' turn.learned, payload⟩ (mem_handleConn_iff.mpr ⟨before, turn, after,
      hturns, ids', input', rest, hc, hread, rfl, hw, hfwd⟩) _ acks hr t
      (List.mem_cons_of_mem _ ht) hf
  · intro h f hf topics acks hr t ht hfits
    obtain ⟨before, turn, after, hturns, ids', input', rest, hc, hread, hids, hw, hfwd⟩ :=
      mem_handleConn_iff.mp hf
    cases topics with
    | nil => cases ht
    | cons first later =>
      obtain ⟨hm, hl⟩ := (checkRequest_forward_iff hd hp hr).mp hfwd
      rw [hids] at hm hl hfits
      rcases List.mem_cons.mp ht with rfl | ht
      · rw [hfits.2] at hm
        cases hm
      · exact h before turn after hturns ids' input' f.payload rest hc hread
          ⟨first, later, acks, hr, hm, hl, hw, t, ht, hfits⟩

/-- Requests of two kinds: one with a single topic, one with two of them. -/
def twoCodecs : KafkaLib where
  toLib := asciiLib
  decodeRequest payload :=
    if payload = List.replicate 10 0 then some (.produce [⟨bytes "logs", noID⟩] 0)
    else if payload = List.replicate 11 0 then
      some (.produce [⟨bytes "logs", noID⟩, ⟨bytes "orders", noID⟩] 0)
    else none
  metadataTopics _ _ := []
  produce_key h := by
    split_ifs at h with h1 h2
    · simp [h1, beValue]
    · simp [h2, beValue]

def dropOrders : ProxyRule := ⟨"", "", "", "", "orders", "", .drop, 0, "", "", 0, 0⟩

def plainTurn : Turn := ⟨[], [], fun _ => false, .readFails, true⟩

def sends (size : UInt8) : List Forwarded :=
  handleConn twoCodecs dropOrders [plainTurn] ∅
    ([0, 0, 0, size] ++ List.replicate size.toNat 0)

/-- The first topic alone: nothing stands behind it. -/
theorem single_topic_is_stopped : Stops twoCodecs dropOrders (sends 10) := by
  refine (stops_iff rfl (by decide) _ _ _).mpr ?_
  rintro before turn after hturns ids' input' payload rest hc hread
    ⟨first, later, acks, hr, -, -, -, t, ht, -⟩
  obtain rfl : before = [] := by
    cases before with
    | nil => rfl
    | cons b before => simp at hturns
  obtain ⟨rfl, rfl⟩ := Prod.mk.inj (Option.some.inj hc)
  have hsize : readMessage ([0, 0, 0, 10] ++ List.replicate 10 0) =
      some (List.replicate 10 0, []) := by decide
  obtain ⟨rfl, rfl⟩ := Prod.mk.inj (Option.some.inj (hsize.symm.trans hread))
  cases hr
  cases ht

/-- The second topic goes through. -/
theorem second_topic_is_forwarded : ¬ Stops twoCodecs dropOrders (sends 11) := by
  intro h
  have hsent : List.replicate 11 0 ∈ (sends 11).map (·.payload) := by decide
  obtain ⟨f, hf, hp⟩ := List.mem_map.mp hsent
  refine h f hf _ 0 (by rw [hp]; rfl) ⟨bytes "orders", noID⟩
    (List.mem_cons_of_mem _ List.mem_cons_self) ⟨.inl (by decide), ?_⟩
  rw [nameOf, if_pos (by decide)]
  decide

end faultbox.kafka_relay
