-- The frames that the AMQP proxy forwards to the broker (forwardFrames). A publish is a method
-- frame, a content header and body frames; a rule is asked about the method frame. The law: a
-- dropped publish is gone with its content. The proxy leaves out the method frame only, so
-- the law holds exactly where no publish is dropped.
import Faultbox.GoText
import Faultbox.ProxyRules
import Mathlib.Logic.Function.Basic

open gopath gotext faultbox.protocol_faults faultbox.proxy_rules

namespace faultbox.amqp_relay

/-! ## The proxy -/

def amqpFrameMethod : UInt8 := 1
def amqpFrameHeader : UInt8 := 2
def amqpFrameBody : UInt8 := 3

def amqpClassBasic : Nat := 60
def amqpMethodPublish : Nat := 40

/-- A short string at an offset, and the offset behind it. -/
def shortstr (data : Bytes) (offset : Nat) : Option (Bytes × Nat) :=
  match data[offset]? with
  | none => none
  | some len =>
    if data.length < offset + 1 + len.toNat then none
    else some ((data.drop (offset + 1)).take len.toNat, offset + 1 + len.toNat)

/-- `parseBasicPublish`: the exchange and the routing key. -/
def parseBasicPublish (data : Bytes) : Bytes × Bytes :=
  if data.length < 3 then ([], [])
  else
    match shortstr data 2 with
    | none => ([], [])
    | some (exchange, offset) =>
      match shortstr data offset with
      | none => (exchange, [])
      | some (routingKey, _) => (exchange, routingKey)

/-- What the rules decide about a frame; `close` leaves it out and closes the connection. -/
inductive Verdict where
  | forward
  | skip
  | close

def topicOf (exchange routingKey : Bytes) : Bytes :=
  if routingKey = [] then exchange else routingKey

/-- `checkRules`, from the rule at position `i`; `rolls` says which rules sit out. -/
def checkRules (lib : GoLib) (rolls : Nat → Bool) (topic : Bytes) : Nat → List ProxyRule → Verdict
  | _, [] => .forward
  | i, rule :: rest =>
    if rule.topic ≠ "" ∧ matchGlob lib topic (bytes rule.topic) = false then
      checkRules lib rolls topic (i + 1) rest
    else if sitsOut rule (rolls i) then checkRules lib rolls topic (i + 1) rest
    else
      match rule.action with
      | .drop => .skip
      | .delay => .forward
      | .error => .close
      | .respond | .duplicate => checkRules lib rolls topic (i + 1) rest

def isBasicPublish (frameType : UInt8) (frameSize : Nat) (payload : Bytes) : Bool :=
  frameType = amqpFrameMethod && 4 ≤ frameSize && beValue (payload.take 2) = amqpClassBasic &&
    beValue ((payload.drop 2).take 2) = amqpMethodPublish

def frameVerdict (lib : GoLib) (rolls : Nat → Bool) (rules : List ProxyRule) (frameType : UInt8)
    (frameSize : Nat) (payload : Bytes) : Verdict :=
  if isBasicPublish frameType frameSize payload then
    let names := parseBasicPublish (payload.drop 4)
    checkRules lib rolls (topicOf names.1 names.2) 0 rules
  else .forward

/-- The loop of `forwardFrames`: the bytes that it writes. The rolls are those of each frame
in turn. -/
def forwardLoop (lib : GoLib) (rules : List ProxyRule) : Nat → (Nat → Nat → Bool) → Bytes → Bytes
  | 0, _, _ => []
  | fuel + 1, rolls, input =>
    match readFull 7 input with
    | none => []
    | some (frameHeader, rest) =>
      let frameSize := beValue (frameHeader.drop 3)
      match readFull (frameSize + 1) rest with
      | none => []
      | some (payload, after) =>
        match frameVerdict lib (rolls 0) rules (frameHeader.headD 0) frameSize payload with
        | .forward =>
          frameHeader ++ payload ++ forwardLoop lib rules fuel (fun i => rolls (i + 1)) after
        | .skip => forwardLoop lib rules fuel (fun i => rolls (i + 1)) after
        -- the next read is one from a closed connection
        | .close => []

/-- `forwardFrames` on a stream that ends: each turn takes a frame, so there are enough turns. -/
def forwardFrames (lib : GoLib) (rules : List ProxyRule) (rolls : Nat → Nat → Bool)
    (input : Bytes) : Bytes :=
  forwardLoop lib rules (input.length + 1) rolls input

/-! ## Frames of a client -/

/-- The arguments of a Basic.Publish. -/
structure Publish where
  reserved : UInt8 × UInt8
  exchange : Bytes
  routingKey : Bytes
  flags : Bytes
  shortExchange : exchange.length < 256
  shortKey : routingKey.length < 256
  fits : 8 + exchange.length + routingKey.length + flags.length < 2 ^ 32

def Publish.arguments (p : Publish) : Bytes :=
  [p.reserved.1, p.reserved.2] ++ UInt8.ofNat p.exchange.length :: p.exchange ++
    UInt8.ofNat p.routingKey.length :: p.routingKey ++ p.flags

def Publish.payload (p : Publish) : Bytes := [0, 60, 0, 40] ++ p.arguments

/-- A content header: the size of the whole body, and the properties. -/
structure Header where
  bodySize : Nat
  properties : Bytes
  fitsSize : bodySize < 2 ^ 64
  fits : 12 + properties.length < 2 ^ 32

def Header.payload (h : Header) : Bytes := [0, 60, 0, 0] ++ bigEndian 8 h.bodySize ++ h.properties

structure Body where
  content : Bytes
  fits : content.length < 2 ^ 32

/-- A frame that is neither content nor a Basic.Publish. -/
structure Other where
  frameType : UInt8
  payload : Bytes
  fits : payload.length < 2 ^ 32
  noContent : frameType ≠ amqpFrameHeader ∧ frameType ≠ amqpFrameBody
  noPublish : isBasicPublish frameType payload.length payload = false

inductive Kind where
  | publish (p : Publish)
  | header (h : Header)
  | body (b : Body)
  | other (o : Other)

structure Frame where
  channel : UInt16
  kind : Kind

def Kind.frameType : Kind → UInt8
  | .publish _ => amqpFrameMethod
  | .header _ => amqpFrameHeader
  | .body _ => amqpFrameBody
  | .other o => o.frameType

def Kind.payload : Kind → Bytes
  | .publish p => p.payload
  | .header h => h.payload
  | .body b => b.content
  | .other o => o.payload

def frameEnd : UInt8 := 0xCE

def Frame.head (f : Frame) : Bytes :=
  f.kind.frameType :: bigEndian 2 f.channel.toNat ++ bigEndian 4 f.kind.payload.length

def Frame.encode (f : Frame) : Bytes := f.head ++ (f.kind.payload ++ [frameEnd])

def encodeAll (frames : List Frame) : Bytes := frames.flatMap Frame.encode

/-! ## Messages on their channels -/

/-- What a channel waits for: a method, or more of the content of a publish. -/
inductive Awaits where
  | method
  | header (p : Publish)
  | body (p : Publish) (left : Nat)

/-- A frame that may come next on its channel. -/
def Awaits.Allows : Awaits → Kind → Prop
  | .method, _ => True
  | .header _, .header _ => True
  | .body _ left, .body b => b.content.length ≤ left
  | _, _ => False

def Awaits.next : Awaits → Kind → Awaits
  | .method, .publish p => .header p
  | .header p, .header h => if h.bodySize = 0 then .method else .body p h.bodySize
  | .body p left, .body b =>
    if left = b.content.length then .method else .body p (left - b.content.length)
  | _, _ => .method

def Awaits.pending : Awaits → Option Publish
  | .method => none
  | .header p => some p
  | .body p _ => some p

/-- The publish that a frame belongs to. -/
def Awaits.owner : Awaits → Kind → Option Publish
  | .method, .publish p => some p
  | .method, _ => none
  | .header p, _ => some p
  | .body p _, _ => some p

abbrev Channels : Type := UInt16 → Awaits

def Channels.idle : Channels := fun _ => .method

def Channels.after (cs : Channels) (f : Frame) : Channels :=
  Function.update cs f.channel ((cs f.channel).next f.kind)

/-- On every channel the content of each publish follows it, to its end. -/
def Complete : Channels → List Frame → Prop
  | cs, [] => ∀ c, cs c = .method
  | cs, f :: frames => (cs f.channel).Allows f.kind ∧ Complete (cs.after f) frames

/-- The frames of a client, those of different channels in any order. -/
structure Session where
  frames : List Frame
  complete : Complete Channels.idle frames

def Publish.topic (p : Publish) : Bytes := topicOf p.exchange p.routingKey

def Publish.dropped (lib : GoLib) (rules : DropRules) (p : Publish) : Bool := rules.hits lib p.topic

/-- The frames without those of the dropped publishes. -/
def kept (lib : GoLib) (rules : DropRules) : Channels → List Frame → List Frame
  | _, [] => []
  | cs, f :: frames =>
    (if ((cs f.channel).owner f.kind).any (Publish.dropped lib rules) then [] else [f]) ++
      kept lib rules (cs.after f) frames

/-- The broker gets all frames but those of the dropped publishes. -/
def DropsWhole (lib : GoLib) (rules : DropRules) (s : Session) : Prop :=
  ∀ rolls, forwardFrames lib rules.rules rolls (encodeAll s.frames) =
    encodeAll (kept lib rules Channels.idle s.frames)

/-! ## One frame -/

theorem shortstr_append (pre : Bytes) {s : Bytes} (hs : s.length < 256) (rest : Bytes) :
    shortstr (pre ++ UInt8.ofNat s.length :: s ++ rest) pre.length =
      some (s, pre.length + 1 + s.length) := by
  have hlen : (UInt8.ofNat s.length).toNat = s.length := by
    rw [UInt8.toNat_ofNat']
    omega
  have hat : (pre ++ UInt8.ofNat s.length :: s ++ rest)[pre.length]? =
      some (UInt8.ofNat s.length) := by
    simp
  have hr : ¬ (pre ++ UInt8.ofNat s.length :: s ++ rest).length < pre.length + 1 + s.length := by
    simp only [List.length_append, List.length_cons]
    omega
  have hd : (pre ++ UInt8.ofNat s.length :: s ++ rest).drop (pre.length + 1) = s ++ rest := by
    simp [List.drop_append]
  unfold shortstr
  rw [hat]
  dsimp only
  rw [hlen, if_neg hr, hd, List.take_left]

theorem parseBasicPublish_arguments (p : Publish) (tail : Bytes) :
    parseBasicPublish (p.arguments ++ tail) = (p.exchange, p.routingKey) := by
  have hf := shortstr_append [p.reserved.1, p.reserved.2] p.shortExchange
    (UInt8.ofNat p.routingKey.length :: p.routingKey ++ p.flags ++ tail)
  have hs := shortstr_append
    ([p.reserved.1, p.reserved.2] ++ UInt8.ofNat p.exchange.length :: p.exchange) p.shortKey
    (p.flags ++ tail)
  have hl : ¬ (p.arguments ++ tail).length < 3 := by
    simp only [Publish.arguments, List.length_append, List.length_cons]
    omega
  have ho : ([p.reserved.1, p.reserved.2] ++
      UInt8.ofNat p.exchange.length :: p.exchange).length = 2 + 1 + p.exchange.length := by
    simp only [List.length_append, List.length_cons, List.length_nil]
    omega
  rw [ho] at hs
  unfold parseBasicPublish
  rw [if_neg hl]
  simp only [Publish.arguments, List.append_assoc, List.cons_append, List.nil_append,
    List.length_cons, List.length_nil] at hf hs ⊢
  rw [hf]
  dsimp only
  rw [hs]

theorem isBasicPublish_publish (p : Publish) :
    isBasicPublish amqpFrameMethod p.payload.length (p.payload ++ [frameEnd]) = true := by
  have hl : 4 ≤ p.payload.length := by
    simp [Publish.payload]
  unfold isBasicPublish
  simp only [hl, decide_true, Bool.and_true, Bool.true_and]
  simp [Publish.payload, beValue, amqpClassBasic, amqpMethodPublish]

theorem isBasicPublish_other (o : Other) :
    isBasicPublish o.frameType o.payload.length (o.payload ++ [frameEnd]) = false := by
  have hno := o.noPublish
  unfold isBasicPublish at hno ⊢
  by_cases hl : 4 ≤ o.payload.length
  · have ht : (o.payload ++ [frameEnd]).take 2 = o.payload.take 2 :=
      List.take_append_of_le_length (by omega)
    have hd : ((o.payload ++ [frameEnd]).drop 2).take 2 = (o.payload.drop 2).take 2 := by
      rw [List.drop_append_of_le_length (by omega)]
      apply List.take_append_of_le_length
      rw [List.length_drop]
      omega
    rw [ht, hd]
    exact hno
  · simp [hl]

section rules

variable {lib : GoLib} {rules : DropRules}
variable {a : Awaits} {cs : Channels} {frames : List Frame} {p : Publish}

theorem checkRules_drop (rolls : Nat → Bool) (topic : Bytes) :
    checkRules lib rolls topic 0 rules.rules =
      if rules.hits lib topic then .skip else .forward := by
  have hlo : ∀ (l : List ProxyRule) (i : Nat), (∀ r ∈ l, r ∈ rules.rules) →
      checkRules lib rolls topic i l =
        if l.any fun r => matchGlob lib topic (bytes r.topic) then .skip else .forward := by
    intro l
    induction l with
    | nil => intro i _; rfl
    | cons r l ih =>
      intro i hl
      have hmem := hl r List.mem_cons_self
      have hre := ih (i + 1) fun q hq => hl q (List.mem_cons_of_mem _ hq)
      rw [checkRules, List.any_cons]
      by_cases hm : matchGlob lib topic (bytes r.topic) = true
      · simp [hm, sitsOut, rules.always r hmem, rules.drops r hmem]
      · simp [hm, rules.topics r hmem, hre]
  exact hlo rules.rules 0 fun _ hr => hr

def Frame.goes (lib : GoLib) (rules : DropRules) (f : Frame) : Bool :=
  match f.kind with
  | .publish p => p.dropped lib rules
  | _ => false

theorem frameVerdict_frame (rolls : Nat → Bool) (f : Frame) :
    frameVerdict lib rolls rules.rules f.kind.frameType f.kind.payload.length
      (f.kind.payload ++ [frameEnd]) = if f.goes lib rules then .skip else .forward := by
  unfold frameVerdict Frame.goes
  cases f.kind with
  | publish p =>
    have hn : parseBasicPublish ((p.payload ++ [frameEnd]).drop 4) =
        (p.exchange, p.routingKey) := by
      simpa [Publish.payload] using parseBasicPublish_arguments p [frameEnd]
    simp only [Kind.frameType, Kind.payload, isBasicPublish_publish, if_true, hn,
      checkRules_drop]
    rfl
  | header h => simp [Kind.frameType, isBasicPublish, amqpFrameHeader, amqpFrameMethod]
  | body b => simp [Kind.frameType, isBasicPublish, amqpFrameBody, amqpFrameMethod]
  | other o => simp [Kind.frameType, Kind.payload, isBasicPublish_other]

theorem Kind.payload_lt (k : Kind) : k.payload.length < 256 ^ 4 := by
  cases k with
  | publish p =>
    have h := p.fits
    simp only [Kind.payload, Publish.payload, Publish.arguments, List.length_append,
      List.length_cons, List.length_nil]
    omega
  | header h =>
    have hf := h.fits
    simp only [Kind.payload, Header.payload, List.length_append, List.length_cons,
      List.length_nil, length_bigEndian]
    omega
  | body b => exact b.fits
  | other o => exact o.fits

theorem forwardLoop_frame (fuel : Nat) (rolls : Nat → Nat → Bool) (f : Frame) (next : Bytes) :
    forwardLoop lib rules.rules (fuel + 1) rolls (f.encode ++ next) =
      (if f.goes lib rules then [] else f.encode) ++
        forwardLoop lib rules.rules fuel (fun i => rolls (i + 1)) next := by
  have hh : readFull 7 (f.encode ++ next) =
      some (f.head, f.kind.payload ++ [frameEnd] ++ next) := by
    rw [Frame.encode, List.append_assoc]
    exact readFull_append (by simp [Frame.head]) _
  have hs : beValue (f.head.drop 3) = f.kind.payload.length := by
    have hd : f.head.drop 3 = bigEndian 4 f.kind.payload.length := by
      unfold Frame.head
      rw [List.cons_append, List.drop_succ_cons]
      exact List.drop_left' (length_bigEndian 2 _)
    rw [hd, beValue_bigEndian f.kind.payload_lt]
  have hp : readFull (f.kind.payload.length + 1) (f.kind.payload ++ [frameEnd] ++ next) =
      some (f.kind.payload ++ [frameEnd], next) := readFull_append (by simp) next
  rw [forwardLoop, hh]
  dsimp only
  rw [hs, hp]
  dsimp only
  have ht : f.head.headD 0 = f.kind.frameType := rfl
  rw [ht, frameVerdict_frame]
  cases f.goes lib rules with
  | true => simp
  | false => simp [Frame.encode]

/-! ## All frames -/

theorem forwardLoop_frames (frames : List Frame) (fuel : Nat) (rolls : Nat → Nat → Bool) :
    forwardLoop lib rules.rules (fuel + 1 + frames.length) rolls (encodeAll frames) =
      encodeAll (frames.filter fun f => !f.goes lib rules) := by
  induction frames generalizing rolls with
  | nil => simp [encodeAll, forwardLoop, readFull]
  | cons f frames ih =>
    have hs : encodeAll (f :: frames) = f.encode ++ encodeAll frames := by
      simp [encodeAll]
    rw [hs, List.length_cons, ← Nat.add_assoc, forwardLoop_frame, ih]
    cases hg : f.goes lib rules with
    | true => simp [hg]
    | false => simp [hg, encodeAll]

theorem encode_ne_nil (f : Frame) : 0 < f.encode.length := by
  simp [Frame.encode, Frame.head]

theorem length_le_encodeAll (frames : List Frame) : frames.length ≤ (encodeAll frames).length := by
  induction frames with
  | nil => simp
  | cons f frames ih =>
    have hone := encode_ne_nil f
    simp only [encodeAll, List.flatMap_cons, List.length_append, List.length_cons] at ih ⊢
    omega

theorem forwardFrames_eq (rolls : Nat → Nat → Bool) (frames : List Frame) :
    forwardFrames lib rules.rules rolls (encodeAll frames) =
      encodeAll (frames.filter fun f => !f.goes lib rules) := by
  have hlen := length_le_encodeAll frames
  obtain ⟨k, hk⟩ : ∃ k, (encodeAll frames).length + 1 = k + 1 + frames.length :=
    ⟨(encodeAll frames).length - frames.length, by omega⟩
  unfold forwardFrames
  rw [hk, forwardLoop_frames]

theorem owner_of_goes {f : Frame} (ha : a.Allows f.kind) (h : f.goes lib rules) :
    (a.owner f.kind).any (Publish.dropped lib rules) = true := by
  unfold Frame.goes at h
  cases hk : f.kind with
  | publish p =>
    rw [hk] at ha h
    cases a with
    | method => exact h
    | header q => exact ha.elim
    | body q left => exact ha.elim
  | header | body | other => simp [hk] at h

theorem kept_sublist (h : Complete cs frames) :
    (kept lib rules cs frames).Sublist (frames.filter fun f => !f.goes lib rules) := by
  induction frames generalizing cs with
  | nil => exact List.Sublist.slnil
  | cons f frames ih =>
    have hr := ih h.2
    rw [kept, List.filter_cons]
    cases hg : f.goes lib rules with
    | true => simpa [owner_of_goes h.1 hg] using hr
    | false =>
      cases ((cs f.channel).owner f.kind).any (Publish.dropped lib rules) with
      | true => simpa using hr.cons f
      | false => simpa using hr.cons_cons f

/-- The header of a dropped publish goes out. -/
theorem kept_lt_of_header (h : Complete cs frames) {c : UInt16} (hc : cs c = .header p)
    (hp : p.dropped lib rules = true) :
    (kept lib rules cs frames).length < (frames.filter fun f => !f.goes lib rules).length := by
  induction frames generalizing cs with
  | nil => exact absurd (h c) (by simp [hc])
  | cons f frames ih =>
    rw [kept, List.filter_cons]
    by_cases hf : f.channel = c
    · -- the channel waits for its header, and this is it
      obtain ⟨channel, kind⟩ := f
      dsimp only at hf
      subst hf
      have ha := h.1
      dsimp only at ha ⊢
      rw [hc] at ha ⊢
      cases kind with
      | publish q => exact ha.elim
      | body b => exact ha.elim
      | other o => exact ha.elim
      | header hd =>
        have hs : Frame.goes lib rules ⟨channel, .header hd⟩ = false := rfl
        have hsub : (kept lib rules (cs.after ⟨channel, .header hd⟩) frames).Sublist
            (frames.filter fun f => !f.goes lib rules) := kept_sublist h.2
        simp only [Awaits.owner, Option.any_some, hp, hs]
        simpa using Nat.lt_succ_of_le hsub.length_le
    · have hsa : cs.after f c = .header p := by
        unfold Channels.after
        rw [Function.update_of_ne (Ne.symm hf)]
        exact hc
      have hr := ih h.2 hsa
      cases hg : f.goes lib rules with
      | true => simpa [owner_of_goes h.1 hg] using hr
      | false =>
        cases ((cs f.channel).owner f.kind).any (Publish.dropped lib rules) with
        | true => simp; omega
        | false => simp; omega

/-- With a publish that is dropped, a frame too many goes out. -/
theorem kept_lt (h : Complete cs frames) {f : Frame} (hf : f ∈ frames)
    (hgo : f.goes lib rules = true) :
    (kept lib rules cs frames).length < (frames.filter fun f => !f.goes lib rules).length := by
  induction frames generalizing cs with
  | nil => exact nomatch hf
  | cons g frames ih =>
    by_cases hg : g.goes lib rules = true
    · obtain ⟨channel, kind⟩ := g
      cases kind with
      | header | body | other => simp [Frame.goes] at hg
      | publish p =>
        have hm : cs channel = .method := by
          have ha := h.1
          dsimp only at ha
          cases hcs : cs channel with
          | method => rfl
          | header q => exact (hcs ▸ ha).elim
          | body q left => exact (hcs ▸ ha).elim
        have hw : (cs.after ⟨channel, .publish p⟩) channel = .header p := by
          simp [Channels.after, hm, Awaits.next]
        have hr := kept_lt_of_header h.2 hw hg
        rw [kept, List.filter_cons]
        simpa [owner_of_goes h.1 hg, hg] using hr
    · have hmem : f ∈ frames := by
        rcases List.mem_cons.mp hf with rfl | hmem
        · exact absurd hgo hg
        · exact hmem
      have hr := ih h.2 hmem
      rw [kept, List.filter_cons]
      cases ((cs g.channel).owner g.kind).any (Publish.dropped lib rules) with
      | true => simp [hg]; omega
      | false => simp [hg]; omega

theorem encodeAll_lt {more : List Frame} (h : frames.Sublist more)
    (hlt : frames.length < more.length) : (encodeAll frames).length < (encodeAll more).length := by
  induction h with
  | slnil => exact absurd hlt (Nat.lt_irrefl _)
  | @cons frames more f h ih =>
    have hone := encode_ne_nil f
    have hle : (encodeAll frames).length ≤ (encodeAll more).length :=
      (h.flatMap Frame.encode).length_le
    simp only [encodeAll, List.flatMap_cons, List.length_append] at hle ⊢
    omega
  | @cons_cons frames more f h ih =>
    have hr := ih (by simpa using hlt)
    simp only [encodeAll, List.flatMap_cons, List.length_append] at hr ⊢
    omega

theorem pending_next {k : Kind} (h : (a.next k).pending = some p) :
    a.pending = some p ∨ k = .publish p := by
  cases a with
  | method => cases k <;> simp_all [Awaits.next, Awaits.pending]
  | header q =>
    cases k with
    | header hd =>
      simp only [Awaits.next] at h
      split at h
      · exact absurd h (by simp [Awaits.pending])
      · exact .inl h
    | publish | body | other => simp [Awaits.next, Awaits.pending] at h
  | body q left =>
    cases k with
    | body b =>
      simp only [Awaits.next] at h
      split at h
      · exact absurd h (by simp [Awaits.pending])
      · exact .inl h
    | publish | header | other => simp [Awaits.next, Awaits.pending] at h

theorem pending_of_owner {k : Kind} (h : a.owner k = some p) :
    a.pending = some p ∨ k = .publish p := by
  cases a with
  | method => cases k <;> simp_all [Awaits.owner]
  | header q => exact .inl h
  | body q left => exact .inl h

theorem kept_eq (hcs : ∀ c p, (cs c).pending = some p → p.dropped lib rules = false)
    (h : ∀ f p, f ∈ frames → f.kind = .publish p → p.dropped lib rules = false) :
    kept lib rules cs frames = frames := by
  induction frames generalizing cs with
  | nil => rfl
  | cons f frames ih =>
    have hs : ∀ p, (cs f.channel).pending = some p ∨ f.kind = .publish p →
        p.dropped lib rules = false := by
      rintro p (hp | hp)
      · exact hcs _ p hp
      · exact h f p List.mem_cons_self hp
    have how : ((cs f.channel).owner f.kind).any (Publish.dropped lib rules) = false := by
      cases ho : (cs f.channel).owner f.kind with
      | none => rfl
      | some p => exact hs p (pending_of_owner ho)
    have ha : ∀ c p, (cs.after f c).pending = some p → p.dropped lib rules = false := by
      intro c p hp
      unfold Channels.after at hp
      by_cases hf : c = f.channel
      · rw [hf, Function.update_self] at hp
        exact hs p (pending_next hp)
      · rw [Function.update_of_ne hf] at hp
        exact hcs c p hp
    rw [kept, how, ih ha fun g p hg => h g p (List.mem_cons_of_mem _ hg)]
    rfl

end rules

/-! ## The law -/

theorem not_dropsWhole {lib : GoLib} {rules : DropRules} {s : Session} {f : Frame}
    (hf : f ∈ s.frames) (hg : f.goes lib rules = true) : ¬ DropsWhole lib rules s := by
  intro h
  have hrun := h fun _ _ => false
  rw [forwardFrames_eq] at hrun
  have hlt := encodeAll_lt (kept_sublist s.complete) (kept_lt s.complete hf hg)
  rw [hrun] at hlt
  exact Nat.lt_irrefl _ hlt

/-- Dropping removes whole messages exactly when no publish is dropped. -/
theorem dropsWhole_iff (lib : GoLib) (rules : DropRules) (s : Session) :
    DropsWhole lib rules s ↔
      ∀ f p, f ∈ s.frames → f.kind = .publish p → rules.hits lib p.topic = false := by
  constructor
  · intro h f p hf hp
    by_contra hh
    rw [Bool.not_eq_false] at hh
    have hg : f.goes lib rules = true := by
      unfold Frame.goes
      rw [hp]
      exact hh
    exact not_dropsWhole hf hg h
  · intro h rolls
    have hn : s.frames.filter (fun f => !f.goes lib rules) = s.frames := by
      rw [List.filter_eq_self]
      intro f hf
      unfold Frame.goes
      cases hk : f.kind with
      | publish p => simpa [Publish.dropped] using h f p hf hk
      | header | body | other => rfl
    have hi : ∀ c p, (Channels.idle c).pending = some p → p.dropped lib rules = false := by
      simp [Channels.idle, Awaits.pending]
    rw [forwardFrames_eq, hn, kept_eq hi h]

/-- A publish to the key `orders`, its header and its body `hi`. -/
def orders : Session where
  frames := [
    ⟨1, .publish ⟨(0, 0), [], bytes "orders", [0], by decide, by decide, by decide⟩⟩,
    ⟨1, .header ⟨2, [0, 0], by decide, by decide⟩⟩,
    ⟨1, .body ⟨bytes "hi", by decide⟩⟩]
  complete := by
    refine ⟨trivial, trivial, ?_, ?_⟩
    · show (bytes "hi").length ≤ 2
      decide
    · intro c
      by_cases hc : c = 1
      · subst hc
        rfl
      · simp [Channels.after, Channels.idle, Function.update_of_ne hc]

/-- Drop everything on the topic `orders`. -/
def dropOrders : DropRules := .single "orders" (by decide)

/-- The content of the dropped publish reaches the broker, with no method before it. -/
theorem content_without_its_publish :
    forwardFrames literalLib dropOrders.rules (fun _ _ => false) (encodeAll orders.frames) =
        encodeAll (orders.frames.drop 1) ∧
      ¬ DropsWhole literalLib dropOrders orders := by
  refine ⟨by decide, ?_⟩
  exact not_dropsWhole List.mem_cons_self (by decide)

end faultbox.amqp_relay
