-- The relay of the NATS proxy (relayNATS): control lines are forwarded as they are, and
-- a message is dropped or forwarded with its payload. The law: exactly the messages whose
-- subject no rule matches come through, and no payload is read as a line. It holds exactly
-- for messages without headers whose operation is written in capitals before a space, and whose
-- subject the rules judge as its first word, where a blank beyond ASCII cuts it.
import Faultbox.GoText
import Faultbox.ProxyRules

open gopath gotext faultbox.protocol_faults faultbox.proxy_rules

namespace faultbox.nats_relay

/-! ## The relay -/

/-- The direction of a relay: from the client, or from the server. -/
inductive Direction where
  | publish
  | deliver

def Direction.op : Direction → Bytes
  | .publish => bytes "PUB"
  | .deliver => bytes "MSG"

/-- The `verb` that the relay looks for. -/
def Direction.verb (dir : Direction) : Bytes := dir.op ++ [space]

/-- `natsPayloadLen`, `none` for -1. -/
def natsPayloadLen (line verb : Bytes) : Option Nat :=
  if verb.isPrefixOf line = false then none
  else
    let words := fields (trimEol line)
    if words.length < 3 then none
    else
      let n := atoi (words.getLast?.getD [])
      if n.2 = false ∨ n.1 < 0 then none else some n.1.toNat

def extractNATSSubject (line : Bytes) : Bytes := ((fields line)[1]?).getD []

/-- `shouldDrop`, from the rule at position `i`; `rolls` says which rules sit out. -/
def shouldDrop (lib : GoLib) (rolls : Nat → Bool) (subject : Bytes) : Nat → List ProxyRule → Bool
  | _, [] => false
  | i, rule :: rest =>
    if rule.topic ≠ "" ∧ matchGlob lib subject (bytes rule.topic) = false then
      shouldDrop lib rolls subject (i + 1) rest
    else if sitsOut rule (rolls i) then shouldDrop lib rolls subject (i + 1) rest
    else if rule.action = .drop then true
    else shouldDrop lib rolls subject (i + 1) rest

/-- What a relay leaves: the bytes that it wrote, and for each line that it read what was
still to come when it did. -/
structure Relayed where
  written : Bytes
  reads : List Bytes

def readPayload (dir : Direction) (line next : Bytes) : Option (Bytes × Bytes) :=
  match natsPayloadLen line dir.verb with
  | none => some ([], next)
  | some n => readFull (n + 2) next

/-- The loop of `relayNATS`; the rolls are those of each message in turn. -/
def relayLoop (lib : GoLib) (dir : Direction) (rules : List ProxyRule) :
    Nat → (Nat → Nat → Bool) → Bytes → Relayed
  | 0, _, _ => ⟨[], []⟩
  | fuel + 1, rolls, input =>
    let line := (readLine input).1
    let rest := (readLine input).2
    if line = [] then ⟨[], [input]⟩
    else
      match readPayload dir line (rest.getD []) with
      -- a payload that the stream does not hold ends the relay before the line is written
      | none => ⟨[], [input]⟩
      | some (payload, after) =>
        let drop := dir.verb.isPrefixOf line &&
          shouldDrop lib (rolls 0) (extractNATSSubject line) 0 rules
        let out := if drop then [] else line ++ payload
        match rest with
        | none => ⟨out, [input]⟩
        | some _ =>
          let more := relayLoop lib dir rules fuel (fun i => rolls (i + 1)) after
          ⟨out ++ more.written, input :: more.reads⟩

/-- `relayNATS` on a stream that ends: each turn takes a line, so there are enough turns. -/
def relayNATS (lib : GoLib) (dir : Direction) (rules : List ProxyRule) (rolls : Nat → Nat → Bool)
    (input : Bytes) : Relayed :=
  relayLoop lib dir rules (input.length + 1) rolls input

/-! ## Messages -/

def Direction.ops (dir : Direction) : List Bytes := [dir.op, 72 :: dir.op]

/-- A field of a line: without the bytes that end fields and lines. -/
def isField (w : Bytes) : Bool :=
  w ≠ [] && w.all fun c => c ≠ space && c ≠ tab && c ≠ 13 && c ≠ newline

/-- A message: the operation, in any case, the subject, more fields, and the payload, whose
length is the last field of the line. Between the fields stand spaces and tabs. With
headers, these are the first part of `body`. -/
structure Message (dir : Direction) where
  op : Bytes
  gap : Bytes
  subject : Bytes
  more : List (Bytes × Bytes)
  sizeGap : Bytes
  body : Bytes
  isOp : op.map upper ∈ dir.ops
  gaps : ∀ g ∈ gap :: sizeGap :: more.map Prod.fst, g ≠ [] ∧ ∀ c ∈ g, c = space ∨ c = tab
  words : ∀ w ∈ subject :: more.map Prod.snd, isField w = true
  fits : body.length + 2 < 2 ^ 63

variable {dir : Direction}

def Message.fields (m : Message dir) : List (Bytes × Bytes) :=
  (m.gap, m.subject) :: m.more ++ [(m.sizeGap, decimal m.body.length)]

def Message.text (m : Message dir) : Bytes := m.op ++ spell m.fields

def Message.head (m : Message dir) : Bytes := m.text ++ crlf

def Message.encode (m : Message dir) : Bytes := m.head ++ (m.body ++ crlf)

/-- A line that is no message: what stands before its first space or tab is no operation. -/
structure Control (dir : Direction) where
  text : Bytes
  oneLine : newline ∉ text
  noMessage : (text.takeWhile fun c => c ≠ space && c ≠ tab).map upper ∉ dir.ops

inductive Item (dir : Direction) where
  | control (c : Control dir)
  | message (m : Message dir)

def Item.encode : Item dir → Bytes
  | .control c => c.text ++ [newline]
  | .message m => m.encode

def encodeAll (items : List (Item dir)) : Bytes := items.flatMap Item.encode

/-- The item is a message that is to be dropped. -/
def Item.hit (lib : GoLib) (rules : DropRules) : Item dir → Bool
  | .control _ => false
  | .message m => rules.hits lib m.subject

def kept (hit : Item dir → Bool) (item : Item dir) : Bytes := if hit item then [] else item.encode

/-- The relay forwards the control lines and the whole messages that no rule matches, and reads
a line only where an item begins. -/
def RelaysWhole (lib : GoLib) (rules : DropRules) (items : List (Item dir)) : Prop :=
  ∀ rolls, relayNATS lib dir rules.rules rolls (encodeAll items) =
    ⟨items.flatMap (kept (Item.hit lib rules)), items.tails.map encodeAll⟩

/-- A message without headers, its operation in capitals before a space. -/
def Message.Plain (m : Message dir) : Prop := m.op = dir.op ∧ m.gap.head? = some space

/-- The words between the operation and the length: the fields, cut at the blanks of Unicode. -/
def Message.pieces (m : Message dir) : List Bytes :=
  gotext.fields m.subject ++ m.more.flatMap fun p => gotext.fields p.2

/-- The first word is judged as the subject. -/
def Message.JudgedWhole (lib : GoLib) (rules : DropRules) (m : Message dir) : Prop :=
  ∃ word ∈ m.pieces.head?, rules.hits lib word = rules.hits lib m.subject

/-! ## One line -/

theorem relayLoop_line {lib : GoLib} {rules : List ProxyRule} {text next payload after : Bytes}
    (hl : newline ∉ text)
    (hp : readPayload dir (text ++ [newline]) next = some (payload, after)) (fuel : Nat)
    (rolls : Nat → Nat → Bool) :
    relayLoop lib dir rules (fuel + 1) rolls (text ++ newline :: next) =
      ⟨(if dir.verb.isPrefixOf (text ++ [newline]) &&
            shouldDrop lib (rolls 0) (extractNATSSubject (text ++ [newline])) 0 rules then []
          else text ++ [newline] ++ payload) ++
          (relayLoop lib dir rules fuel (fun i => rolls (i + 1)) after).written,
        (text ++ newline :: next) ::
          (relayLoop lib dir rules fuel (fun i => rolls (i + 1)) after).reads⟩ := by
  have hne : text ++ [newline] ≠ [] := by simp
  rw [relayLoop, readLine_append hl]
  simp only [if_neg hne, Option.getD_some, hp]

/-! ## Control lines -/

theorem op_mem_ops (dir : Direction) : dir.op.map upper ∈ dir.ops := by
  cases dir <;> decide

theorem Control.bare (c : Control dir) : dir.verb.isPrefixOf (c.text ++ [newline]) = false := by
  rw [Bool.eq_false_iff]
  intro hpre
  rw [List.isPrefixOf_iff_prefix, List.prefix_concat_iff] at hpre
  rcases hpre with heq | ⟨s, hs⟩
  · have hl := congrArg List.getLast? heq
    simp [Direction.verb, space, newline] at hl
  · have hop : (dir.op.all fun c => decide (c ≠ space) && decide (c ≠ tab)) = true := by
      cases dir <;> decide
    apply c.noMessage
    rw [← hs, Direction.verb, List.append_assoc,
      List.takeWhile_append_of_pos (List.all_eq_true.mp hop)]
    simpa using op_mem_ops dir

/-! ## Messages -/

section message

variable (m : Message dir)

theorem visible_of_ops {w : Bytes} (hw : w ∈ dir.ops) {c : UInt8} (hc : c ∈ w) : IsGraphic c := by
  have hall : (dir.ops.all fun w => w.all fun c => decide (IsGraphic c)) = true := by
    cases dir <;> decide
  simp only [List.all_eq_true, decide_eq_true_eq] at hall
  exact hall w hw c hc

theorem visible_of_upper {c : UInt8} (h : IsGraphic (upper c)) : IsGraphic c := by
  unfold upper at h
  split at h
  · unfold IsGraphic
    omega
  · exact h

theorem Message.isWord_op : IsWord m.op := by
  apply isWord_of_visible
  · intro hnil
    have hop := m.isOp
    rw [hnil] at hop
    cases dir <;> revert hop <;> decide
  · intro c hc
    exact visible_of_upper (visible_of_ops m.isOp (List.mem_map_of_mem hc))

theorem isBlank_of_gap {c : UInt8} (h : c = space ∨ c = tab) : IsBlank c := by
  rcases h with rfl | rfl <;> decide

theorem Message.gap_of_mem {p : Bytes × Bytes} (hp : p ∈ m.fields) :
    p.1 ≠ [] ∧ ∀ c ∈ p.1, c = space ∨ c = tab := by
  apply m.gaps
  simp only [Message.fields, List.cons_append, List.mem_cons, List.mem_append, List.not_mem_nil,
    or_false] at hp
  rcases hp with rfl | hp | rfl
  · simp
  · simp only [List.mem_cons]
    exact .inr (.inr (List.mem_map_of_mem hp))
  · simp

theorem Message.newline_notMem {p : Bytes × Bytes} (hp : p ∈ m.fields) : newline ∉ p.2 := by
  have hfield : ∀ w ∈ m.subject :: m.more.map Prod.snd, newline ∉ w := by
    intro w hw hn
    have hall := m.words w hw
    rw [isField, Bool.and_eq_true, List.all_eq_true] at hall
    simpa using hall.2 newline hn
  simp only [Message.fields, List.cons_append, List.mem_cons, List.mem_append, List.not_mem_nil,
    or_false] at hp
  rcases hp with rfl | hp | rfl
  · exact hfield _ List.mem_cons_self
  · exact hfield _ (List.mem_cons_of_mem _ (List.mem_map_of_mem hp))
  · exact (isWord_decimal _).notMem_of_blank (by decide)

theorem Message.fields_text {tail : Bytes} (ht : ∀ c ∈ tail, IsBlank c) :
    gotext.fields (m.text ++ tail) = m.op :: (m.pieces ++ [decimal m.body.length]) := by
  have hgaps : ∀ p ∈ m.fields, p.1 ≠ [] ∧ ∀ c ∈ p.1, IsBlank c := fun p hp =>
    ⟨(m.gap_of_mem hp).1, fun c hc => isBlank_of_gap ((m.gap_of_mem hp).2 c hc)⟩
  rw [Message.text, fields_spell hgaps ht, fields_of_isWord m.isWord_op]
  simp [Message.fields, Message.pieces, fields_of_isWord (isWord_decimal _)]

theorem Message.oneLine : newline ∉ m.text ++ [13] := by
  unfold Message.text spell
  simp only [List.mem_append, List.mem_flatMap, List.mem_singleton, not_or, not_exists, not_and]
  refine ⟨⟨m.isWord_op.notMem_of_blank (by decide), fun p hp => ?_⟩, by decide⟩
  refine ⟨fun hgap => ?_, m.newline_notMem hp⟩
  rcases (m.gap_of_mem hp).2 _ hgap with h | h
  · exact absurd h (by decide)
  · exact absurd h (by decide)

theorem prefix_iff {w op : Bytes} (hlen : op.length = w.length) (g : UInt8) (rest : Bytes) :
    w ++ [space] <+: op ++ g :: rest ↔ op = w ∧ g = space := by
  constructor
  · rintro ⟨t, ht⟩
    rw [List.append_assoc] at ht
    obtain ⟨hw, hg⟩ := List.append_inj ht hlen.symm
    exact ⟨hw.symm, (List.cons.inj hg).1.symm⟩
  · rintro ⟨rfl, rfl⟩
    exact ⟨rest, by simp⟩

theorem Message.verb_iff (tail : Bytes) :
    dir.verb.isPrefixOf (m.text ++ tail) = true ↔ m.Plain := by
  obtain ⟨hgap, -⟩ := m.gaps m.gap List.mem_cons_self
  cases hg : m.gap with
  | nil => exact absurd hg hgap
  | cons g gap =>
    have ht : m.text ++ tail = m.op ++ g :: (gap ++ m.subject ++
        spell (m.more ++ [(m.sizeGap, decimal m.body.length)]) ++ tail) := by
      simp [Message.text, Message.fields, spell, hg]
    have hc := m.isOp
    unfold Direction.ops at hc
    rw [ht, List.isPrefixOf_iff_prefix, Direction.verb, Message.Plain, hg]
    simp only [List.mem_cons, List.not_mem_nil, or_false] at hc
    rcases hc with hop | hop
    · have hlen := congrArg List.length hop
      rw [List.length_map] at hlen
      rw [prefix_iff hlen]
      simp
    · -- with headers, the first letter is another one
      obtain ⟨h, op, hco, hh, -⟩ := List.map_eq_cons_iff.mp hop
      rw [hco]
      constructor
      · intro hpre
        have hs : dir.op = dir.op.headD 0 :: dir.op.tail := by
          cases dir <;> decide
        have ho : upper (dir.op.headD 0) ≠ 72 := by
          cases dir <;> decide
        rw [hs, List.cons_append, List.cons_append, List.cons_prefix_cons] at hpre
        exact absurd (hpre.1 ▸ hh) ho
      · rintro ⟨heq, -⟩
        have hlen := congrArg List.length hop
        rw [hco, heq] at hlen
        simp at hlen

/-- The length is read unless the subject and the fields behind it are blanks of Unicode. -/
theorem Message.payloadLen :
    natsPayloadLen (m.text ++ crlf) dir.verb =
      if dir.verb.isPrefixOf (m.text ++ crlf) = true ∧ m.pieces ≠ [] then some m.body.length
      else none := by
  have htr : trimEol (m.text ++ crlf) = m.text := by
    have ht : m.text = m.op ++ spell ((m.gap, m.subject) :: m.more) ++ m.sizeGap ++
        decimal m.body.length := by
      simp [Message.text, Message.fields, spell]
    rw [ht]
    exact trimEol_decimal _ _
  have hf : gotext.fields m.text = m.op :: (m.pieces ++ [decimal m.body.length]) := by
    have hall := @Message.fields_text dir m [] (by simp)
    rwa [List.append_nil] at hall
  have hfi := m.fits
  have ha : atoi (decimal m.body.length) = ((m.body.length : Int), true) :=
    atoi_decimal (by omega)
  unfold natsPayloadLen
  rw [htr, hf]
  cases hv : dir.verb.isPrefixOf (m.text ++ crlf) with
  | false => simp
  | true =>
    by_cases hp : m.pieces = []
    · simp [hp]
    · have hlen : ¬ m.pieces.length = 0 := by rwa [List.length_eq_zero_iff]
      have hlast : (m.op :: (m.pieces ++ [decimal m.body.length])).getLast? =
          some (decimal m.body.length) := by
        rw [← List.cons_append, List.getLast?_concat]
      simp only [hlast, Option.getD_some, ha]
      simp [hp]
      omega

theorem Message.subject_eq {word : Bytes} (h : word ∈ m.pieces.head?) :
    extractNATSSubject (m.text ++ crlf) = word := by
  have hall : (crlf.all fun c => decide (IsBlank c)) = true := by decide
  unfold extractNATSSubject
  rw [m.fields_text fun c hc => of_decide_eq_true (List.all_eq_true.mp hall c hc)]
  cases hp : m.pieces with
  | nil => simp [hp] at h
  | cons w pieces =>
    rw [hp] at h
    simpa using h

end message

/-! ## The rules -/

theorem shouldDrop_iff (lib : GoLib) (rolls : Nat → Bool) (subject : Bytes) (rules : DropRules) :
    shouldDrop lib rolls subject 0 rules.rules = rules.hits lib subject := by
  have hlo : ∀ (l : List ProxyRule) (i : Nat), (∀ r ∈ l, r ∈ rules.rules) →
      shouldDrop lib rolls subject i l = l.any fun r => matchGlob lib subject (bytes r.topic) := by
    intro l
    induction l with
    | nil => intro i _; rfl
    | cons r l ih =>
      intro i hl
      have hmem := hl r List.mem_cons_self
      have hre := ih (i + 1) fun q hq => hl q (List.mem_cons_of_mem _ hq)
      rw [shouldDrop, List.any_cons]
      by_cases hm : matchGlob lib subject (bytes r.topic) = true
      · simp [hm, sitsOut, rules.always r hmem, rules.drops r hmem]
      · simp [hm, rules.topics r hmem, hre]
  exact hlo rules.rules 0 fun _ hr => hr

/-! ## One item -/

/-- The item is read as one. -/
def Item.Framed : Item dir → Prop
  | .control _ => True
  | .message m => m.Plain ∧ m.pieces ≠ []

def Item.line : Item dir → Bytes
  | .control c => c.text ++ [newline]
  | .message m => m.text ++ crlf

/-- What the relay does with a line. -/
def drops (lib : GoLib) (rules : DropRules) (item : Item dir) : Bool :=
  dir.verb.isPrefixOf item.line && rules.hits lib (extractNATSSubject item.line)

variable {lib : GoLib} {rules : DropRules}

/-- A line, and the payload behind it. -/
theorem Item.split {item : Item dir} (h : item.Framed) (next : Bytes) :
    ∃ text rest payload, newline ∉ text ∧ item.line = text ++ [newline] ∧
      item.encode = item.line ++ payload ∧ item.encode ++ next = text ++ newline :: rest ∧
      readPayload dir item.line rest = some (payload, next) := by
  cases item with
  | control c =>
    refine ⟨c.text, next, [], c.oneLine, rfl, by simp [Item.encode, Item.line],
      by simp [Item.encode], ?_⟩
    unfold readPayload natsPayloadLen
    rw [Item.line, if_pos c.bare]
  | message m =>
    refine ⟨m.text ++ [13], m.body ++ crlf ++ next, m.body ++ crlf, m.oneLine, ?_, rfl, ?_, ?_⟩
    · simp [Item.line, crlf, newline]
    · simp [Item.encode, Message.encode, Message.head, crlf, newline]
    · unfold readPayload
      rw [Item.line, m.payloadLen, if_pos ⟨(m.verb_iff crlf).mpr h.1, h.2⟩]
      exact readFull_append (by simp [crlf]) next

theorem relayLoop_item {item : Item dir} (h : item.Framed) (fuel : Nat) (rolls : Nat → Nat → Bool)
    (next : Bytes) :
    relayLoop lib dir rules.rules (fuel + 1) rolls (item.encode ++ next) =
      ⟨kept (drops lib rules) item ++
          (relayLoop lib dir rules.rules fuel (fun i => rolls (i + 1)) next).written,
        (item.encode ++ next) ::
          (relayLoop lib dir rules.rules fuel (fun i => rolls (i + 1)) next).reads⟩ := by
  obtain ⟨text, rest, payload, hn, hline, henc, hs, hp⟩ := Item.split h next
  rw [hline] at hp
  rw [hs, relayLoop_line hn hp, shouldDrop_iff, ← hline, ← henc, kept, drops]

/-- Two items that begin the same bytes are the same bytes. -/
theorem encode_cancel {i j : Item dir} (hi : i.Framed) (hj : j.Framed) {s t : Bytes}
    (h : i.encode ++ s = j.encode ++ t) : i.line = j.line ∧ s = t := by
  obtain ⟨text, rest, payload, hn, hline, -, hs, hp⟩ := Item.split hi s
  obtain ⟨text', rest', payload', hn', hline', -, hs', hp'⟩ := Item.split hj t
  have hr := congrArg readLine (hs.symm.trans (h.trans hs'))
  rw [readLine_append hn, readLine_append hn', Prod.mk.injEq, Option.some.injEq] at hr
  have hl : i.line = j.line := by rw [hline, hline', hr.1]
  rw [hl, hr.2, hp'] at hp
  exact ⟨hl, (congrArg Prod.snd (Option.some.inj hp)).symm⟩

/-! ## The law -/

def starts (next : Bytes) : List (Item dir) → List Bytes
  | [] => []
  | item :: items => (encodeAll (item :: items) ++ next) :: starts next items

theorem length_starts (next : Bytes) (items : List (Item dir)) :
    (starts next items).length = items.length := by
  induction items with
  | nil => rfl
  | cons item items ih => simp [starts, ih]

theorem starts_nil (items : List (Item dir)) :
    starts [] items ++ [[]] = items.tails.map encodeAll := by
  induction items with
  | nil => simp [starts, encodeAll]
  | cons item items ih => simp [starts, ← ih]

theorem relayLoop_items (lib : GoLib) (rules : DropRules) {items : List (Item dir)}
    (h : ∀ item ∈ items, item.Framed) (fuel : Nat) (rolls : Nat → Nat → Bool) (next : Bytes) :
    ∃ rolls', relayLoop lib dir rules.rules (fuel + items.length) rolls (encodeAll items ++ next) =
      ⟨items.flatMap (kept (drops lib rules)) ++
          (relayLoop lib dir rules.rules fuel rolls' next).written,
        starts next items ++ (relayLoop lib dir rules.rules fuel rolls' next).reads⟩ := by
  induction items generalizing rolls with
  | nil => exact ⟨rolls, rfl⟩
  | cons item items ih =>
    obtain ⟨rolls', hr⟩ := ih (fun i hi => h i (List.mem_cons_of_mem _ hi))
      (fun i => rolls (i + 1))
    refine ⟨rolls', ?_⟩
    have hs : encodeAll (item :: items) ++ next = item.encode ++ (encodeAll items ++ next) := by
      simp [encodeAll]
    rw [hs, List.length_cons, ← Nat.add_assoc, relayLoop_item (h item List.mem_cons_self), hr]
    simp [starts, encodeAll]

theorem length_le_encodeAll (items : List (Item dir)) :
    items.length ≤ (encodeAll items).length := by
  induction items with
  | nil => simp
  | cons item items ih =>
    have hone : 1 ≤ item.encode.length := by
      cases item with
      | control c => simp [Item.encode]
      | message m => simp [Item.encode, Message.encode, crlf]; omega
    simp only [encodeAll, List.flatMap_cons, List.length_append, List.length_cons] at ih ⊢
    omega

theorem reads_head (fuel : Nat) (rolls : Nat → Nat → Bool) (input : Bytes) :
    (relayLoop lib dir rules.rules (fuel + 1) rolls input).reads.head? = some input := by
  rw [relayLoop]
  dsimp only
  split
  · rfl
  · split
    · rfl
    · split <;> rfl

theorem drop_tails (pre items : List (Item dir)) :
    ((pre ++ items).tails.map encodeAll).drop pre.length = items.tails.map encodeAll := by
  induction pre with
  | nil => rfl
  | cons item pre ih => simpa using ih

theorem head_tails (items : List (Item dir)) :
    (items.tails.map encodeAll).head? = some (encodeAll items) := by
  cases items <;> simp

/-- The payload of a message that is not framed is read as a line. -/
theorem not_relaysWhole {pre post : List (Item dir)} {m : Message dir}
    (hpre : ∀ item ∈ pre, item.Framed) (hm : ¬ (m.Plain ∧ m.pieces ≠ [])) :
    ¬ RelaysWhole lib rules (pre ++ .message m :: post) := by
  intro h
  have hp : readPayload dir (m.text ++ [13] ++ [newline]) (m.body ++ crlf ++ encodeAll post) =
      some ([], m.body ++ crlf ++ encodeAll post) := by
    have hcrlf : m.text ++ [13] ++ [newline] = m.text ++ crlf := by simp [crlf, newline]
    unfold readPayload
    rw [hcrlf, m.payloadLen, if_neg fun hx => hm ⟨(m.verb_iff crlf).mp hx.1, hx.2⟩]
  have hl : encodeAll (.message m :: post) =
      m.text ++ [13] ++ newline :: (m.body ++ crlf ++ encodeAll post) := by
    simp [encodeAll, Item.encode, Message.encode, Message.head, crlf, newline]
  have hi : encodeAll (pre ++ .message m :: post) =
      encodeAll pre ++ encodeAll (.message m :: post) := by
    simp [encodeAll]
  have hlen : pre.length + 1 ≤ (encodeAll (pre ++ .message m :: post)).length := by
    have hle := length_le_encodeAll (pre ++ .message m :: post)
    simp only [List.length_append, List.length_cons] at hle ⊢
    omega
  obtain ⟨k, hk⟩ : ∃ k, (encodeAll (pre ++ .message m :: post)).length + 1 = k + 2 + pre.length :=
    ⟨(encodeAll (pre ++ .message m :: post)).length + 1 - 2 - pre.length, by omega⟩
  have hrun := h fun _ _ => false
  unfold relayNATS at hrun
  rw [hk, hi] at hrun
  obtain ⟨rolls, hlo⟩ := relayLoop_items lib rules hpre (k + 2)
    (fun _ _ => false) (encodeAll (.message m :: post))
  -- behind the framed items, the second line is read inside the message
  rw [hlo, hl, relayLoop_line m.oneLine hp] at hrun
  have hr := congrArg (fun r => r.reads.drop pre.length) hrun
  dsimp only at hr
  rw [drop_tails, List.drop_append_of_le_length (by rw [length_starts]),
    List.drop_of_length_le (by rw [length_starts]), List.nil_append] at hr
  have ht := congrArg (fun l => l.tail.head?) hr
  simp only [List.tail_cons, reads_head, List.tails_cons, List.map_cons, head_tails,
    Option.some.injEq] at ht
  have hleng := congrArg List.length ht
  simp only [List.length_append, crlf, List.length_cons, List.length_nil] at hleng
  omega

/-- Framed items come through as they are dropped and kept. -/
theorem relayNATS_framed {items : List (Item dir)} (h : ∀ item ∈ items, item.Framed)
    (rolls : Nat → Nat → Bool) : relayNATS lib dir rules.rules rolls (encodeAll items) =
      ⟨items.flatMap (kept (drops lib rules)), items.tails.map encodeAll⟩ := by
  have hlen := length_le_encodeAll items
  obtain ⟨k, hk⟩ : ∃ k, (encodeAll items).length + 1 = k + 1 + items.length :=
    ⟨(encodeAll items).length - items.length, by omega⟩
  obtain ⟨rolls', hl⟩ := relayLoop_items lib rules h (k + 1) rolls []
  rw [List.append_nil] at hl
  have hend : relayLoop lib dir rules.rules (k + 1) rolls' [] = ⟨[], [[]]⟩ := by
    simp [relayLoop, readLine]
  rw [relayNATS, hk, hl, hend, List.append_nil, starts_nil]

theorem flatMap_kept (hit : Item dir → Bool) (items : List (Item dir)) :
    items.flatMap (kept hit) = encodeAll (items.filter fun i => !hit i) := by
  induction items with
  | nil => rfl
  | cons item items ih =>
    rw [List.flatMap_cons, ih, kept, List.filter_cons]
    cases hit item <;> simp [encodeAll]

theorem lines_eq_of_encodeAll {items items' : List (Item dir)} (h : ∀ i ∈ items, i.Framed)
    (h' : ∀ i ∈ items', i.Framed) (he : encodeAll items = encodeAll items') :
    items.map Item.line = items'.map Item.line := by
  induction items generalizing items' with
  | nil =>
    have hle := length_le_encodeAll items'
    rw [← he] at hle
    rw [List.length_eq_zero_iff.mp (Nat.le_zero.mp hle)]
  | cons i items ih =>
    cases items' with
    | nil =>
      have hle := length_le_encodeAll (i :: items)
      rw [he] at hle
      exact absurd hle (by simp [encodeAll])
    | cons j items' =>
      obtain ⟨hline, hrest⟩ := encode_cancel (h i List.mem_cons_self) (h' j List.mem_cons_self) he
      rw [List.map_cons, List.map_cons, hline,
        ih (fun x hx => h x (List.mem_cons_of_mem _ hx))
          (fun x hx => h' x (List.mem_cons_of_mem _ hx)) hrest]

/-- Filters of one list that keep the same number, one of them more than the other, are one. -/
theorem filter_eq_of_length {α : Type} {p q : α → Bool} {l : List α}
    (hpq : ∀ a ∈ l, p a = true → q a = true)
    (hlen : (l.filter p).length = (l.filter q).length) : ∀ a ∈ l, p a = q a := by
  have hf : l.filter p = (l.filter q).filter p := by
    rw [List.filter_filter]
    refine List.filter_congr fun a ha => ?_
    cases hp : p a with
    | false => simp
    | true => simp [hpq a ha hp]
  rw [hf] at hlen
  have hall := List.length_filter_eq_length_iff.mp hlen
  intro a ha
  cases hp : p a with
  | true => exact (hpq a ha hp).symm
  | false =>
    cases hq : q a with
    | false => rfl
    | true => exact absurd (hall a (List.mem_filter.mpr ⟨ha, hq⟩)) (by simp [hp])

/-- The bytes show which items came through: the items are told apart from their beginnings, and
what the relay does with one is in its line. -/
theorem hits_of_written {items : List (Item dir)} (h : ∀ i ∈ items, i.Framed)
    (he : items.flatMap (kept (drops lib rules)) = items.flatMap (kept (Item.hit lib rules))) :
    ∀ i ∈ items, drops lib rules i = i.hit lib rules := by
  rw [flatMap_kept, flatMap_kept] at he
  have hlines := lines_eq_of_encodeAll (fun i hi => h i (List.mem_of_mem_filter hi))
    (fun i hi => h i (List.mem_of_mem_filter hi)) he
  have hle : ∀ i ∈ items, (!i.hit lib rules) = true → (!drops lib rules i) = true := by
    intro i hi hk
    have hm : i.line ∈ (items.filter fun i => !drops lib rules i).map Item.line :=
      hlines ▸ List.mem_map_of_mem (List.mem_filter.mpr ⟨hi, hk⟩)
    obtain ⟨j, hj, hline⟩ := List.mem_map.mp hm
    rw [drops, ← hline]
    exact (List.mem_filter.mp hj).2
  have hlen := congrArg List.length hlines
  rw [List.length_map, List.length_map] at hlen
  intro i hi
  have hb := filter_eq_of_length hle hlen.symm i hi
  simpa using hb.symm

theorem drops_message {m : Message dir} (h : m.Plain) {word : Bytes} (hw : word ∈ m.pieces.head?) :
    drops lib rules (.message m) = rules.hits lib word := by
  rw [drops, Item.line, (m.verb_iff crlf).mpr h, m.subject_eq hw, Bool.true_and]

/-- The relay drops and forwards whole messages exactly when all of them are plain, and their
subject is judged as the first word. -/
theorem relaysWhole_iff (lib : GoLib) (rules : DropRules) (items : List (Item dir)) :
    RelaysWhole lib rules items ↔
      ∀ m, .message m ∈ items → m.Plain ∧ m.JudgedWhole lib rules := by
  constructor
  · intro h
    have hframed : ∀ item ∈ items, item.Framed := by
      by_contra hp
      simp only [not_forall] at hp
      obtain ⟨bad, hbad, hp⟩ := hp
      classical
      -- the first item that is not framed
      obtain ⟨item, hf⟩ : ∃ item, items.find? (fun i => decide (¬ i.Framed)) = some item := by
        rw [← Option.isSome_iff_exists, List.find?_isSome]
        exact ⟨_, hbad, decide_eq_true hp⟩
      obtain ⟨hnot, pre, post, rfl, hpre⟩ := List.find?_eq_some_iff_append.mp hf
      have hpre' : ∀ i ∈ pre, i.Framed := fun i hi => by simpa using hpre i hi
      cases item with
      | control c => simp [Item.Framed] at hnot
      | message m' =>
        simp only [decide_eq_true_eq] at hnot
        exact not_relaysWhole hpre' hnot h
    have hrun := h fun _ _ => false
    rw [relayNATS_framed hframed, Relayed.mk.injEq] at hrun
    intro m hm
    obtain ⟨hplain, hne⟩ := hframed _ hm
    obtain ⟨word, pieces, hp⟩ := List.exists_cons_of_ne_nil hne
    have hw : word ∈ m.pieces.head? := by rw [hp]; rfl
    refine ⟨hplain, word, hw, ?_⟩
    rw [← drops_message hplain hw]
    exact hits_of_written hframed hrun.1 _ hm
  · intro h rolls
    have hframed : ∀ item ∈ items, item.Framed := by
      intro item hit
      cases item with
      | control c => trivial
      | message m =>
        obtain ⟨hplain, word, hw, -⟩ := h m hit
        refine ⟨hplain, fun hnil => ?_⟩
        rw [hnil] at hw
        cases hw
    rw [relayNATS_framed hframed, flatMap_kept, flatMap_kept]
    congr 2
    refine List.filter_congr fun item hit => ?_
    cases item with
    | control c => rw [drops, Item.line, c.bare]; rfl
    | message m =>
      obtain ⟨hplain, word, hw, hj⟩ := h m hit
      rw [drops_message hplain hw, hj]
      rfl

/-- `HPUB orders 0 17`, whose payload holds the text of a PUB of its own. -/
def withHeaders : Message .publish where
  op := bytes "HPUB"
  gap := [space]
  subject := bytes "orders"
  more := [([space], bytes "0")]
  sizeGap := [space]
  body := bytes "PUB orders 3\r\nabc"
  isOp := by decide
  gaps := by simp
  words := List.all_eq_true.mp (by decide)
  fits := by decide

/-- `PUB orders x 3`, with a blank beyond ASCII in the subject. -/
def cutSubject : Message .publish where
  op := bytes "PUB"
  gap := [space]
  subject := bytes "orders\u00a0x"
  more := []
  sizeGap := [space]
  body := bytes "abc"
  isOp := by decide
  gaps := by simp
  words := List.all_eq_true.mp (by decide)
  fits := by decide

theorem orders_ne : "orders" ≠ "" := by decide

/-- Drop everything on the subject `orders`. -/
def dropOrders : DropRules := .single "orders" orders_ne

/-- A message with headers on a subject that is dropped: its line goes through, and from its
payload a message is taken away. A message on a subject that no rule matches is dropped for the
first word of it. -/
theorem headers_read_as_a_message :
    (relayNATS literalLib .publish dropOrders.rules (fun _ _ => false)
        (encodeAll [.message withHeaders])).written = bytes "HPUB orders 0 17\r\n" ∧
      ¬ RelaysWhole literalLib dropOrders [.message withHeaders] ∧
      dropOrders.hits literalLib cutSubject.subject = false ∧
      (relayNATS literalLib .publish dropOrders.rules (fun _ _ => false)
        (encodeAll [.message cutSubject])).written = [] := by
  refine ⟨by decide, ?_, by decide, by decide⟩
  have hp : ¬ (withHeaders.Plain ∧ withHeaders.pieces ≠ []) := fun h => absurd h.1.1 (by decide)
  have hn : ∀ item ∈ ([] : List (Item .publish)), item.Framed := fun _ hi => nomatch hi
  exact not_relaysWhole hn hp

end faultbox.nats_relay
