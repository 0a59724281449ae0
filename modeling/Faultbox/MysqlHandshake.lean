-- The connection phase through the MySQL proxy (forwardHandshake): the server greets, the client
-- responds, then the server's packets decide whose turn it is. The law: the proxy never waits for a
-- side that waits itself, both sides get the other's packets as they were, and it returns with
-- the OK or ERR. It takes AuthMoreData for fast_auth_success by its first two bytes, so a longer
-- one that begins like it and is answered is left out.
import Faultbox.GoText
import Faultbox.Runs

open gopath gotext runs

namespace faultbox.mysql_handshake

/-! ## Packets -/

structure Packet where
  seq : UInt8
  payload : Bytes
  small : payload.length < 2 ^ 24

def Packet.header (p : Packet) : Bytes :=
  [UInt8.ofNat p.payload.length, UInt8.ofNat (p.payload.length / 2 ^ 8),
   UInt8.ofNat (p.payload.length / 2 ^ 16), p.seq]

def Packet.bytes (p : Packet) : Bytes := p.header ++ p.payload

/-- The first two bytes of a payload; what is missing reads as 0. -/
def firstTwo (payload : Bytes) : UInt8 × UInt8 := (payload.headD 0, payload.tail.headD 0)

/-- `forwardMySQLPacketReturningFirstTwoBytes`: the bytes it decides by, what it writes and what
is left to read. `none` while it waits. -/
def forwardMySQLPacket (src : Bytes) : Option ((UInt8 × UInt8) × Bytes × Bytes) :=
  (readFull 4 src).bind fun h =>
    let payloadLen := (h.1.getD 0 0).toNat + (h.1.getD 1 0).toNat * 2 ^ 8 +
      (h.1.getD 2 0).toNat * 2 ^ 16
    (readFull payloadLen h.2).map fun r => (firstTwo r.1, h.1 ++ r.1, r.2)

def mysqlPktOK : UInt8 := 0x00
def mysqlPktAuthMoreData : UInt8 := 0x01
def mysqlPktAuthSwitchReq : UInt8 := 0xFE
def mysqlPktERR : UInt8 := 0xFF
def mysqlSha2FastAuthSuccess : UInt8 := 0x03
def maxRounds : Nat := 16

/-! ## The proxy -/

inductive Side where
  | client
  | server
deriving DecidableEq

def Side.other : Side → Side
  | .client => .server
  | .server => .client

theorem Side.other_other (side : Side) : side.other.other = side := by
  cases side <;> rfl

theorem Side.ne_other (side : Side) : side ≠ side.other := by
  cases side <;> decide

theorem Side.eq_other_of_ne {a b : Side} (h : a ≠ b) : a = b.other := by
  cases a <;> cases b <;> first | rfl | exact absurd rfl h

/-- Where `forwardHandshake` stands: the packet it reads next. -/
inductive Pc where
  | greeting
  | response
  | server (round : Nat)
  | client (round : Nat)
  | returned
  | failed
deriving DecidableEq

/-- The side that it reads from. -/
def Pc.reads : Pc → Option Side
  | .greeting => some .server
  | .response => some .client
  | .server _ => some .server
  | .client _ => some .client
  | .returned => none
  | .failed => none

def nextRound (round : Nat) : Pc := if round + 1 < maxRounds then .server (round + 1) else .failed

/-- Where it goes on after a packet. -/
def Pc.next : Pc → UInt8 × UInt8 → Pc
  | .greeting, _ => .response
  | .response, _ => .server 0
  | .server round, (first, second) =>
    if first = mysqlPktOK ∨ first = mysqlPktERR then .returned
    else if first = mysqlPktAuthMoreData ∧ second = mysqlSha2FastAuthSuccess then nextRound round
    else .client round
  | .client round, _ => nextRound round
  | .returned, _ => .returned
  | .failed, _ => .failed

/-! ## The connection phase -/

/-- What a server packet before the last one leads to. -/
inductive Round where
  | asked (packet answer : Packet)
  | fast (packet : Packet)

def Packet.IsFast (p : Packet) : Prop :=
  p.payload = [mysqlPktAuthMoreData, mysqlSha2FastAuthSuccess]

/-- AuthSwitchRequest and AuthMoreData are answered, fast_auth_success is not. -/
def Round.Proper : Round → Prop
  | .asked p _ => (firstTwo p.payload).1 = mysqlPktAuthSwitchReq ∨
      (firstTwo p.payload).1 = mysqlPktAuthMoreData ∧ ¬ p.IsFast
  | .fast p => p.IsFast

structure Phase where
  greeting : Packet
  response : Packet
  rounds : List Round
  last : Packet
  proper : ∀ r ∈ rounds, r.Proper
  ends : (firstTwo last.payload).1 = mysqlPktOK ∨ (firstTwo last.payload).1 = mysqlPktERR
  few : rounds.length + 1 ≤ maxRounds

def Round.items : Round → List (Side × Packet)
  | .asked p answer => [(.server, p), (.client, answer)]
  | .fast p => [(.server, p)]

/-- The packets of the phase in their order, each with its sender. -/
def Phase.dialogue (ph : Phase) : List (Side × Packet) :=
  (.server, ph.greeting) :: (.client, ph.response) ::
    (ph.rounds.flatMap Round.items ++ [(.server, ph.last)])

/-! ## The three parties -/

/-- `forwarded` counts the packets the proxy has passed on, `pos` is how far a side is in the
dialogue, `out` what it has sent and the proxy not read, `inn` what the proxy has written to it and
it not read, `got` the packets it has read. -/
structure State where
  pc : Pc
  forwarded : Nat
  pos : Side → Nat
  out : Side → Bytes
  inn : Side → Bytes
  got : Side → List Bytes

inductive Act where
  | proxy
  | peer (side : Side)

/-- A side sends when it is its turn in the dialogue, and else waits for a packet. -/
def step (items : List (Side × Packet)) (s : State) : Act → Option State
  | .proxy =>
    s.pc.reads.bind fun side =>
      (forwardMySQLPacket (s.out side)).map fun r =>
        { s with
          pc := s.pc.next r.1
          forwarded := s.forwarded + 1
          out := Function.update s.out side r.2.2
          inn := Function.update s.inn side.other (s.inn side.other ++ r.2.1) }
  | .peer side =>
    items[s.pos side]?.bind fun item =>
      if item.1 = side then
        some { s with
          pos := Function.update s.pos side (s.pos side + 1)
          out := Function.update s.out side (s.out side ++ item.2.bytes) }
      else
        (forwardMySQLPacket (s.inn side)).map fun r =>
          { s with
            pos := Function.update s.pos side (s.pos side + 1)
            inn := Function.update s.inn side r.2.2
            got := Function.update s.got side (s.got side ++ [r.2.1]) }

def start : State := ⟨.greeting, 0, fun _ => 0, fun _ => [], fun _ => [], fun _ => []⟩

/-! ## Reading a packet -/

theorem forward_bytes (p : Packet) (rest : Bytes) :
    forwardMySQLPacket (p.bytes ++ rest) = some (firstTwo p.payload, p.bytes, rest) := by
  have hs := p.small
  have hh : p.header.length = 4 := rfl
  have hl : (p.header.getD 0 0).toNat + (p.header.getD 1 0).toNat * 2 ^ 8 +
      (p.header.getD 2 0).toNat * 2 ^ 16 = p.payload.length := by
    simp only [Packet.header, List.getD_cons_zero, List.getD_cons_succ, UInt8.toNat_ofNat']
    omega
  unfold forwardMySQLPacket Packet.bytes
  rw [List.append_assoc, readFull_append hh, Option.bind_some]
  dsimp only
  rw [hl, readFull_append rfl, Option.map_some]

/-! ## Between two places of the dialogue -/

section dialogue

variable {items : List (Side × Packet)} {side : Side} {x : Side × Packet} {i j : Nat}

/-- What a side says from place `i` up to place `j`. -/
def between (items : List (Side × Packet)) (side : Side) (i j : Nat) : Bytes :=
  (((items.take j).drop i).filter (·.1 = side)).flatMap (·.2.bytes)

theorem between_nil (h : j ≤ i) : between items side i j = [] := by
  unfold between
  rw [List.drop_eq_nil_of_le (by rw [List.length_take]; omega)]
  rfl

theorem between_succ (h : i ≤ j) (hx : items[j]? = some x) : between items side i (j + 1) =
    between items side i j ++ if x.1 = side then x.2.bytes else [] := by
  obtain ⟨hj, -⟩ := List.getElem?_eq_some_iff.mp hx
  have ht : (items.take (j + 1)).drop i = (items.take j).drop i ++ [x] := by
    rw [List.take_add_one, hx, List.drop_append_of_le_length (by rw [List.length_take]; omega)]
    rfl
  unfold between
  rw [ht, List.filter_append, List.flatMap_append]
  split
  · rename_i h
    simp [h]
  · rename_i h
    simp [h]

theorem between_cons (h : i < j) (hx : items[i]? = some x) : between items side i j =
    (if x.1 = side then x.2.bytes else []) ++ between items side (i + 1) j := by
  obtain ⟨hi, hxi⟩ := List.getElem?_eq_some_iff.mp hx
  have ht : (items.take j).drop i = x :: (items.take j).drop (i + 1) := by
    rw [List.drop_eq_getElem_cons (by rw [List.length_take]; omega), List.getElem_take, hxi]
  unfold between
  rw [ht, List.filter_cons]
  split
  · rename_i h
    rw [if_pos (of_decide_eq_true h), List.flatMap_cons]
  · rename_i h
    rw [if_neg (by simpa using h), List.nil_append]

/-- A place where the other side speaks adds nothing. -/
theorem between_skip_right (hx : items[j]? = some x) (hne : x.1 ≠ side) :
    between items side i (j + 1) = between items side i j := by
  by_cases h : i ≤ j
  · rw [between_succ h hx, if_neg hne, List.append_nil]
  · rw [between_nil (by omega), between_nil (by omega)]

theorem between_skip_left (hx : items[i]? = some x) (hne : x.1 ≠ side) :
    between items side i j = between items side (i + 1) j := by
  by_cases h : i < j
  · rw [between_cons h hx, if_neg hne, List.nil_append]
  · rw [between_nil (by omega), between_nil (by omega)]

end dialogue

/-! ## The turns of the proxy -/

/-- The proxy reads the packets of the list from their senders, and returns with the last one. -/
def Fits : Pc → List (Side × Packet) → Prop
  | pc, [] => pc = .returned
  | pc, x :: rest => pc.reads = some x.1 ∧ Fits (pc.next (firstTwo x.2.payload)) rest

/-- The packet does not begin like fast_auth_success when it is answered. -/
def Round.Clear : Round → Prop
  | .asked p _ => firstTwo p.payload ≠ (mysqlPktAuthMoreData, mysqlSha2FastAuthSuccess)
  | .fast _ => True

theorem fits_rounds {rounds : List Round} (hp : ∀ r ∈ rounds, r.Proper)
    (hc : ∀ r ∈ rounds, r.Clear) {last : Packet}
    (he : (firstTwo last.payload).1 = mysqlPktOK ∨ (firstTwo last.payload).1 = mysqlPktERR)
    {round : Nat} (hl : round + rounds.length < maxRounds) :
    Fits (.server round) (rounds.flatMap Round.items ++ [(.server, last)]) := by
  induction rounds generalizing round with
  | nil =>
    refine ⟨rfl, ?_⟩
    rw [Fits, Pc.next, if_pos he]
  | cons r rounds ih =>
    rw [List.length_cons] at hl
    have hr := @ih (fun r hm => hp r (List.mem_cons_of_mem _ hm))
      (fun r hm => hc r (List.mem_cons_of_mem _ hm)) (round + 1) (by omega)
    have hn : nextRound round = .server (round + 1) := if_pos (by omega)
    have hrp := hp r List.mem_cons_self
    have hrc := hc r List.mem_cons_self
    rw [List.flatMap_cons, List.append_assoc]
    cases r with
    | fast p =>
      have hf : firstTwo p.payload = (mysqlPktAuthMoreData, mysqlSha2FastAuthSuccess) := by
        rw [show p.payload = _ from hrp]
        rfl
      refine ⟨rfl, ?_⟩
      rw [hf, Pc.next, if_neg (by decide), if_pos ⟨rfl, rfl⟩, hn]
      exact hr
    | asked p answer =>
      have hnext : Pc.next (.server round) (firstTwo p.payload) = .client round := by
        unfold Round.Proper at hrp
        unfold Round.Clear at hrc
        dsimp only at hrp hrc
        generalize firstTwo p.payload = bytes at hrp hrc ⊢
        obtain ⟨first, second⟩ := bytes
        have hk : first = mysqlPktAuthSwitchReq ∨ first = mysqlPktAuthMoreData :=
          hrp.imp_right And.left
        rw [Pc.next, if_neg, if_neg]
        · rintro ⟨rfl, rfl⟩
          exact hrc rfl
        · obtain rfl | rfl := hk <;> decide
      refine ⟨rfl, ?_⟩
      rw [hnext]
      refine ⟨rfl, ?_⟩
      rw [Pc.next, hn]
      exact hr

theorem fits_dialogue (ph : Phase) (hc : ∀ r ∈ ph.rounds, r.Clear) :
    Fits .greeting ph.dialogue :=
  ⟨rfl, rfl, fits_rounds ph.proper hc ph.ends (by have := ph.few; omega)⟩

/-! ## Where the parties stand -/

section parties

variable {items : List (Side × Packet)} {s t : State} {side : Side} {x : Side × Packet}

/-- What is under way is what was sent and not yet read, and nobody is ahead of the packets that
the others have to send first. -/
structure Standing (items : List (Side × Packet)) (s : State) : Prop where
  fits : Fits s.pc (items.drop s.forwarded)
  out : ∀ side, s.out side = between items side s.forwarded (s.pos side)
  inn : ∀ side, s.inn side = between items side.other (s.pos side) s.forwarded
  sent : ∀ i x, i < s.forwarded → items[i]? = some x → i < s.pos x.1
  seen : ∀ side i x, i < s.pos side → items[i]? = some x → x.1 ≠ side → i < s.forwarded
  got : ∀ side, s.got side =
    ((items.take (s.pos side)).filter (·.1 ≠ side)).map (·.2.bytes)
  bound : s.forwarded ≤ items.length ∧ ∀ side, s.pos side ≤ items.length

theorem Standing.next_item (h : Standing items s) (hr : s.pc.reads = some side) :
    ∃ x, items[s.forwarded]? = some x ∧ x.1 = side ∧
      Fits (s.pc.next (firstTwo x.2.payload)) (items.drop (s.forwarded + 1)) := by
  have hf := h.fits
  by_cases hl : s.forwarded < items.length
  · rw [List.drop_eq_getElem_cons hl] at hf
    refine ⟨_, List.getElem?_eq_getElem hl, ?_, hf.2⟩
    exact Option.some.inj (hf.1.symm.trans hr)
  · rw [List.drop_eq_nil_of_le (by omega)] at hf
    rw [show s.pc = .returned from hf] at hr
    cases hr

/-- A side reads the next packet of the dialogue, when that has been passed on. -/
theorem Standing.forward_inn (h : Standing items s) (hx : items[s.pos side]? = some x)
    (hne : x.1 ≠ side) : forwardMySQLPacket (s.inn side) =
      if s.pos side < s.forwarded then
        some (firstTwo x.2.payload, x.2.bytes,
          between items side.other (s.pos side + 1) s.forwarded)
      else none := by
  rw [h.inn side]
  split
  · rename_i hlt
    rw [between_cons hlt hx, if_pos (Side.eq_other_of_ne hne)]
    exact forward_bytes _ _
  · rw [between_nil (by omega)]
    rfl

/-- The proxy reads the next packet, when that has been sent. -/
theorem Standing.forward_out (h : Standing items s) (hx : items[s.forwarded]? = some x) :
    forwardMySQLPacket (s.out x.1) =
      if s.forwarded < s.pos x.1 then
        some (firstTwo x.2.payload, x.2.bytes, between items x.1 (s.forwarded + 1) (s.pos x.1))
      else none := by
  rw [h.out x.1]
  split
  · rename_i hlt
    rw [between_cons hlt hx, if_pos rfl]
    exact forward_bytes _ _
  · rw [between_nil (by omega)]
    rfl

theorem standing_proxy (h : Standing items s) (hs : step items s .proxy = some t) :
    Standing items t ∧ t.forwarded = s.forwarded + 1 ∧ t.pos = s.pos := by
  obtain ⟨side, hr, hs⟩ := Option.bind_eq_some_iff.mp hs
  obtain ⟨x, hx, rfl, hfit⟩ := h.next_item hr
  rw [h.forward_out hx] at hs
  split at hs
  · rename_i hlt
    rw [Option.map_some, Option.some.injEq] at hs
    subst hs
    have hle : s.pos x.1.other ≤ s.forwarded := by
      by_contra hgt
      exact absurd (h.seen _ _ _ (not_le.mp hgt) hx x.1.ne_other) (lt_irrefl _)
    refine ⟨⟨hfit, ?_, ?_, ?_, ?_, h.got, ?_, h.bound.2⟩, rfl, rfl⟩
    · intro side
      by_cases hside : side = x.1
      · rw [hside]
        exact Function.update_self _ _ _
      · dsimp only
        rw [Function.update_of_ne hside, h.out side, between_skip_left hx (Ne.symm hside)]
    · intro side
      dsimp only
      by_cases hside : side = x.1.other
      · rw [hside, Function.update_self, h.inn, Side.other_other, between_succ hle hx, if_pos rfl]
      · have hx' : x.1 ≠ side.other := by
          intro he
          rw [he, Side.other_other] at hside
          exact hside rfl
        rw [Function.update_of_ne hside, h.inn side, between_skip_right hx hx']
    · intro i y hi hy
      obtain hi | rfl := Nat.lt_succ_iff_lt_or_eq.mp hi
      · exact h.sent i y hi hy
      · obtain rfl := Option.some.inj (hx.symm.trans hy)
        exact hlt
    · intro side i y hi hy hne
      exact (h.seen side i y hi hy hne).trans (Nat.lt_succ_self _)
    · exact (List.getElem?_eq_some_iff.mp hx).1
  · cases hs

/-- What a side has read, after one more place of the dialogue. -/
theorem got_succ {j : Nat} (hx : items[j]? = some x) :
    ((items.take (j + 1)).filter (·.1 ≠ side)).map (·.2.bytes) =
      ((items.take j).filter (·.1 ≠ side)).map (·.2.bytes) ++
        if x.1 = side then [] else [x.2.bytes] := by
  rw [List.take_add_one, hx, Option.toList_some, List.filter_append, List.map_append]
  by_cases h : x.1 = side <;> simp [h]

/-- A side goes on by one place of the dialogue. -/
theorem Standing.advance (h : Standing items s) (hx : items[s.pos side]? = some x)
    {o n : Bytes} {g : List Bytes} (ho : o = between items side s.forwarded (s.pos side + 1))
    (hn : n = between items side.other (s.pos side + 1) s.forwarded)
    (hg : g = ((items.take (s.pos side + 1)).filter (·.1 ≠ side)).map (·.2.bytes))
    (hseen : x.1 ≠ side → s.pos side < s.forwarded) :
    Standing items { s with
      pos := Function.update s.pos side (s.pos side + 1)
      out := Function.update s.out side o
      inn := Function.update s.inn side n
      got := Function.update s.got side g } := by
  refine ⟨h.fits, ?_, ?_, ?_, ?_, ?_, h.bound.1, ?_⟩
  · intro side'
    dsimp only
    by_cases hs : side' = side
    · rw [hs, Function.update_self, Function.update_self, ho]
    · rw [Function.update_of_ne hs, Function.update_of_ne hs, h.out]
  · intro side'
    dsimp only
    by_cases hs : side' = side
    · rw [hs, Function.update_self, Function.update_self, hn]
    · rw [Function.update_of_ne hs, Function.update_of_ne hs, h.inn]
  · intro i y hi hy
    dsimp only
    have hlt := h.sent i y hi hy
    by_cases hs : y.1 = side
    · rw [hs, Function.update_self]
      rw [hs] at hlt
      omega
    · rw [Function.update_of_ne hs]
      exact hlt
  · intro side' i y hi hy hne
    dsimp only at hi
    by_cases hs : side' = side
    · rw [hs] at hne
      rw [hs, Function.update_self] at hi
      obtain hi | rfl := Nat.lt_succ_iff_lt_or_eq.mp hi
      · exact h.seen side i y hi hy hne
      · obtain rfl := Option.some.inj (hx.symm.trans hy)
        exact hseen hne
    · rw [Function.update_of_ne hs] at hi
      exact h.seen side' i y hi hy hne
  · intro side'
    dsimp only
    by_cases hs : side' = side
    · rw [hs, Function.update_self, Function.update_self, hg]
    · rw [Function.update_of_ne hs, Function.update_of_ne hs, h.got]
  · intro side'
    dsimp only
    by_cases hs : side' = side
    · rw [hs, Function.update_self]
      exact (List.getElem?_eq_some_iff.mp hx).1
    · rw [Function.update_of_ne hs]
      exact h.bound.2 side'

/-- Its own packet is sent, the other's is read. -/
theorem standing_peer (h : Standing items s) (hs : step items s (.peer side) = some t) :
    Standing items t ∧ t.forwarded = s.forwarded ∧
      t.pos = Function.update s.pos side (s.pos side + 1) := by
  obtain ⟨x, hx, hs⟩ := Option.bind_eq_some_iff.mp hs
  split at hs
  · rename_i hside
    obtain rfl := Option.some.inj hs
    have hle : s.forwarded ≤ s.pos side := by
      by_contra hgt
      have hlt := h.sent _ _ (not_le.mp hgt) hx
      rw [hside] at hlt
      exact lt_irrefl _ hlt
    have hadv := @Standing.advance _ s side x h hx (s.out side ++ x.2.bytes) (s.inn side)
      (s.got side) (by rw [h.out, between_succ hle hx, if_pos hside])
      (by rw [h.inn, between_skip_left hx (hside ▸ side.ne_other)])
      (by rw [got_succ hx, if_pos hside, List.append_nil, h.got]) (fun hne => absurd hside hne)
    rw [Function.update_eq_self, Function.update_eq_self] at hadv
    exact ⟨hadv, rfl, rfl⟩
  · rename_i hside
    rw [h.forward_inn hx hside] at hs
    split at hs
    · rename_i hlt
      rw [Option.map_some, Option.some.injEq] at hs
      subst hs
      have hadv := @Standing.advance _ s side x h hx (s.out side) _ _
        (by rw [h.out, between_skip_right hx hside]) rfl
        (by rw [got_succ hx, if_neg hside, ← h.got]) (fun _ => hlt)
      rw [Function.update_eq_self] at hadv
      exact ⟨hadv, rfl, rfl⟩
    · cases hs

/-- A side that has packets of the dialogue before it can go on. -/
theorem Standing.peer_behind (h : Standing items s) (hlt : s.pos side < s.forwarded) :
    step items s (.peer side) ≠ none := by
  have hl : s.pos side < items.length := lt_of_lt_of_le hlt h.bound.1
  obtain ⟨x, hx⟩ : ∃ x, items[s.pos side]? = some x := ⟨_, List.getElem?_eq_getElem hl⟩
  have hne : x.1 ≠ side := by
    intro he
    have hpos := h.sent _ _ hlt hx
    rw [he] at hpos
    exact lt_irrefl _ hpos
  rw [step, hx, Option.bind_some, if_neg hne, h.forward_inn hx hne, if_pos hlt]
  simp

/-- The side that the proxy waits for can go on. -/
theorem Standing.peer_moves (h : Standing items s) (hr : s.pc.reads = some side)
    (hw : step items s .proxy = none) : step items s (.peer side) ≠ none := by
  obtain ⟨x, hx, rfl, -⟩ := h.next_item hr
  have hle : s.pos x.1 ≤ s.forwarded := by
    by_contra hgt
    rw [step, hr, Option.bind_some, h.forward_out hx, if_pos (not_le.mp hgt)] at hw
    cases hw
  obtain hlt | heq := Nat.lt_or_eq_of_le hle
  · exact h.peer_behind hlt
  · rw [step, heq, hx, Option.bind_some, if_pos rfl]
    simp

theorem standing_step {a : Act} (h : Standing items s) (hs : step items s a = some t) :
    Standing items t := by
  cases a with
  | proxy => exact (standing_proxy h hs).1
  | peer side => exact (standing_peer h hs).1

/-- The proxy reads from a side as long as packets of the dialogue are left. -/
theorem Standing.returned_iff (h : Standing items s) :
    s.pc = .returned ↔ s.forwarded = items.length := by
  have hf := h.fits
  by_cases hl : s.forwarded < items.length
  · rw [List.drop_eq_getElem_cons hl] at hf
    refine iff_of_false (fun he => ?_) hl.ne
    rw [he] at hf
    cases hf.1
  · rw [List.drop_eq_nil_of_le (by omega)] at hf
    exact iff_of_true hf (le_antisymm h.bound.1 (not_lt.mp hl))

/-- Where nothing can go on, everything has arrived. -/
theorem Standing.all_arrived (h : Standing items s) (hw : ∀ a, step items s a = none) :
    s.forwarded = items.length ∧ ∀ side, s.pos side = items.length := by
  have hf : s.forwarded = items.length := by
    rw [← h.returned_iff]
    have hfit := h.fits
    by_contra hne
    cases hd : items.drop s.forwarded with
    | nil =>
      rw [hd] at hfit
      exact hne hfit
    | cons x rest =>
      rw [hd] at hfit
      exact h.peer_moves hfit.1 (hw .proxy) (hw (.peer x.1))
  refine ⟨hf, fun side => ?_⟩
  by_contra hne
  have hb := h.bound.2 side
  exact h.peer_behind (by omega) (hw (.peer side))

/-- The places of the dialogue that the three parties have still before them. -/
def left (items : List (Side × Packet)) (s : State) : Nat :=
  3 * items.length - (s.forwarded + s.pos .client + s.pos .server)

theorem left_step {a : Act} (h : Standing items s) (hs : step items s a = some t) :
    left items t < left items s := by
  have hb := (standing_step h hs).bound
  have hc := hb.2 .client
  have hv := hb.2 .server
  unfold left
  cases a with
  | proxy =>
    obtain ⟨-, hf, hp⟩ := standing_proxy h hs
    rw [hp] at hc hv ⊢
    omega
  | peer side =>
    obtain ⟨-, hf, hp⟩ := standing_peer h hs
    cases side with
    | client =>
      rw [hp, Function.update_of_ne (by decide)] at hv
      rw [hp, Function.update_self] at hc
      rw [hp, Function.update_self, Function.update_of_ne (by decide)]
      omega
    | server =>
      rw [hp, Function.update_of_ne (by decide)] at hc
      rw [hp, Function.update_self] at hv
      rw [hp, Function.update_self, Function.update_of_ne (by decide)]
      omega

theorem standing_start (h : Fits .greeting items) : Standing items start :=
  ⟨h, fun _ => rfl, fun _ => rfl, fun _ _ hi => absurd hi (Nat.not_lt_zero _),
    fun _ _ _ hi => absurd hi (Nat.not_lt_zero _), fun _ => rfl, Nat.zero_le _,
    fun _ => Nat.zero_le _⟩

end parties

/-! ## The law -/

/-- The packets of a side, as they are sent. -/
def Phase.saidBy (ph : Phase) (side : Side) : List Bytes :=
  (ph.dialogue.filter (·.1 = side)).map (·.2.bytes)

structure Relays (ph : Phase) : Prop where
  never_crossed : ∀ acts s side, run (step ph.dialogue) start acts = some s →
    s.pc.reads = some side → step ph.dialogue s .proxy = none →
    step ph.dialogue s (.peer side) ≠ none
  unchanged : ∀ acts s side, run (step ph.dialogue) start acts = some s →
    s.got side <+: ph.saidBy side.other
  returns : ∀ acts s, run (step ph.dialogue) start acts = some s →
    (s.pc = .returned ↔ s.forwarded = ph.dialogue.length)
  bounded : ∀ acts s, run (step ph.dialogue) start acts = some s →
    acts.length ≤ 3 * ph.dialogue.length
  completes : ∀ acts s, run (step ph.dialogue) start acts = some s →
    (∀ a, step ph.dialogue s a = none) → s.pc = .returned ∧
      ∀ side, s.got side = ph.saidBy side.other ∧ s.out side = [] ∧ s.inn side = []

theorem filter_ne (items : List (Side × Packet)) (side : Side) :
    items.filter (·.1 ≠ side) = items.filter (·.1 = side.other) := by
  apply List.filter_congr
  intro x _
  apply decide_eq_decide.mpr
  refine ⟨Side.eq_other_of_ne, fun h he => ?_⟩
  exact side.ne_other (he.symm.trans h)

/-- The law of the handshake. -/
theorem handshake_relays (ph : Phase) (hc : ∀ r ∈ ph.rounds, r.Clear) : Relays ph := by
  have hs := standing_start (fits_dialogue ph hc)
  have hall {acts : List Act} {s : State} (hr : run (step ph.dialogue) start acts = some s) :
      Standing ph.dialogue s :=
    run_preserves (Standing ph.dialogue) (fun _ _ _ hst h => standing_step h hst) hr hs
  refine ⟨?_, ?_, ?_, ?_, ?_⟩
  · intro acts s side hr hreads hw
    exact (hall hr).peer_moves hreads hw
  · intro acts s side hr
    rw [(hall hr).got side, filter_ne]
    exact ((List.take_prefix _ _).filter _).map _
  · intro acts s hr
    exact (hall hr).returned_iff
  · intro acts s hr
    have hle := length_le_weight (left ph.dialogue) (fun _ _ _ hst h => standing_step h hst)
      (fun _ => True) (fun _ _ _ h _ hst => left_step h hst) hs (fun _ _ => trivial) hr
    exact hle.trans (Nat.sub_le _ _)
  · intro acts s hr hw
    have h := hall hr
    obtain ⟨hf, hp⟩ := h.all_arrived hw
    refine ⟨h.returned_iff.mpr hf, fun side => ⟨?_, ?_, ?_⟩⟩
    · rw [h.got side, hp side, List.take_length, filter_ne]
      rfl
    · rw [h.out side, hf, hp side, between_nil le_rfl]
    · rw [h.inn side, hf, hp side, between_nil le_rfl]

/-! ## Two phases -/

theorem single_small (a : UInt8) : [a].length < 2 ^ 24 := (by decide : 1 < 2 ^ 24)

theorem pair_small (a b : UInt8) : [a, b].length < 2 ^ 24 := (by decide : 2 < 2 ^ 24)

theorem triple_small (a b c : UInt8) : [a, b, c].length < 2 ^ 24 := (by decide : 3 < 2 ^ 24)

def single (a : UInt8) : Packet := ⟨0, [a], single_small a⟩

def fastAuth : Packet := ⟨2, [1, 3], pair_small 1 3⟩

def fullAuth : Packet := ⟨2, [1, 4], pair_small 1 4⟩

/-- AuthMoreData of a plugin whose data begins with the byte 3. -/
def moreData : Packet := ⟨2, [1, 3, 7], triple_small 1 3 7⟩

theorem single_ends : (firstTwo (single 0).payload).1 = mysqlPktOK ∨
    (firstTwo (single 0).payload).1 = mysqlPktERR := .inl rfl

/-- AuthSwitchRequest and AuthMoreData, both answered, and then fast_auth_success. -/
def switchRounds : List Round :=
  [.asked (single mysqlPktAuthSwitchReq) (single 7),
   .asked fullAuth (single 9), .fast fastAuth]

theorem switch_proper : ∀ r ∈ switchRounds, r.Proper := by
  have hne : ([1, 4] : Bytes) ≠ [1, 3] := by decide
  simp only [switchRounds, List.forall_mem_cons]
  exact ⟨.inl rfl, .inr ⟨rfl, hne⟩, rfl, by simp⟩

theorem few_rounds : switchRounds.length + 1 ≤ maxRounds := by decide

def switchPhase : Phase :=
  ⟨single 10, single 1, switchRounds, single 0, switch_proper, single_ends, few_rounds⟩

theorem switchPhase_relays : (∀ r ∈ switchPhase.rounds, r.Clear) ∧ Relays switchPhase := by
  have hc : ∀ r ∈ switchPhase.rounds, r.Clear := by
    simp only [switchPhase, switchRounds, List.forall_mem_cons, Round.Clear]
    exact ⟨by decide, by decide, trivial, by simp⟩
  exact ⟨hc, handshake_relays switchPhase hc⟩

theorem asked_proper : ∀ r ∈ [Round.asked moreData (single 0)], r.Proper := by
  intro r hr
  obtain rfl := List.mem_singleton.mp hr
  refine .inr ⟨rfl, fun h => ?_⟩
  cases h

theorem one_round : 1 + 1 ≤ maxRounds := by decide

def askedPhase : Phase :=
  ⟨single 10, single 1, [.asked moreData (single 0)], single 0, asked_proper, single_ends,
   one_round⟩

/-- The greeting, the response, and the packet that the server wants an answer to. -/
def untilAsked : List Act :=
  [.peer .server, .proxy, .peer .client, .peer .client, .proxy, .peer .server, .peer .server,
   .proxy]

theorem both_wait : ∃ s, run (step askedPhase.dialogue) start untilAsked = some s ∧
    s.pc.reads = some .server ∧ step askedPhase.dialogue s .proxy = none ∧
    step askedPhase.dialogue s (.peer .server) = none := by
  have h : ((run (step askedPhase.dialogue) start untilAsked).any fun s =>
      decide (s.pc.reads = some .server) && (step askedPhase.dialogue s .proxy).isNone &&
        (step askedPhase.dialogue s (.peer .server)).isNone) = true := by decide
  rw [Option.any_eq_true] at h
  obtain ⟨s, hs, h⟩ := h
  simp only [Bool.and_eq_true, decide_eq_true_eq, Option.isNone_iff_eq_none] at h
  exact ⟨s, hs, h.1.1, h.1.2, h.2⟩

end faultbox.mysql_handshake
