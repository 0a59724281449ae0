-- Corruption of a packet with a repaired checksum. The law: a packet comes out as it was but
-- for the payload bytes in the window of the rule and the checksum field of its transport
-- header, and the checksum is right for what it holds. Where the payload ends before the
-- window, the packet is left alone.
import Faultbox.GoValues
import Faultbox.InternetChecksum

open goval (wrap Fits)
open inet

namespace faultbox.corruption

/-! ## The headers -/

def byteAt (b : Bytes) (i : Nat) : Nat := (b.getD i 0).toNat

def uint16At (b : Bytes) (i : Nat) : Nat := byteAt b i * 256 + byteAt b (i + 1)

def putUint16 (b : Bytes) (i v : Nat) : Bytes := b.take i ++ high v :: low v :: b.drop (i + 2)

def headerLength (ip : Bytes) : Nat := byteAt ip 0 % 16 * 4
def totalLength (ip : Bytes) : Nat := uint16At ip 2
def transportProtocol (ip : Bytes) : Nat := byteAt ip 9
def dataOffset (tcp : Bytes) : Nat := byteAt tcp 12 / 16 * 4

/-- `IPv4.IsValid`. -/
def isValid (ip : Bytes) : Bool :=
  20 ≤ headerLength ip && headerLength ip ≤ totalLength ip && totalLength ip ≤ ip.length &&
    byteAt ip 0 / 16 == 4

inductive Protocol where
  | tcp | udp | icmp | other
deriving DecidableEq

/-- `Parse`, up to the protocol of the view, by the accessors of a header; `none` for a packet
that passes as it is. -/
def parseWith (isValid : Bytes → Bool) (headerLength transportProtocol dataOffset : Bytes → Nat)
    (b : Bytes) : Option Protocol :=
  if b.length < 20 then none
  else if ¬ isValid b then none
  else if headerLength b < 20 ∨ b.length < headerLength b then none
  else
    let rest := b.drop (headerLength b)
    if transportProtocol b = 6 then
      if rest.length < 20 then none
      else if dataOffset rest < 20 ∨ rest.length < dataOffset rest then none
      else some .tcp
    else if transportProtocol b = 17 then if rest.length < 8 then none else some .udp
    else if transportProtocol b = 1 then some .icmp
    else some .other

def parse : Bytes → Option Protocol := parseWith isValid headerLength transportProtocol dataOffset

/-! ## The fault -/

inductive CorruptMode where
  | flip | zero | random

inductive ChecksumPolicy where
  | fix | broken
deriving DecidableEq

/-- The parameters of a corruption, with what `Validate` asks of them. -/
structure Rule where
  offset : Int
  length : Int
  mode : CorruptMode
  checksum : ChecksumPolicy
  from_start : 0 ≤ offset ∧ Fits offset
  some_bytes : 1 ≤ length ∧ Fits length

/-- The bytes from `start` up to `stop`; `draws` are those of the seeded generator. -/
def mutate (mode : CorruptMode) (draws : Nat → UInt8) (start stop : Int) (payload : Bytes) :
    Bytes :=
  payload.mapIdx fun i c =>
    if start ≤ i ∧ i < stop then
      match mode with
      | .zero => 0
      | .random => draws (i - start).toNat
      | .flip => c ^^^ 0xFF
    else c

/-- `PseudoHeaderChecksum`: both addresses, the length and the number of the protocol. -/
def pseudoHeaderChecksum (number : UInt8) (ip : Bytes) (length : Nat) : Nat :=
  inet.checksum ((ip.drop 12).take 8 ++ [high length, low length, 0, number]) 0

def Protocol.number : Protocol → UInt8
  | .tcp => 6
  | _ => 17

def Protocol.field : Protocol → Nat
  | .tcp => 16
  | _ => 6

/-- `recomputeChecksum`, on the bytes behind the IP header. -/
def recomputeChecksum (ip rest : Bytes) (proto : Protocol) : Bytes :=
  if proto = .tcp ∨ proto = .udp then
    let zeroed := putUint16 rest proto.field 0
    let xsum := pseudoHeaderChecksum proto.number ip (rest.length % 65536)
    putUint16 zeroed proto.field (65535 - inet.checksum zeroed xsum)
  else rest

/-- Where the payload begins; `none` where the header is too short, or of another protocol. -/
def payloadOff (proto : Protocol) (rest : Bytes) : Option Nat :=
  match proto with
  | .tcp => if rest.length < 20 then none else some (dataOffset rest)
  | .udp => if rest.length < 8 then none else some 8
  | _ => none

/-- `corrupt`, with the count of mutations that were skipped. -/
def corrupt (rule : Rule) (proto : Protocol) (draws : Nat → UInt8) (aliased : Bool) (b : Bytes)
    (skipped : Nat) : Bytes × Nat :=
  if ¬ aliased then (b, skipped + 1)
  else if b.length < 20 then (b, skipped)
  else if b.length < headerLength b then (b, skipped)
  else
    let rest := b.drop (headerLength b)
    match payloadOff proto rest with
    | none => (b, skipped)
    | some off =>
      if rest.length < off then (b, skipped)
      else
        let payload := rest.drop off
        if payload.length ≤ rule.offset then (b, skipped)
        else
          let stop := min (wrap (rule.offset + rule.length)) payload.length
          let rest := rest.take off ++ mutate rule.mode draws rule.offset stop payload
          (b.take (headerLength b) ++
            (if rule.checksum = .fix then recomputeChecksum b rest proto else rest), skipped)

/-! ## The law -/

/-- A whole packet of TCP or UDP. -/
structure WellFormed (b : Bytes) (proto : Protocol) : Prop where
  parsed : parse b = some proto
  transport : proto = .tcp ∨ proto = .udp
  whole : totalLength b = b.length
  unfragmented : uint16At b 6 % 2 ^ 14 = 0
  udpLength : proto = .udp → uint16At b (headerLength b + 4) = b.length - headerLength b

def transportLength (b : Bytes) (proto : Protocol) : Nat :=
  if proto = .tcp then dataOffset (b.drop (headerLength b)) else 8

def payloadStart (b : Bytes) (proto : Protocol) : Nat := headerLength b + transportLength b proto

/-- The receiver accepts the checksum of the transport header. -/
def Verifies (b : Bytes) (proto : Protocol) : Prop :=
  inet.checksum (b.drop (headerLength b))
    (pseudoHeaderChecksum proto.number b (totalLength b - headerLength b)) = 65535

/-- What a corruption may touch, and what it leaves right. -/
structure Confined (rule : Rule) (proto : Protocol) (b b' : Bytes) : Prop where
  length : b'.length = b.length
  untouched : ∀ i : Nat, b'[i]? ≠ b[i]? →
    (payloadStart b proto + rule.offset ≤ i ∧
      i < payloadStart b proto + rule.offset + rule.length ∧ i < b.length) ∨
    (headerLength b + proto.field ≤ i ∧ i < headerLength b + proto.field + 2)
  verifies : Verifies b' proto

section fields

variable {b : Bytes} {k : Nat}

theorem length_putUint16 (h : k + 2 ≤ b.length) (v : Nat) :
    (putUint16 b k v).length = b.length := by
  simp only [putUint16, List.length_append, List.length_take, List.length_cons, List.length_drop]
  omega

theorem putUint16_putUint16 (h : k + 2 ≤ b.length) (u v : Nat) :
    putUint16 (putUint16 b k u) k v = putUint16 b k v := by
  have hlen : (b.take k).length = k := by
    rw [List.length_take]
    omega
  have hd : (b.take k ++ high u :: low u :: b.drop (k + 2)).drop (k + 2) = b.drop (k + 2) := by
    rw [List.drop_append, hlen, List.drop_of_length_le (by omega), Nat.add_sub_cancel_left]
    rfl
  unfold putUint16
  rw [List.take_left' hlen, hd]

theorem getElem?_putUint16 (h : k + 2 ≤ b.length) {i : Nat} (hi : i < k ∨ k + 2 ≤ i) (v : Nat) :
    (putUint16 b k v)[i]? = b[i]? := by
  have hlen : (b.take k).length = k := by
    rw [List.length_take]
    omega
  unfold putUint16
  rcases hi with hi | hi
  · rw [List.getElem?_append_left (by omega), List.getElem?_take_of_lt hi]
  · obtain ⟨j, rfl⟩ := Nat.exists_eq_add_of_le hi
    rw [List.getElem?_append_right (by omega), hlen, Nat.add_assoc, Nat.add_sub_cancel_left,
      Nat.add_comm 2 j]
    simp only [List.getElem?_cons_succ, List.getElem?_drop]
    congr 1
    omega

theorem byteAt_take {i n : Nat} (h : i < n) (b : Bytes) : byteAt (b.take n) i = byteAt b i := by
  simp [byteAt, List.getD, List.getElem?_take_of_lt h]

theorem byteAt_lt (b : Bytes) (i : Nat) : byteAt b i < 256 := (b.getD i 0).toNat_lt

end fields

theorem Rule.wrap_le (rule : Rule) :
    wrap (rule.offset + rule.length) ≤ rule.offset + rule.length := by
  obtain ⟨hs, -, ho⟩ := rule.from_start
  obtain ⟨hso, -, hl⟩ := rule.some_bytes
  by_cases hf : rule.offset + rule.length < 2 ^ 63
  · rw [goval.wrap_of_fits ⟨by omega, hf⟩]
  · rw [goval.wrap_of_over (by omega) (by omega)]
    omega

section law

variable {rule : Rule} {proto : Protocol} {b : Bytes}

/-- The checks of `Parse` place the payload behind both headers. -/
theorem WellFormed.facts (h : WellFormed b proto) : 20 ≤ headerLength b ∧
    payloadStart b proto ≤ b.length ∧ proto.field + 2 ≤ transportLength b proto ∧
    payloadOff proto (b.drop (headerLength b)) = some (transportLength b proto) := by
  have hp := h.parsed
  unfold parse parseWith at hp
  simp only [List.length_drop] at hp
  unfold payloadStart transportLength payloadOff
  simp only [List.length_drop]
  rcases h.transport with rfl | rfl
  · split_ifs at hp with _ _ hh _ hs ho
    · simp only [if_true, Protocol.field, if_neg hs]
      exact ⟨by omega, by omega, by omega, trivial⟩
    all_goals cases hp
  · split_ifs at hp with _ _ hh _ _ _ _ hs
    · cases hp
    · simp only [reduceCtorEq, if_false, Protocol.field, if_neg hs]
      exact ⟨by omega, by omega, by omega, trivial⟩
    all_goals cases hp

/-- The bytes behind the IP header, with the window changed. -/
def corrupted (rule : Rule) (proto : Protocol) (draws : Nat → UInt8) (b : Bytes) : Bytes :=
  let rest := b.drop (headerLength b)
  let payload := rest.drop (transportLength b proto)
  rest.take (transportLength b proto) ++ mutate rule.mode draws rule.offset
    (min (wrap (rule.offset + rule.length)) payload.length) payload

theorem corrupt_eq (h : WellFormed b proto) (hfix : rule.checksum = .fix) (draws : Nat → UInt8)
    (skipped : Nat) : (corrupt rule proto draws true b skipped).1 =
      if (b.length - payloadStart b proto : Nat) ≤ rule.offset then b
      else b.take (headerLength b) ++ recomputeChecksum b (corrupted rule proto draws b) proto := by
  obtain ⟨hh, hp, hf, hoff⟩ := h.facts
  have hlen : headerLength b + transportLength b proto ≤ b.length := hp
  have hl : b.length - headerLength b - transportLength b proto =
      b.length - payloadStart b proto := by
    rw [payloadStart]
    omega
  unfold corrupt corrupted
  simp only [not_true_eq_false, if_false, if_neg (show ¬ b.length < 20 by omega),
    if_neg (show ¬ b.length < headerLength b by omega), hoff, List.length_drop, hfix, if_true,
    if_neg (show ¬ b.length - headerLength b < transportLength b proto by omega), hl]
  split <;> rfl

theorem length_corrupted (rule : Rule) (proto : Protocol) (draws : Nat → UInt8) (b : Bytes) :
    (corrupted rule proto draws b).length = b.length - headerLength b := by
  simp only [corrupted, mutate, List.length_append, List.length_take, List.length_mapIdx,
    List.length_drop]
  omega

theorem getElem?_corrupted (h : WellFormed b proto) (draws : Nat → UInt8) {j : Nat}
    (hj : (corrupted rule proto draws b)[j]? ≠ b[headerLength b + j]?) :
    transportLength b proto + rule.offset ≤ j ∧
      j < transportLength b proto + rule.offset + rule.length ∧ headerLength b + j < b.length := by
  obtain ⟨hh, hp, -, -⟩ := h.facts
  unfold payloadStart at hp
  have hlen : ((b.drop (headerLength b)).take (transportLength b proto)).length =
      transportLength b proto := by
    rw [List.length_take, List.length_drop]
    omega
  unfold corrupted mutate at hj
  by_cases hf : j < transportLength b proto
  · rw [List.getElem?_append_left (by omega), List.getElem?_take_of_lt hf,
      List.getElem?_drop] at hj
    exact absurd rfl hj
  · obtain ⟨i, rfl⟩ := Nat.exists_eq_add_of_le (Nat.le_of_not_lt hf)
    rw [List.getElem?_append_right (by omega), hlen, Nat.add_sub_cancel_left,
      List.getElem?_mapIdx, List.getElem?_drop, List.getElem?_drop] at hj
    have hin : headerLength b + (transportLength b proto + i) < b.length := by
      by_contra hout
      rw [List.getElem?_eq_none (by omega)] at hj
      exact hj rfl
    have hw : rule.offset ≤ i ∧ i < min (wrap (rule.offset + rule.length))
        (((b.drop (headerLength b)).drop (transportLength b proto)).length : Int) := by
      by_contra hout
      simp only [if_neg hout] at hj
      simp at hj
    have hwr := rule.wrap_le
    omega

theorem recomputeChecksum_eq (h : proto = .tcp ∨ proto = .udp) (ip : Bytes) {rest : Bytes}
    (hlen : proto.field + 2 ≤ rest.length) (hs : rest.length < 65536) :
    ∃ v, v = 65535 - inet.checksum (rest.take proto.field ++ 0 :: 0 :: rest.drop (proto.field + 2))
        (pseudoHeaderChecksum proto.number ip rest.length) ∧
      recomputeChecksum ip rest proto = putUint16 rest proto.field v := by
  refine ⟨_, rfl, ?_⟩
  unfold recomputeChecksum
  rw [if_pos h, Nat.mod_eq_of_lt hs]
  dsimp only
  rw [putUint16_putUint16 hlen]
  rfl

theorem pseudoHeaderChecksum_facts (proto : Protocol) {ip : Bytes} (h : 20 ≤ ip.length)
    (length : Nat) : 0 < pseudoHeaderChecksum proto.number ip length ∧
      pseudoHeaderChecksum proto.number ip length < 65536 := by
  have hlen : ((ip.drop 12).take 8).length = 8 := by
    rw [List.length_take, List.length_drop]
    omega
  have hn : 0 < proto.number.toNat := by cases proto <;> decide
  obtain ⟨hpos, hlt, -⟩ := checksum_facts
    ((ip.drop 12).take 8 ++ [high length, low length, 0, proto.number]) (show 0 < 65536 by decide)
  refine ⟨hpos ?_, hlt⟩
  rw [words_append (by omega), words, words, words, Nat.add_zero]
  have hl := Nat.add_pos_right (UInt8.toNat 0 * 256) hn
  exact Nat.add_pos_right _ (Nat.add_pos_right _ (Nat.add_pos_right _ hl))

theorem header_congr {b' : Bytes} (h : b'.take 20 = b.take 20) :
    headerLength b' = headerLength b ∧ totalLength b' = totalLength b ∧
      (b'.drop 12).take 8 = (b.drop 12).take 8 := by
  have hb : ∀ i, i < 20 → byteAt b' i = byteAt b i := by
    intro i hi
    rw [← byteAt_take hi b', h, byteAt_take hi]
  refine ⟨?_, ?_, ?_⟩
  · rw [headerLength, hb 0 (by decide), headerLength]
  · rw [totalLength, uint16At, hb 2 (by decide), hb 3 (by decide)]
    rfl
  · have hs : ∀ x : Bytes, (x.drop 12).take 8 = (x.take 20).drop 12 := fun x => by
      rw [List.drop_take]
    rw [hs, hs, h]

/-- Only the window and the checksum change, and the checksum is right. -/
theorem corruption_is_confined (h : WellFormed b proto) (hfix : rule.checksum = .fix)
    (draws : Nat → UInt8) (skipped : Nat) :
    let b' := (corrupt rule proto draws true b skipped).1
    ((b.length - payloadStart b proto : Nat) ≤ rule.offset → b' = b) ∧
      (rule.offset < (b.length - payloadStart b proto : Nat) → Confined rule proto b b') := by
  intro b'
  have heq : b' = _ := corrupt_eq h hfix draws skipped
  refine ⟨fun hb => by rw [heq, if_pos hb], fun hin => ?_⟩
  rw [if_neg (not_le.mpr hin)] at heq
  obtain ⟨hh, hp, hf, -⟩ := h.facts
  unfold payloadStart at hp
  have hr := length_corrupted rule proto draws b
  have hro : proto.field + 2 ≤ (corrupted rule proto draws b).length := by omega
  have hs : b.length < 65536 := by
    have h2 := byteAt_lt b 2
    have h3 := byteAt_lt b (2 + 1)
    have hw := h.whole
    unfold totalLength uint16At at hw
    omega
  obtain ⟨v, hv, hre⟩ := recomputeChecksum_eq h.transport b hro (by omega)
  rw [hre] at heq
  have hfr : (b.take (headerLength b)).length = headerLength b := by
    rw [List.length_take]
    omega
  constructor
  · rw [heq, List.length_append, hfr, length_putUint16 hro, hr]
    omega
  · intro i hi
    by_cases hbe : i < headerLength b
    · rw [heq, List.getElem?_append_left (by omega), List.getElem?_take_of_lt hbe] at hi
      exact absurd rfl hi
    · obtain ⟨j, rfl⟩ := Nat.exists_eq_add_of_le (Nat.le_of_not_lt hbe)
      by_cases hc : proto.field ≤ j ∧ j < proto.field + 2
      · right
        omega
      · left
        rw [heq, List.getElem?_append_right (by omega), hfr, Nat.add_sub_cancel_left,
          getElem?_putUint16 hro (by omega)] at hi
        have hwi := getElem?_corrupted h draws hi
        unfold payloadStart
        omega
  · have ht : b'.take 20 = b.take 20 := by
      rw [heq, List.take_append_of_le_length (by omega), List.take_take, min_eq_left hh]
    obtain ⟨hl, hto, ha⟩ := header_congr ht
    have hps := pseudoHeaderChecksum_facts proto (show 20 ≤ b.length by omega)
      (corrupted rule proto draws b).length
    have he : ((corrupted rule proto draws b).take proto.field).length % 2 = 0 := by
      rw [List.length_take, min_eq_left (by omega)]
      cases proto <;> rfl
    unfold Verifies pseudoHeaderChecksum
    rw [hl, hto, ha, h.whole, heq, List.drop_left' hfr, ← hr]
    exact checksum_complement he hps.1 hps.2 hv

end law

def datagram : Bytes :=
  [0x45, 0, 0, 31, 0, 0, 0, 0, 64, 17, 0, 0, 10, 0, 0, 1, 10, 0, 0, 2,
    0, 53, 0, 54, 0, 11, 0, 0, 1, 2, 3]

def flipSecond : Rule where
  offset := 1
  length := 9
  mode := .flip
  checksum := .fix
  from_start := by decide
  some_bytes := by decide

theorem datagram_is_confined :
    Confined flipSecond .udp datagram (corrupt flipSecond .udp (fun _ => 0) true datagram 0).1 ∧
      ((corrupt flipSecond .udp (fun _ => 0) true datagram 0).1.drop 28) = [1, 0xFD, 0xFC] :=
  ⟨(corruption_is_confined ⟨by decide, .inr rfl, by decide, by decide, by decide⟩ rfl _ 0).2
    (by decide), by decide⟩

end faultbox.corruption
