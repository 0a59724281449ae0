-- The flow of a packet: flowID orders the two endpoints by the texts of their addresses, then by
-- their ports, and writes protocol, address and port of both with separators between.
-- The law: two packets have one flow exactly when they have one protocol and the same two
-- endpoints, whichever way they go.
import Faultbox.Corruption
import Faultbox.GoText
import Mathlib.Data.Sym.Sym2

open goval gopath gotext

namespace faultbox.flow_identity

open corruption (Protocol uint16At)

/-! ## The source -/

structure PacketView where
  proto : Protocol
  srcIP : Bytes
  dstIP : Bytes
  srcPort : Nat
  dstPort : Nat
  flow : Bytes

def protoText : Protocol → Bytes
  | .tcp => bytes "tcp"
  | .udp => bytes "udp"
  | .icmp => bytes "icmp"
  | .other => bytes "other"

/-- The loop of `writeUint`, with `free` places left before the digits already written: the array
has one for every digit of a uint64. -/
def writeUintFrom : Nat → Nat → Bytes → Bytes
  | 0, _, digits => digits
  | free + 1, v, digits =>
    let digits := UInt8.ofNat (48 + v % 10) :: digits
    if v / 10 = 0 then digits else writeUintFrom free (v / 10) digits

def writeUint (v : Nat) : Bytes := writeUintFrom 20 v []

def flowID (p : PacketView) : Bytes :=
  let swap := p.dstIP < p.srcIP ∨ (p.srcIP = p.dstIP ∧ p.dstPort < p.srcPort)
  let lo := if swap then (p.dstIP, p.dstPort) else (p.srcIP, p.srcPort)
  let hi := if swap then (p.srcIP, p.srcPort) else (p.dstIP, p.dstPort)
  protoText p.proto ++ [124] ++ lo.1 ++ [58] ++ writeUint lo.2 ++ [45] ++ hi.1 ++ [58] ++
    writeUint hi.2

/-- What the packet library reads from the headers, and the text it gives an address. It is not
code of the repository: the laws are those that the flow rests on. -/
structure Headers (Address : Type) where
  isValid : Bytes → Bool
  headerLength : Bytes → Nat
  transportProtocol : Bytes → Nat
  dataOffset : Bytes → Nat
  sourceAddress : Bytes → Address
  destinationAddress : Bytes → Address
  tcpPorts : Bytes → UInt16 × UInt16
  udpPorts : Bytes → UInt16 × UInt16
  text : Address → Bytes
  text_char : ∀ a, ∀ c ∈ text a, c = 46 ∨ IsDigit c
  text_injective : Function.Injective text

variable {Address : Type} (h : Headers Address)

def Headers.ports (b : Bytes) : Protocol → Nat × Nat
  | .tcp => (h.tcpPorts (b.drop (h.headerLength b))).map UInt16.toNat UInt16.toNat
  | .udp => (h.udpPorts (b.drop (h.headerLength b))).map UInt16.toNat UInt16.toNat
  | .icmp | .other => (0, 0)

/-- `Parse`, with what `flowID` reads. -/
def Headers.parse (b : Bytes) : Option PacketView :=
  (corruption.parseWith h.isValid h.headerLength h.transportProtocol h.dataOffset b).map
    fun proto =>
      let pv : PacketView :=
        ⟨proto, h.text (h.sourceAddress b), h.text (h.destinationAddress b), (h.ports b proto).1,
          (h.ports b proto).2, []⟩
      { pv with flow := flowID pv }

/-! ## Digits -/

theorem writeUintFrom_eq (free v : Nat) (digits : Bytes) (h : v < 10 ^ (free + 1)) :
    writeUintFrom (free + 1) v digits = decimal v ++ digits := by
  induction free generalizing v digits with
  | zero =>
    have hlt : v < 10 := by simpa using h
    have hdiv : v / 10 = 0 := by omega
    simp only [writeUintFrom, hdiv, if_true, decimal_of_lt hlt, Nat.mod_eq_of_lt hlt]
    rfl
  | succ free ih =>
    unfold writeUintFrom
    dsimp only
    split
    · rename_i hdiv
      have hlt : v < 10 := by omega
      rw [decimal_of_lt hlt, Nat.mod_eq_of_lt hlt]
      rfl
    · rename_i hdiv
      have hnext : v / 10 < 10 ^ (free + 1) := by
        rw [Nat.div_lt_iff_lt_mul (by omega), ← Nat.pow_succ]
        exact h
      rw [ih _ _ hnext, decimal_step hdiv, List.append_assoc]
      rfl

theorem writeUint_eq {v : Nat} (h : v < 2 ^ 64) : writeUint v = decimal v :=
  (writeUintFrom_eq 19 v [] (lt_of_lt_of_le h (by norm_num))).trans (List.append_nil _)

/-! ## The order of the endpoints -/

abbrev Endpoint : Type := Bytes × Nat

def Endpoint.before (a b : Endpoint) : Prop := a.1 < b.1 ∨ (a.1 = b.1 ∧ a.2 < b.2)

instance (a b : Endpoint) : Decidable (a.before b) := inferInstanceAs (Decidable (_ ∨ _))

def inOrder (a b : Endpoint) : Endpoint × Endpoint := if b.before a then (b, a) else (a, b)

variable {a b : Endpoint} {c : UInt8} {address : Bytes}

theorem Endpoint.before_asymm (h : a.before b) : ¬ b.before a := by
  rintro (hlt | ⟨he, hlt⟩)
  · rcases h with h | ⟨he, -⟩
    · exact List.lt_asymm h hlt
    · exact List.lt_irrefl _ (he ▸ hlt)
  · rcases h with h | ⟨-, h⟩
    · exact List.lt_irrefl _ (he ▸ h)
    · omega

theorem Endpoint.eq_of_not_before (h : ¬ a.before b) (h' : ¬ b.before a) :
    a = b := by
  obtain ⟨hab, hports⟩ := not_or.mp h
  obtain ⟨hba, hports'⟩ := not_or.mp h'
  have haddr : a.1 = b.1 := by
    by_contra hne
    exact hba (Std.lt_of_le_of_ne (List.not_lt.mp hab) (Ne.symm hne))
  have hle : ¬ a.2 < b.2 := fun hlt => hports ⟨haddr, hlt⟩
  have hge : ¬ b.2 < a.2 := fun hlt => hports' ⟨haddr.symm, hlt⟩
  exact Prod.ext haddr (by omega)

theorem inOrder_comm (a b : Endpoint) : inOrder a b = inOrder b a := by
  unfold inOrder
  by_cases hab : a.before b
  · rw [if_neg (Endpoint.before_asymm hab), if_pos hab]
  · by_cases hba : b.before a
    · rw [if_pos hba, if_neg hab]
    · rw [Endpoint.eq_of_not_before hab hba]

theorem mk_inOrder (a b : Endpoint) : s((inOrder a b).1, (inOrder a b).2) = s(a, b) := by
  unfold inOrder
  split
  · exact Sym2.eq_swap
  · rfl

/-- Two endpoints in order are what the unordered pair is. -/
theorem inOrder_eq_iff (a b c d : Endpoint) : inOrder a b = inOrder c d ↔ s(a, b) = s(c, d) := by
  constructor
  · intro h
    rw [← mk_inOrder a b, h, mk_inOrder]
  · intro h
    rcases Sym2.eq_iff.mp h with ⟨rfl, rfl⟩ | ⟨rfl, rfl⟩
    · rfl
    · exact inOrder_comm _ _

/-! ## The text -/

/-- What stands on one side of the dash. -/
def endText (e : Endpoint) : Bytes := e.1 ++ 58 :: decimal e.2

def flowText (proto : Protocol) (ends : Endpoint × Endpoint) : Bytes :=
  protoText proto ++ 124 :: (endText ends.1 ++ 45 :: endText ends.2)

/-- The endpoint of an address as `Parse` writes it. -/
structure Endpoint.Written (e : Endpoint) : Prop where
  address : ∀ c ∈ e.1, c = 46 ∨ IsDigit c
  port : e.2 < 65536

theorem inOrder_written (ha : a.Written) (hb : b.Written) :
    (inOrder a b).1.Written ∧ (inOrder a b).2.Written := by
  unfold inOrder
  split
  · exact ⟨hb, ha⟩
  · exact ⟨ha, hb⟩

theorem notMem_address {e : Endpoint} (h : e.Written) (hdot : c ≠ 46) (hdigit : ¬ IsDigit c) :
    c ∉ e.1 :=
  fun hc => (h.address c hc).elim hdot hdigit

theorem notMem_endText {e : Endpoint} (h : e.Written) (hdot : c ≠ 46) (hcolon : c ≠ 58)
    (hdigit : ¬ IsDigit c) : c ∉ endText e := by
  intro hc
  rcases List.mem_append.mp hc with hc | hc
  · exact notMem_address h hdot hdigit hc
  · rcases List.mem_cons.mp hc with hc | hc
    · exact hcolon hc
    · exact notMem_decimal hdigit _ hc

theorem endText_injective (ha : a.Written) (h : endText a = endText b) :
    a = b := by
  obtain ⟨haddr, -, hport⟩ := (List.append_cons_inj_of_notMem
    (notMem_address ha (by decide) (by decide)) (notMem_decimal (by decide) _)).mp h
  exact Prod.ext haddr (decimal_injective hport)

theorem protoText_injective {p q : Protocol} (h : protoText p = protoText q) : p = q := by
  cases p <;> cases q <;> first | rfl | exact absurd h (by decide)

theorem bar_notMem_protoText (p : Protocol) : 124 ∉ protoText p := by
  cases p <;> decide

/-- The separators stand nowhere else, so the text gives everything back. -/
theorem flowText_eq_iff {p q : Protocol} {x y : Endpoint × Endpoint} (hx : x.1.Written)
    (hx' : x.2.Written) : flowText p x = flowText q y ↔ p = q ∧ x = y := by
  constructor
  · intro h
    have hbar : 124 ∉ endText x.1 ++ 45 :: endText x.2 := by
      intro hc
      rcases List.mem_append.mp hc with hc | hc
      · exact notMem_endText hx (by decide) (by decide) (by decide) hc
      · rcases List.mem_cons.mp hc with hc | hc
        · exact absurd hc (by decide)
        · exact notMem_endText hx' (by decide) (by decide) (by decide) hc
    obtain ⟨hproto, -, hends⟩ :=
      (List.append_cons_inj_of_notMem (bar_notMem_protoText p) hbar).mp h
    obtain ⟨hlo, -, hhi⟩ := (List.append_cons_inj_of_notMem
      (notMem_endText hx (by decide) (by decide) (by decide))
      (notMem_endText hx' (by decide) (by decide) (by decide))).mp hends
    exact ⟨protoText_injective hproto,
      Prod.ext (endText_injective hx hlo) (endText_injective hx' hhi)⟩
  · rintro ⟨rfl, rfl⟩
    rfl

/-! ## The law -/

def PacketView.src (p : PacketView) : Endpoint := (p.srcIP, p.srcPort)

def PacketView.dst (p : PacketView) : Endpoint := (p.dstIP, p.dstPort)

theorem flowID_eq {p : PacketView} (hs : p.src.Written) (hd : p.dst.Written) :
    flowID p = flowText p.proto (inOrder p.src p.dst) := by
  have hports : ∀ e : Endpoint, e.Written → writeUint e.2 = decimal e.2 :=
    fun e he => writeUint_eq (lt_trans he.port (by norm_num))
  have hsrc : writeUint p.srcPort = decimal p.srcPort := hports p.src hs
  have hdst : writeUint p.dstPort = decimal p.dstPort := hports p.dst hd
  have hswap : (p.dst.before p.src) ↔
      (p.dstIP < p.srcIP ∨ (p.srcIP = p.dstIP ∧ p.dstPort < p.srcPort)) := by
    rw [eq_comm (a := p.srcIP)]
    rfl
  unfold flowID flowText endText
  by_cases h : p.dst.before p.src
  · have horder : inOrder p.src p.dst = (p.dst, p.src) := if_pos h
    rw [horder]
    simp only [if_pos (hswap.mp h), hsrc, hdst, PacketView.src, PacketView.dst]
    simp
  · have horder : inOrder p.src p.dst = (p.src, p.dst) := if_neg h
    rw [horder]
    simp only [if_neg (mt hswap.mpr h), hsrc, hdst, PacketView.src, PacketView.dst]
    simp

theorem Headers.ports_lt (b : Bytes) (proto : Protocol) :
    (h.ports b proto).1 < 65536 ∧ (h.ports b proto).2 < 65536 := by
  cases proto with
  | tcp | udp => exact ⟨UInt16.toNat_lt _, UInt16.toNat_lt _⟩
  | icmp | other => exact ⟨Nat.zero_lt_succ _, Nat.zero_lt_succ _⟩

variable {h}

theorem parse_ends {b : Bytes} {p : PacketView} (hp : h.parse b = some p) :
    p.src = (h.text (h.sourceAddress b), p.srcPort) ∧
    p.dst = (h.text (h.destinationAddress b), p.dstPort) ∧ p.src.Written ∧ p.dst.Written := by
  obtain ⟨proto, -, rfl⟩ := Option.map_eq_some_iff.mp hp
  obtain ⟨hsrc, hdst⟩ := h.ports_lt b proto
  exact ⟨rfl, rfl, ⟨h.text_char _, hsrc⟩, ⟨h.text_char _, hdst⟩⟩

/-- Two packets have one flow exactly when they have one protocol and the same two endpoints, by
address and port, whichever of the two sent the packet. -/
theorem flowID_eq_iff {Address : Type} (h : Headers Address) (b b' : Bytes) (p q : PacketView)
    (hp : h.parse b = some p) (hq : h.parse b' = some q) :
    flowID p = flowID q ↔ p.proto = q.proto ∧
      s((h.sourceAddress b, p.srcPort), (h.destinationAddress b, p.dstPort)) =
        s((h.sourceAddress b', q.srcPort), (h.destinationAddress b', q.dstPort)) := by
  obtain ⟨hsrc, hdst, hs, hd⟩ := parse_ends hp
  obtain ⟨hsrc', hdst', hs', hd'⟩ := parse_ends hq
  have hwritten := inOrder_written hs hd
  have hinj : Function.Injective (Prod.map h.text (id : Nat → Nat)) :=
    h.text_injective.prodMap Function.injective_id
  have hends : ∀ x y z w : Address × Nat, s((h.text x.1, x.2), (h.text y.1, y.2)) =
      s((h.text z.1, z.2), (h.text w.1, w.2)) ↔ s(x, y) = s(z, w) :=
    fun x y z w => (Sym2.map.injective hinj).eq_iff (a := s(x, y)) (b := s(z, w))
  rw [flowID_eq hs hd, flowID_eq hs' hd', flowText_eq_iff hwritten.1 hwritten.2, inOrder_eq_iff,
    hsrc, hdst, hsrc', hdst']
  exact and_congr_right fun _ => hends (_, _) (_, _) (_, _) (_, _)

/-! ## IPv4 on the wire -/

/-- The text of an IPv4 address. -/
def dotted (address : Bytes) : Bytes :=
  List.intercalate [46] (address.map fun c => decimal c.toNat)

theorem mem_dotted (h : c ∈ dotted address) : c = 46 ∨ IsDigit c := by
  induction address with
  | nil => cases h
  | cons a rest ih =>
    unfold dotted at h ih
    cases rest with
    | nil =>
      rw [List.map_singleton, List.intercalate_singleton] at h
      exact .inr (digit_of_mem_decimal h)
    | cons b rest =>
      rw [List.map_cons, List.map_cons, List.intercalate_cons_cons, List.mem_append,
        List.mem_append] at h
      rcases h with (h | h) | h
      · exact .inr (digit_of_mem_decimal h)
      · exact .inl (List.mem_singleton.mp h)
      · exact ih h

theorem dotted_splitOn (h : address ≠ []) :
    (dotted address).splitOn 46 = address.map fun c => decimal c.toNat := by
  refine List.splitOn_intercalate 46 ?_ (by simpa using h)
  intro piece hp
  obtain ⟨c, -, rfl⟩ := List.mem_map.mp hp
  exact notMem_decimal (by decide) _

theorem dotted_ne_nil (h : address ≠ []) : dotted address ≠ [] := by
  intro he
  have hs := dotted_splitOn h
  rw [he, List.splitOn_nil] at hs
  obtain ⟨a, rest, rfl⟩ := List.exists_cons_of_ne_nil h
  exact decimal_ne_nil _ (List.cons.inj hs).1.symm

theorem dotted_injective : Function.Injective dotted := by
  intro x y h
  by_cases hx : x = []
  · subst hx
    by_contra hy
    exact dotted_ne_nil (Ne.symm hy) h.symm
  · by_cases hy : y = []
    · subst hy
      exact absurd h (dotted_ne_nil hx)
    · have hs := dotted_splitOn hx
      rw [h, dotted_splitOn hy] at hs
      refine (List.map_injective_iff.mpr ?_ hs).symm
      intro c d hcd
      exact UInt8.toNat_inj.mp (decimal_injective hcd)

def portsAt (b : Bytes) : UInt16 × UInt16 :=
  (UInt16.ofNat (uint16At b 0), UInt16.ofNat (uint16At b 2))

def wire : Headers Bytes where
  isValid := corruption.isValid
  headerLength := corruption.headerLength
  transportProtocol := corruption.transportProtocol
  dataOffset := corruption.dataOffset
  sourceAddress b := (b.drop 12).take 4
  destinationAddress b := (b.drop 16).take 4
  tcpPorts := portsAt
  udpPorts := portsAt
  text := dotted
  text_char _ _ := mem_dotted
  text_injective := dotted_injective

/-- A TCP segment without payload. -/
def segment (src dst : Bytes) (srcPort dstPort : UInt8) : Bytes :=
  [0x45, 0, 0, 40, 0, 0, 0, 0, 64, 6, 0, 0] ++ src ++ dst ++
    [0, srcPort, 0, dstPort, 0, 0, 0, 0, 0, 0, 0, 0, 0x50, 0x10, 0, 0, 0, 0, 0, 0]

def request : Bytes := segment [10, 0, 0, 9] [10, 0, 0, 10] 200 80

def reply : Bytes := segment [10, 0, 0, 10] [10, 0, 0, 9] 80 200

theorem reply_shares_flow : ∃ p q, wire.parse request = some p ∧ wire.parse reply = some q ∧
    flowID p = flowID q := by
  have hreq : corruption.parse request = some .tcp := by decide
  have hrep : corruption.parse reply = some .tcp := by decide
  have hp : wire.parse request = some _ := Option.map_eq_some_iff.mpr ⟨.tcp, hreq, rfl⟩
  have hq : wire.parse reply = some _ := Option.map_eq_some_iff.mpr ⟨.tcp, hrep, rfl⟩
  refine ⟨_, _, hp, hq, (flowID_eq_iff wire request reply _ _ hp hq).mpr ⟨rfl, ?_⟩⟩
  exact Sym2.eq_iff.mpr (.inr ⟨by decide, by decide⟩)

end faultbox.flow_identity
