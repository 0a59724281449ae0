-- The addresses of the packet gateway (internal/netfault/alloc.go): one for each consumer,
-- service and interface, counted up from the network address. The counter is written over the
-- last two octets, so the addresses are valid and different exactly in a subnet of at least
-- sixteen bits whose third octet is zero, for names without NUL; and they depend on the order
-- of the requests as soon as there are two.
import Faultbox.GoValues
import Faultbox.Rewriting
import Mathlib.Data.List.Basic

open goval

namespace faultbox.gateway_addrs

/-! ## Addresses -/

structure IPv4 where
  o0 : Nat
  o1 : Nat
  o2 : Nat
  o3 : Nat
deriving DecidableEq

def IPv4.value (ip : IPv4) : Nat := ((ip.o0 * 256 + ip.o1) * 256 + ip.o2) * 256 + ip.o3

def IPv4.ofValue (v : Nat) : IPv4 := ⟨v / 2 ^ 24 % 256, v / 2 ^ 16 % 256, v / 256 % 256, v % 256⟩

/-- What `net.ParseCIDR` reads from a text, for IPv4. -/
structure Subnet where
  cidr : String
  ip : IPv4
  ones : Nat
  octets : ip.o0 < 256 ∧ ip.o1 < 256 ∧ ip.o2 < 256 ∧ ip.o3 < 256
  bits : ones ≤ 32

def Subnet.size (net : Subnet) : Nat := 2 ^ (32 - net.ones)

/-- `v4.Mask(ipnet.Mask)`. -/
def Subnet.network (net : Subnet) : IPv4 := .ofValue (net.ip.value / net.size * net.size)

def Subnet.contains (net : Subnet) (ip : IPv4) : Prop :=
  ip.value / net.size = net.ip.value / net.size

def Subnet.broadcast (net : Subnet) : Nat := net.network.value + net.size - 1

/-! ## The allocator -/

structure GatewayAddr where
  consumer : String
  service : String
  iface : String
  ip : IPv4
  port : Int
  upstream : String

structure Allocator where
  base : IPv4
  ones : Nat
  byKey : GoMap String GatewayAddr
  nextID : Nat

/-- `newAddrAllocator`, behind the parsing of the subnet. -/
def newAddrAllocator (net : Subnet) : Except String Allocator :=
  if 32 - net.ones < 8 then
    .error ("gateway subnet " ++ quote net.cidr ++ " is too small; need at least a /24")
  else .ok ⟨net.network, net.ones, ∅, 2⟩

def ipForOffset (base : IPv4) (n : Nat) : IPv4 := { base with o3 := n % 256, o2 := n / 256 % 256 }

def Allocator.hostIP (a : Allocator) : IPv4 := ipForOffset a.base 1

structure Request where
  consumer : String
  service : String
  iface : String
  port : Int
  upstream : String
deriving DecidableEq

def Request.key (r : Request) : String :=
  r.consumer ++ "\x00" ++ r.service ++ "\x00" ++ r.iface

def Allocator.next (a : Allocator) (r : Request) : GatewayAddr :=
  ⟨r.consumer, r.service, r.iface, ipForOffset a.base a.nextID, r.port, r.upstream⟩

def Allocator.allocate (a : Allocator) (r : Request) : Except String GatewayAddr × Allocator :=
  match a.byKey.lookup r.key with
  | some existing => (.ok existing, a)
  | none =>
    let maxHosts := 2 ^ (32 - a.ones) - 2
    if a.nextID > maxHosts then
      (.error ("gateway subnet exhausted after " ++ toString maxHosts ++ " addresses; " ++
        "widen the subnet or reduce the number of faulted interfaces"), a)
    else
      (.ok (a.next r), { a with nextID := a.nextID + 1, byKey := a.byKey.insert r.key (a.next r) })

/-- The addresses that a sequence of requests gets. -/
def Allocator.given (a : Allocator) : List Request → List (Request × GatewayAddr)
  | [] => []
  | r :: reqs =>
    match a.allocate r with
    | (.ok ga, a) => (r, ga) :: a.given reqs
    | (.error _, a) => a.given reqs

/-! ## The properties -/

def Request.triple (r : Request) : String × String × String := (r.consumer, r.service, r.iface)

def Request.plain (r : Request) : Bool :=
  !r.consumer.toList.contains '\x00' && !r.service.toList.contains '\x00' &&
    !r.iface.toList.contains '\x00'

structure Valid (net : Subnet) (a : Allocator) (reqs : List Request) : Prop where
  inside : ∀ p ∈ a.given reqs, net.contains p.2.ip
  reserved : ∀ p ∈ a.given reqs, p.2.ip ≠ net.network ∧ p.2.ip.value ≠ net.broadcast ∧
    p.2.ip ≠ a.hostIP
  same : ∀ p ∈ a.given reqs, ∀ p' ∈ a.given reqs, p.1.triple = p'.1.triple → p.2 = p'.2
  distinct : ∀ p ∈ a.given reqs, ∀ p' ∈ a.given reqs, p.1.triple ≠ p'.1.triple → p.2.ip ≠ p'.2.ip

/-- All sequences of requests get valid addresses; `nul` says whether names may have a NUL. -/
def AlwaysValid (net : Subnet) (a : Allocator) (nul : Bool) : Prop :=
  ∀ reqs : List Request, (nul = false → ∀ r ∈ reqs, r.plain = true) → Valid net a reqs

/-- Any two orders of the requests give every one of them the same address. -/
def OrderFree (a : Allocator) (reqs : List Request) : Prop :=
  ∀ order order' : List Request, order.Perm reqs → order'.Perm reqs →
    ∀ p ∈ a.given order, ∀ p' ∈ a.given order', p.1.triple = p'.1.triple → p.2.ip = p'.2.ip

/-! ## What has been given -/

section given

variable {a a' : Allocator} {r : Request} {ga : GatewayAddr} {k : String} {reqs : List Request}

/-- Each key has its own offset, and the address of that offset. -/
structure Numbered (a : Allocator) (offset : String → Nat) : Prop where
  entry : ∀ k ga, a.byKey.lookup k = some ga →
    2 ≤ offset k ∧ offset k < a.nextID ∧ ga.ip = ipForOffset a.base (offset k)
  injective : ∀ k k', a.byKey.lookup k ≠ none → a.byKey.lookup k' ≠ none →
    offset k = offset k' → k = k'
  start : 2 ≤ a.nextID
  room : a.nextID ≤ 2 ^ (32 - a.ones) - 2 + 1

theorem allocate_some (h : a.byKey.lookup r.key = some ga) : a.allocate r = (.ok ga, a) := by
  simp [Allocator.allocate, h]

theorem allocate_ok (h : a.allocate r = (.ok ga, a')) :
    a'.base = a.base ∧ a'.ones = a.ones ∧ a'.byKey.lookup r.key = some ga ∧
      ∀ k g, a.byKey.lookup k = some g → a'.byKey.lookup k = some g := by
  unfold Allocator.allocate at h
  split at h
  · rename_i existing hkey
    cases h
    exact ⟨rfl, rfl, hkey, fun _ _ hk => hk⟩
  · rename_i hkey
    dsimp only at h
    split at h
    · cases h
    · cases h
      refine ⟨rfl, rfl, AList.lookup_insert _, fun k g hk => ?_⟩
      have hne : k ≠ r.key := by
        rintro rfl
        rw [hkey] at hk
        cases hk
      rw [AList.lookup_insert_ne hne]
      exact hk

theorem allocate_error {err : String} (h : a.allocate r = (.error err, a')) : a' = a := by
  unfold Allocator.allocate at h
  split at h
  · cases h
  · dsimp only at h
    split at h <;> cases h
    rfl

theorem numbered_allocate {offset : String → Nat} (h : Numbered a offset)
    (hs : a.allocate r = (.ok ga, a')) : ∃ offset', Numbered a' offset' := by
  unfold Allocator.allocate at hs
  split at hs
  · cases hs
    exact ⟨offset, h⟩
  · rename_i hkey
    dsimp only at hs
    split at hs
    · cases hs
    · rename_i hr
      cases hs
      refine ⟨Function.update offset r.key a.nextID, ?_, ?_, Nat.le_succ_of_le h.start, ?_⟩
      · intro k g hk
        dsimp only at hk ⊢
        by_cases hne : k = r.key
        · subst hne
          rw [AList.lookup_insert] at hk
          cases hk
          rw [Function.update_self]
          exact ⟨h.start, Nat.lt_succ_self _, rfl⟩
        · rw [AList.lookup_insert_ne hne] at hk
          rw [Function.update_of_ne hne]
          obtain ⟨hlow, hh, hip⟩ := h.entry k g hk
          exact ⟨hlow, Nat.lt_succ_of_lt hh, hip⟩
      · intro k k' hk hk' heq
        have hold : ∀ k, k ≠ r.key → a.byKey.lookup k ≠ none → offset k < a.nextID := by
          intro k _ hk
          obtain ⟨g, hg⟩ := Option.ne_none_iff_exists'.mp hk
          exact (h.entry k g hg).2.1
        dsimp only at hk hk'
        by_cases hne : k = r.key
        · by_cases hne' : k' = r.key
          · rw [hne, hne']
          · rw [hne, Function.update_self, Function.update_of_ne hne'] at heq
            rw [AList.lookup_insert_ne hne'] at hk'
            exact absurd heq (Nat.ne_of_gt (hold k' hne' hk'))
        · rw [AList.lookup_insert_ne hne] at hk
          by_cases hne' : k' = r.key
          · rw [hne', Function.update_self, Function.update_of_ne hne] at heq
            exact absurd heq (Nat.ne_of_lt (hold k hne hk))
          · rw [AList.lookup_insert_ne hne'] at hk'
            rw [Function.update_of_ne hne, Function.update_of_ne hne'] at heq
            exact h.injective k k' hk hk' heq
      · dsimp only
        omega

theorem given_spec {offset : String → Nat} (h : Numbered a offset) (reqs : List Request) :
    ∃ a' offset', Numbered a' offset' ∧ a'.base = a.base ∧ a'.ones = a.ones ∧
      (∀ k g, a.byKey.lookup k = some g → a'.byKey.lookup k = some g) ∧
      ∀ p ∈ a.given reqs, a'.byKey.lookup p.1.key = some p.2 := by
  induction reqs generalizing a offset with
  | nil => exact ⟨a, offset, h, rfl, rfl, fun _ _ hk => hk, fun _ hp => absurd hp List.not_mem_nil⟩
  | cons r reqs ih =>
    unfold Allocator.given
    split
    · rename_i ga a₁ hs
      obtain ⟨hb, ho, hkey, hke⟩ := allocate_ok hs
      obtain ⟨offset₁, h₁⟩ := numbered_allocate h hs
      obtain ⟨a', offset', hend, hb', ho', hke', hall⟩ := ih h₁
      refine ⟨a', offset', hend, hb'.trans hb, ho'.trans ho,
        fun k g hk => hke' k g (hke k g hk), fun p hp => ?_⟩
      rcases List.mem_cons.mp hp with rfl | hp
      · exact hke' _ _ hkey
      · exact hall p hp
    · rename_i err a₁ hs
      rw [allocate_error hs]
      exact ih h

theorem mem_of_given {p : Request × GatewayAddr} (h : p ∈ a.given reqs) : p.1 ∈ reqs := by
  induction reqs generalizing a with
  | nil => exact absurd h List.not_mem_nil
  | cons r reqs ih =>
    unfold Allocator.given at h
    split at h
    · rcases List.mem_cons.mp h with rfl | h
      · exact List.mem_cons_self
      · exact List.mem_cons_of_mem _ (ih h)
    · exact List.mem_cons_of_mem _ (ih h)

theorem given_append {p : Request × GatewayAddr} (h : p ∈ a.given reqs) (more : List Request) :
    p ∈ a.given (reqs ++ more) := by
  induction reqs generalizing a with
  | nil => exact absurd h List.not_mem_nil
  | cons r reqs ih =>
    rw [List.cons_append]
    unfold Allocator.given at h ⊢
    split at h
    · exact (List.mem_cons.mp h).elim (fun heq => heq ▸ List.mem_cons_self)
        fun h => List.mem_cons_of_mem _ (ih h)
    · exact ih h

theorem allocate_fresh (hf : a.byKey.lookup r.key = none)
    (hr : a.nextID ≤ 2 ^ (32 - a.ones) - 2) :
    a.allocate r = (.ok (a.next r),
      { a with nextID := a.nextID + 1, byKey := a.byKey.insert r.key (a.next r) }) := by
  unfold Allocator.allocate
  rw [hf]
  dsimp only
  rw [if_neg (by omega)]

theorem given_two {r' : Request} (hkey : r'.key = r.key) (hf : a.byKey.lookup r.key = none)
    (hr : a.nextID ≤ 2 ^ (32 - a.ones) - 2) : ∃ ga, a.given [r, r'] = [(r, ga), (r', ga)] := by
  rw [Allocator.given, allocate_fresh hf hr]
  dsimp only
  rw [Allocator.given, allocate_some (by rw [hkey]; exact AList.lookup_insert _)]
  exact ⟨_, rfl⟩

theorem given_fresh (reqs : List Request) (r : Request)
    (hn : ((reqs ++ [r]).map Request.key).Nodup)
    (hf : ∀ r' ∈ reqs ++ [r], a.byKey.lookup r'.key = none)
    (hro : a.nextID + reqs.length ≤ 2 ^ (32 - a.ones) - 2) :
    ∃ ga, (r, ga) ∈ a.given (reqs ++ [r]) ∧
      ga.ip = ipForOffset a.base (a.nextID + reqs.length) := by
  induction reqs generalizing a with
  | nil =>
    rw [List.nil_append, Allocator.given, allocate_fresh (hf r (by simp)) hro]
    exact ⟨_, List.mem_cons_self, rfl⟩
  | cons r₀ reqs ih =>
    rw [List.length_cons] at hro ⊢
    rw [List.cons_append, List.map_cons, List.nodup_cons] at hn
    have hfi := allocate_fresh (hf r₀ List.mem_cons_self) (by omega)
    rw [List.cons_append, Allocator.given, hfi]
    dsimp only
    have ho : ∀ r' ∈ reqs ++ [r],
        (a.byKey.insert r₀.key (a.next r₀)).lookup r'.key = none := by
      intro r' hr'
      have hne : r'.key ≠ r₀.key := fun heq => hn.1 (heq ▸ List.mem_map_of_mem hr')
      rw [AList.lookup_insert_ne hne]
      exact hf r' (List.mem_cons_of_mem _ hr')
    obtain ⟨ga, hmem, hip⟩ := ih (a := { a with nextID := a.nextID + 1, byKey := _ }) hn.2
      ho (by dsimp only; omega)
    refine ⟨ga, List.mem_cons_of_mem _ hmem, ?_⟩
    rw [hip]
    dsimp only
    rw [Nat.add_right_comm, Nat.add_assoc]

theorem given_of_key (hkey : a.byKey.lookup k = some ga) (hall : ∀ r ∈ reqs, r.key = k) :
    ∀ p ∈ a.given reqs, p.2 = ga := by
  induction reqs with
  | nil => exact fun _ hp => absurd hp List.not_mem_nil
  | cons r reqs ih =>
    rw [Allocator.given, allocate_some ((hall r List.mem_cons_self).symm ▸ hkey)]
    intro p hp
    rcases List.mem_cons.mp hp with rfl | hp
    · rfl
    · exact ih (fun r' hr' => hall r' (List.mem_cons_of_mem _ hr')) p hp

end given

/-! ## The arithmetic of the addresses -/

section arithmetic

variable {net : Subnet} {a : Allocator}

theorem newAddrAllocator_ok (h : newAddrAllocator net = .ok a) :
    net.ones ≤ 24 ∧ a = ⟨net.network, net.ones, ∅, 2⟩ := by
  unfold newAddrAllocator at h
  split at h
  · cases h
  · cases h
    exact ⟨by omega, rfl⟩

theorem numbered_new (h : net.ones ≤ 24) : Numbered ⟨net.network, net.ones, ∅, 2⟩ fun _ => 0 := by
  have hs : 2 ^ 8 ≤ 2 ^ (32 - net.ones) := Nat.pow_le_pow_right (by omega) (by omega)
  refine ⟨fun k g hk => ?_, fun k k' hk => ?_, le_refl _, by dsimp only; omega⟩
  · simp at hk
  · simp at hk

theorem value_ipForOffset {base : IPv4} (h2 : base.o2 < 256) (h3 : base.o3 < 256) (n : Nat) :
    (ipForOffset base n).value = base.value / 2 ^ 16 * 2 ^ 16 + n % 2 ^ 16 := by
  unfold ipForOffset IPv4.value
  dsimp only
  omega

theorem octets_network (net : Subnet) : net.network.o2 < 256 ∧ net.network.o3 < 256 :=
  ⟨Nat.mod_lt _ (by decide), Nat.mod_lt _ (by decide)⟩

theorem value_network (net : Subnet) :
    net.network.value = net.ip.value / net.size * net.size := by
  have hle := Nat.div_mul_le_self net.ip.value net.size
  have ho := net.octets
  have hlt : net.ip.value < 2 ^ 32 := by
    unfold IPv4.value
    omega
  unfold Subnet.network IPv4.ofValue IPv4.value
  dsimp only
  unfold IPv4.value at hle hlt
  omega

theorem dvd_size (h : net.ones ≤ 24) : 2 ^ 8 ∣ net.size := Nat.pow_dvd_pow 2 (by omega)

theorem network_o3 (h : net.ones ≤ 24) : net.network.o3 = 0 := by
  obtain ⟨m, hm⟩ := (dvd_size h).mul_left (net.ip.value / net.size)
  have hv := value_network net
  have ho := octets_network net
  rw [hm] at hv
  unfold IPv4.value at hv
  omega

theorem value_address (h24 : net.ones ≤ 24) (h2 : net.network.o2 = 0) {n : Nat}
    (hn : n < 2 ^ 16) : (ipForOffset net.network n).value = net.network.value + n := by
  have h3 := network_o3 h24
  unfold ipForOffset IPv4.value
  dsimp only
  omega

end arithmetic

/-! ## The laws -/

section laws

variable {net : Subnet} {a : Allocator}

theorem triple_eq_of_key {r r' : Request} (hr : r.plain = true) (hr' : r'.plain = true)
    (h : r.key = r'.key) : r.triple = r'.triple := by
  simp only [Request.plain, Bool.and_eq_true, Bool.not_eq_true', List.contains_eq_mem,
    decide_eq_false_iff_not] at hr hr'
  have hf : ∀ name : String, '\x00' ∉ name.toList →
      ∀ c ∈ name.toList, decide (c ≠ '\x00') = true := by
    intro name hn c hc
    exact decide_eq_true fun heq => hn (heq ▸ hc)
  have hch := congrArg String.toList h
  have hnul : "\x00".toList = ['\x00'] := rfl
  simp only [Request.key, String.toList_append, hnul, List.append_assoc,
    List.singleton_append] at hch
  obtain ⟨hco, hre⟩ := rewriting.cut_inj (hf _ hr.1.1) (hf _ hr'.1.1) rfl rfl hch
  obtain ⟨hs, hi⟩ := rewriting.cut_inj (hf _ hr.1.2) (hf _ hr'.1.2) rfl rfl hre
  unfold Request.triple
  rw [String.toList_inj.mp hco, String.toList_inj.mp hs, String.toList_inj.mp hi]

/-- The addresses are valid in a subnet of at least sixteen bits with a zero third octet. -/
theorem alwaysValid_of_narrow (h24 : net.ones ≤ 24) (h16 : 16 ≤ net.ones)
    (h2 : net.network.o2 = 0) : AlwaysValid net ⟨net.network, net.ones, ∅, 2⟩ false := by
  intro reqs hpl
  obtain ⟨a', offset, hend, hb, ho, -, hall⟩ := given_spec (numbered_new h24) reqs
  have hsi : net.size ≤ 2 ^ 16 := Nat.pow_le_pow_right (by omega) (by omega)
  have hr := hend.room
  rw [ho] at hr
  change a'.nextID ≤ net.size - 2 + 1 at hr
  -- each address stands at its offset
  have ha : ∀ p ∈ Allocator.given ⟨net.network, net.ones, ∅, 2⟩ reqs,
      2 ≤ offset p.1.key ∧ offset p.1.key < net.size - 1 ∧
        p.2.ip.value = net.network.value + offset p.1.key := by
    intro p hp
    obtain ⟨hlow, hh, hip⟩ := hend.entry _ _ (hall p hp)
    rw [hb] at hip
    rw [hip, value_address h24 h2 (by omega)]
    omega
  have hmem : ∀ p ∈ Allocator.given ⟨net.network, net.ones, ∅, 2⟩ reqs, p.1.plain = true :=
    fun p hp => hpl rfl p.1 (mem_of_given hp)
  refine ⟨?_, ?_, ?_, ?_⟩
  · intro p hp
    obtain ⟨hlow, hh, hv⟩ := ha p hp
    unfold Subnet.contains
    rw [hv, value_network, Nat.mul_comm, Nat.mul_add_div (by omega),
      Nat.div_eq_of_lt (show offset p.1.key < net.size by omega), Nat.add_zero]
  · intro p hp
    obtain ⟨hlow, hh, hv⟩ := ha p hp
    have hho := value_address h24 h2 (show 1 < 2 ^ 16 by decide)
    refine ⟨?_, ?_, ?_⟩
    · intro heq
      rw [heq] at hv
      omega
    · unfold Subnet.broadcast
      omega
    · intro heq
      rw [heq] at hv
      unfold Allocator.hostIP at hv
      dsimp only at hv
      omega
  · intro p hp p' hp' ht
    have hkey : p.1.key = p'.1.key := by
      obtain ⟨hc, hs, hi⟩ : p.1.consumer = p'.1.consumer ∧ p.1.service = p'.1.service ∧
          p.1.iface = p'.1.iface := by simpa [Request.triple] using ht
      unfold Request.key
      rw [hc, hs, hi]
    have hf := hall p hp
    rw [hkey, hall p' hp'] at hf
    exact (Option.some.inj hf).symm
  · intro p hp p' hp' ht heq
    have hv := (ha p hp).2.2
    rw [heq, (ha p' hp').2.2] at hv
    have hk := hend.injective p.1.key p'.1.key (by simp [hall p hp])
      (by simp [hall p' hp']) (by omega)
    exact ht (triple_eq_of_key (hmem p hp) (hmem p' hp') hk)

def numbered (i : Nat) : Request := ⟨String.ofList (List.replicate i 'a'), "", "", 0, ""⟩

theorem plain_numbered (i : Nat) : (numbered i).plain = true := by
  simp [Request.plain, numbered]

theorem key_numbered {i j : Nat} (h : (numbered i).key = (numbered j).key) : i = j := by
  have hlen := congrArg (fun s : String => s.toList.length) h
  simpa [Request.key, numbered] using hlen

/-- In a wider subnet the counter comes back to the network address. -/
theorem narrow_of_alwaysValid (h24 : net.ones ≤ 24) {nul : Bool}
    (h : AlwaysValid net ⟨net.network, net.ones, ∅, 2⟩ nul) :
    16 ≤ net.ones ∧ net.network.o2 = 0 := by
  have h3 := network_o3 h24
  have ho := octets_network net
  have hp : ∀ n, ∀ r ∈ (List.range n).map numbered ++ [numbered n], r.plain = true := by
    intro n r hr
    rw [← List.map_singleton, ← List.map_append, List.mem_map] at hr
    obtain ⟨i, -, rfl⟩ := hr
    exact plain_numbered i
  -- the address behind n others, as long as the subnet has room
  have hat : ∀ n, 2 + n ≤ net.size - 2 → ∃ ga : GatewayAddr,
      net.contains ga.ip ∧ ga.ip ≠ net.network ∧ ga.ip = ipForOffset net.network (2 + n) := by
    intro n hro
    have hn : (((List.range n).map numbered ++ [numbered n]).map Request.key).Nodup := by
      have hl : (List.range n).map numbered ++ [numbered n] =
          (List.range (n + 1)).map numbered := by
        rw [List.range_succ, List.map_append, List.map_singleton]
      rw [hl, List.map_map]
      exact List.Nodup.map (fun i j hij => key_numbered hij) List.nodup_range
    obtain ⟨ga, hmem, hip⟩ := given_fresh (a := ⟨net.network, net.ones, ∅, 2⟩)
      ((List.range n).map numbered) (numbered n) hn (fun _ _ => AList.lookup_empty _)
      (by rw [List.length_map, List.length_range]; exact hro)
    have hv := h _ fun _ => hp n
    rw [List.length_map, List.length_range] at hip
    exact ⟨ga, hv.inside (numbered n, ga) hmem, (hv.reserved (numbered n, ga) hmem).1, hip⟩
  have hw : 16 ≤ net.ones := by
    by_contra hlt
    have hs : 2 ^ 17 ≤ net.size := Nat.pow_le_pow_right (by omega) (by omega)
    have hdvd : 2 ^ 16 ∣ net.size := Nat.pow_dvd_pow 2 (by omega)
    obtain ⟨m, hm⟩ := hdvd.mul_left (net.ip.value / net.size)
    have hva := value_network net
    rw [hm] at hva
    obtain ⟨ga, -, hne, hip⟩ := hat 65534 (by omega)
    have h2 : net.network.o2 = 0 := by
      unfold IPv4.value at hva
      omega
    apply hne
    rw [hip]
    generalize net.network = base at h2 h3 ⊢
    cases base
    cases h2
    cases h3
    rfl
  refine ⟨hw, ?_⟩
  have hs : 2 ^ 8 ≤ net.size := Nat.pow_le_pow_right (by omega) (by omega)
  obtain ⟨ga, hin, -, hip⟩ := hat 0 (by omega)
  -- the address would be below the network address
  have hb := Nat.div_mul_le_self ga.ip.value net.size
  rw [hin, ← value_network, hip, value_ipForOffset ho.1 ho.2] at hb
  unfold IPv4.value at hb
  omega

theorem plain_of_alwaysValid {nul : Bool} (h24 : net.ones ≤ 24)
    (h : AlwaysValid net ⟨net.network, net.ones, ∅, 2⟩ nul) : nul = false := by
  have hs : 2 ^ 8 ≤ net.size := Nat.pow_le_pow_right (by omega) (by omega)
  cases nul with
  | false => rfl
  | true =>
    have hv := h [⟨"\x00", "", "", 0, ""⟩, ⟨"", "\x00", "", 0, ""⟩] fun hnul => nomatch hnul
    obtain ⟨ga, hg⟩ := given_two (a := ⟨net.network, net.ones, ∅, 2⟩)
      (show Request.key ⟨"", "\x00", "", 0, ""⟩ = Request.key ⟨"\x00", "", "", 0, ""⟩ by decide)
      (AList.lookup_empty _) (by change 2 ≤ net.size - 2; omega)
    have hd := hv.distinct
    rw [hg] at hd
    exact (hd _ List.mem_cons_self _ (List.mem_cons_of_mem _ List.mem_cons_self)
      (by simp [Request.triple]) rfl).elim

end laws

/-- Addresses are valid and different exactly in a narrow enough subnet with a zero third octet,
for names without NUL. -/
theorem addresses_valid_iff (net : Subnet) (a : Allocator) (h : newAddrAllocator net = .ok a)
    (nul : Bool) :
    AlwaysValid net a nul ↔ nul = false ∧ 16 ≤ net.ones ∧ net.network.o2 = 0 := by
  obtain ⟨h24, rfl⟩ := newAddrAllocator_ok h
  constructor
  · intro hv
    exact ⟨plain_of_alwaysValid h24 hv, narrow_of_alwaysValid h24 hv⟩
  · rintro ⟨rfl, h16, h2⟩
    exact alwaysValid_of_narrow h24 h16 h2

/-- The order of the requests does not matter exactly where all have one key. -/
theorem order_free_iff (net : Subnet) (a : Allocator) (h : newAddrAllocator net = .ok a)
    (reqs : List Request) :
    OrderFree a reqs ↔ ∀ r ∈ reqs, ∀ r' ∈ reqs, r.key = r'.key := by
  obtain ⟨h24, rfl⟩ := newAddrAllocator_ok h
  have hs : 2 ^ 8 ≤ net.size := Nat.pow_le_pow_right (by omega) (by omega)
  constructor
  · intro hf r hr r' hr'
    by_contra hkey
    -- the first and the second request, in both orders
    have hne : r' ≠ r := fun heq => hkey (heq ▸ rfl)
    have hpe : reqs.Perm (r :: r' :: (reqs.erase r).erase r') :=
      (List.perm_cons_erase hr).trans
        ((List.perm_cons_erase ((List.mem_erase_of_ne hne).mpr hr')).cons r)
    obtain ⟨ga, hmem, hip⟩ := given_fresh (a := ⟨net.network, net.ones, ∅, 2⟩) [] r (by simp)
      (fun _ _ => AList.lookup_empty _) (by change 2 + 0 ≤ net.size - 2; omega)
    obtain ⟨ga', hmem', hip'⟩ := given_fresh (a := ⟨net.network, net.ones, ∅, 2⟩) [r'] r
      (by simpa using fun heq => hkey heq.symm) (fun _ _ => AList.lookup_empty _)
      (by change 2 + 1 ≤ net.size - 2; omega)
    have hsa := hf _ _ hpe.symm ((List.Perm.swap r r' _).trans hpe.symm) _
      (given_append hmem _) _ (given_append hmem' _) rfl
    dsimp only at hsa
    rw [hip, hip'] at hsa
    exact absurd (congrArg IPv4.o3 hsa) (by simp [ipForOffset])
  · intro hk order order' ho ho' p hp p' hp' _
    have hone : ∀ order : List Request, order.Perm reqs →
        ∀ p ∈ Allocator.given ⟨net.network, net.ones, ∅, 2⟩ order,
          p.2.ip = ipForOffset net.network 2 := by
      intro order ho p hp
      cases order with
      | nil => exact absurd hp List.not_mem_nil
      | cons r rest =>
        have hr : r ∈ reqs := ho.mem_iff.mp List.mem_cons_self
        rw [Allocator.given, allocate_fresh (AList.lookup_empty _)
          (by change 2 ≤ net.size - 2; omega)] at hp
        rcases List.mem_cons.mp hp with rfl | hp
        · rfl
        · rw [given_of_key (AList.lookup_insert _) (fun r' hr' =>
            hk r' (ho.mem_iff.mp (List.mem_cons_of_mem _ hr')) r hr) p hp]
          rfl
    rw [hone order ho p hp, hone order' ho' p' hp']

def defaultSubnet : Subnet := ⟨"10.99.0.0/16", ⟨10, 99, 0, 0⟩, 16, by decide, by decide⟩

def labSubnet : Subnet := ⟨"10.99.5.0/24", ⟨10, 99, 5, 0⟩, 24, by decide, by decide⟩

def allocatorOf (net : Subnet) : Allocator := ⟨net.network, net.ones, ∅, 2⟩

/-- The addresses of the default subnet are valid. -/
theorem default_subnet_valid :
    newAddrAllocator defaultSubnet = .ok (allocatorOf defaultSubnet) ∧
      AlwaysValid defaultSubnet (allocatorOf defaultSubnet) false :=
  ⟨rfl, (addresses_valid_iff defaultSubnet _ rfl false).mpr ⟨rfl, by decide, rfl⟩⟩

/-- The first address that 10.99.5.0/24 gives is 10.99.0.2. -/
theorem lab_address_is_outside :
    newAddrAllocator labSubnet = .ok (allocatorOf labSubnet) ∧
      ∃ ga, (allocatorOf labSubnet).given [numbered 0] = [(numbered 0, ga)] ∧
        ga.ip = ⟨10, 99, 0, 2⟩ ∧ ¬ labSubnet.contains ga.ip := by
  refine ⟨rfl, _, rfl, by decide, ?_⟩
  unfold Subnet.contains
  decide

/-- One request for an address is alone. -/
theorem one_request_is_order_free :
    newAddrAllocator defaultSubnet = .ok (allocatorOf defaultSubnet) ∧
      OrderFree (allocatorOf defaultSubnet) [numbered 1, numbered 1] :=
  ⟨rfl, (order_free_iff defaultSubnet _ rfl _).mpr (by decide)⟩

/-- Of two requests the first one gets the first address, in either order. -/
theorem two_requests_swap_addresses :
    ¬ OrderFree (allocatorOf defaultSubnet) [numbered 1, numbered 2] := by
  intro h
  exact absurd (h _ [numbered 2, numbered 1] (.refl _) (.swap ..)) (by decide)

end faultbox.gateway_addrs
