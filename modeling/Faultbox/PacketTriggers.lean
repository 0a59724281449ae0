-- The counting law of the packet rules: over every sequence of packets, the rule that
-- `decide` returns is the first that matches the packet, whose trigger accepts the number of
-- packets that came as far as its trigger, and whose probability gate passes. A rule fired
-- for exactly the packets it was returned for, which are some of those it counted.
-- A list that holds one pointer twice breaks the law: one packet then counts twice.
import Faultbox.PacketRules
import Faultbox.GoValues

open faultbox.packet_scope (PacketView)
open goval (wrap Fits wrap_of_fits)

namespace faultbox.packet_triggers

/-- `Rule` with the mode that its roll reads. -/
structure Rule extends fault_endpoint.Rule where
  mode : String

/-- `RuleSet`, as `NewRuleSet` makes it: every rule passed `Validate`. -/
structure RuleSet where
  rules : List Rule
  valid : ∀ r ∈ rules, r.Valid

/-- What the rolls use up: the occurrences of each rule, by its pointer, and the draws. -/
structure Rolls where
  probCounter : Nat → Int
  draws : Nat

/-- The atomic counters of the rules, by the pointer. -/
structure Counters where
  counter : Nat → Int
  fired : Nat → Int
  rolls : Rolls

def Counters.fresh : Counters := ⟨fun _ => 0, fun _ => 0, ⟨fun _ => 0, 0⟩⟩

/-- `Add(1)` on an atomic int64. -/
def add (f : Nat → Int) (addr : Nat) : Nat → Int :=
  Function.update f addr (wrap (f addr + 1))

/-- The seeded draws and the plan that pins a roll: it says whether to fire, and whether it
pins at all. -/
structure Oracle where
  rnd : Option (Nat → Rat)
  decider : Option (Rule → Int → Bool × Bool)

def Rule.draw (r : Rule) (o : Oracle) (s : Rolls) : Bool × Rolls :=
  match o.rnd with
  | none => (false, s)
  | some rnd => (rnd s.draws < r.probability, { s with draws := s.draws + 1 })

/-- `rollProbability`: the draw is taken first, then the plan may override it. -/
def Rule.rollProbability (r : Rule) (o : Oracle) (s : Rolls) : Bool × Rolls :=
  if r.probability ≤ 0 ∨ 1 ≤ r.probability then (true, s)
  else
    let (fire, s) := r.draw o s
    match o.decider with
    | none => (fire, s)
    | some decider =>
      if r.mode = "stochastic" then (fire, s)
      else
        let s := { s with probCounter := add s.probCounter r.addr }
        let (pinnedFire, pinned) := decider r (s.probCounter r.addr - 1)
        (if pinned then pinnedFire else fire, s)

/-- One turn of the loop: whether the rule takes the packet. -/
def Rule.consult (r : Rule) (o : Oracle) (p : PacketView) (c : Counters) : Bool × Counters :=
  if r.matcher.matches p then
    let counter := add c.counter r.addr
    if r.shouldTrigger (counter r.addr) then
      let (fire, rolls) := r.rollProbability o c.rolls
      (fire, ⟨counter, if fire then add c.fired r.addr else c.fired, rolls⟩)
    else (false, { c with counter := counter })
  else (false, c)

def decide (o : Oracle) (p : PacketView) : List Rule → Counters → Option Rule × Counters
  | [], c => (none, c)
  | r :: rest, c =>
    match r.consult o p c with
    | (true, c) => (some r, c)
    | (false, c) => decide o p rest c

/-- The counters after the packets `ps`. -/
def after (o : Oracle) (rules : List Rule) (c : Counters) (ps : List PacketView) : Counters :=
  ps.foldl (fun c p => (decide o p rules c).2) c

/-! ## What the law speaks of -/

/-- How a trigger looks at the number of packets that came to it. -/
def Accepts (t : fault_endpoint.Trigger) (N : Int) (n : Nat) : Prop :=
  match t with
  | .always => True
  | .nth => (n : Int) = N
  | .after => N < n
  | .every => N ∣ n

instance (t : fault_endpoint.Trigger) (N : Int) (n : Nat) : Decidable (Accepts t N n) := by
  cases t <;> unfold Accepts <;> infer_instance

/-- The rules that stand before `r`. -/
def above (rules : List Rule) (r : Rule) : List Rule := rules.takeWhile (·.addr ≠ r.addr)

/-- The packet comes as far as the trigger of `r`: no rule above takes it, and `r` matches. -/
def reaches (o : Oracle) (rules : List Rule) (r : Rule) (c : Counters) (p : PacketView) : Bool :=
  (decide o p (above rules r) c).1.isNone && r.matcher.matches p

def returns (o : Oracle) (rules : List Rule) (r : Rule) (c : Counters) (p : PacketView) : Bool :=
  (decide o p rules c).1.any (·.addr = r.addr)

def tally (o : Oracle) (rules : List Rule) (test : Counters → PacketView → Bool) :
    Counters → List PacketView → Nat
  | _, [] => 0
  | c, p :: ps => (test c p).toNat + tally o rules test (decide o p rules c).2 ps

/-- The law, for the packets `ps` in turn; a packet that comes to a trigger is one more than
those before it. -/
structure CountsOwn (o : Oracle) (rules : List Rule) (ps : List PacketView) : Prop where
  first : ∀ done p later, ps = done ++ p :: later →
    let c := after o rules .fresh done
    (decide o p rules c).1 = rules.find? (fun r => r.matcher.matches p &&
      Decidable.decide (Accepts r.trigger r.triggerN
        (tally o rules (reaches o rules r) .fresh done + 1)) &&
      (r.rollProbability o (decide o p (above rules r) c).2.rolls).1)
  fireCount : ∀ r ∈ rules, (after o rules .fresh ps).fired r.addr =
    (tally o rules (returns o rules r) .fresh ps : Nat)
  le_matchCount : ∀ r ∈ rules,
    (after o rules .fresh ps).fired r.addr ≤ (after o rules .fresh ps).counter r.addr

section consult

variable {o : Oracle} {r : Rule} {p : PacketView} {c : Counters} {rules rest : List Rule}

theorem accepts_iff (h : r.Valid) (n : Nat) :
    r.shouldTrigger n = true ↔ Accepts r.trigger r.triggerN n := by
  unfold fault_endpoint.Rule.shouldTrigger Accepts
  cases ht : r.trigger with
  | always => simp
  | nth => simp
  | after => simp
  | every =>
    have hpos := h.trigger (by rw [ht]; simp)
    rw [if_neg (by omega), beq_iff_eq]
    exact Int.dvd_iff_emod_eq_zero.symm

theorem consult_fst : (r.consult o p c).1 = (r.matcher.matches p &&
    r.shouldTrigger (wrap (c.counter r.addr + 1)) && (r.rollProbability o c.rolls).1) := by
  unfold Rule.consult
  cases r.matcher.matches p with
  | false => rfl
  | true =>
    simp only [if_true, add, Function.update_self, Bool.true_and]
    cases r.shouldTrigger (wrap (c.counter r.addr + 1)) <;> rfl

theorem consult_counter : (r.consult o p c).2.counter =
    if r.matcher.matches p then add c.counter r.addr else c.counter := by
  unfold Rule.consult
  cases r.matcher.matches p with
  | false => rfl
  | true =>
    simp only [if_true]
    split <;> rfl

theorem consult_fired : (r.consult o p c).2.fired =
    if (r.consult o p c).1 then add c.fired r.addr else c.fired := by
  unfold Rule.consult
  cases r.matcher.matches p with
  | false => rfl
  | true =>
    simp only [if_true]
    split <;> rfl

theorem decide_cons_of_takes (h : (r.consult o p c).1 = true) :
    decide o p (r :: rest) c = (some r, (r.consult o p c).2) := by
  rw [decide]
  split
  · rename_i heq
    rw [heq]
  · rename_i heq
    simp [heq] at h

theorem decide_cons_of_leaves (h : (r.consult o p c).1 = false) :
    decide o p (r :: rest) c = decide o p rest (r.consult o p c).2 := by
  rw [decide]
  split
  · rename_i heq
    simp [heq] at h
  · rename_i heq
    rw [heq]

theorem consult_counter_ne {a : Nat} (h : a ≠ r.addr) :
    (r.consult o p c).2.counter a = c.counter a := by
  rw [consult_counter]
  split
  · exact Function.update_of_ne h _ _
  · rfl

theorem decide_counter_ne {a : Nat} (h : a ∉ rules.map (·.addr)) :
    (decide o p rules c).2.counter a = c.counter a := by
  induction rules generalizing c with
  | nil => rfl
  | cons r rest ih =>
    rw [List.map_cons, List.mem_cons, not_or] at h
    cases ht : (r.consult o p c).1 with
    | true => rw [decide_cons_of_takes ht, consult_counter_ne h.1]
    | false => rw [decide_cons_of_leaves ht, ih h.2, consult_counter_ne h.1]

theorem above_self : above (r :: rest) r = [] := by simp [above]

theorem above_cons {q : Rule} (h : q.addr ≠ r.addr) : above (q :: rest) r = q :: above rest r := by
  simp [above, h]

end consult

/-! ## One packet -/

section packet

variable {o : Oracle} {p : PacketView} {c : Counters} {rules : List Rule}

theorem decide_eq_find (distinct : (rules.map (·.addr)).Nodup) :
    (decide o p rules c).1 = rules.find? (fun r => r.matcher.matches p &&
      r.shouldTrigger (wrap (c.counter r.addr + 1)) &&
      (r.rollProbability o (decide o p (above rules r) c).2.rolls).1) := by
  induction rules generalizing c with
  | nil => rfl
  | cons q rest ih =>
    rw [List.map_cons, List.nodup_cons] at distinct
    have hfst := consult_fst (r := q) (o := o) (p := p) (c := c)
    simp only [List.find?_cons, above_self, decide.eq_1, ← hfst]
    cases ht : (q.consult o p c).1 with
    | true => rw [decide_cons_of_takes ht]
    | false =>
      rw [decide_cons_of_leaves ht, ih distinct.2]
      apply List.find?_congr
      intro r hr
      have hne : r.addr ≠ q.addr := fun h => distinct.1 (List.mem_map.mpr ⟨r, hr, h⟩)
      rw [above_cons hne.symm, decide_cons_of_leaves ht, consult_counter_ne hne]

theorem decide_counter (distinct : (rules.map (·.addr)).Nodup) {r : Rule} (hr : r ∈ rules) :
    (decide o p rules c).2.counter r.addr =
      if reaches o rules r c p then wrap (c.counter r.addr + 1) else c.counter r.addr := by
  induction rules generalizing c with
  | nil => cases hr
  | cons q rest ih =>
    rw [List.map_cons, List.nodup_cons] at distinct
    rcases List.mem_cons.mp hr with rfl | hr
    · have hc : (decide o p (r :: rest) c).2.counter r.addr =
          (r.consult o p c).2.counter r.addr := by
        cases ht : (r.consult o p c).1 with
        | true => rw [decide_cons_of_takes ht]
        | false => rw [decide_cons_of_leaves ht, decide_counter_ne distinct.1]
      rw [hc, consult_counter, reaches, above_self]
      cases r.matcher.matches p with
      | false => rfl
      | true => exact Function.update_self _ _ _
    · have hne : r.addr ≠ q.addr := fun h => distinct.1 (List.mem_map.mpr ⟨r, hr, h⟩)
      unfold reaches
      rw [above_cons hne.symm]
      cases ht : (q.consult o p c).1 with
      | true =>
        rw [decide_cons_of_takes ht, decide_cons_of_takes ht]
        exact consult_counter_ne hne
      | false =>
        rw [decide_cons_of_leaves ht, decide_cons_of_leaves ht, ih distinct.2 hr,
          consult_counter_ne hne, reaches]

theorem decide_fired (rules : List Rule) (r : Rule) : (decide o p rules c).2.fired r.addr =
    if returns o rules r c p then wrap (c.fired r.addr + 1) else c.fired r.addr := by
  unfold returns
  induction rules generalizing c with
  | nil => rfl
  | cons q rest ih =>
    have hf := consult_fired (r := q) (o := o) (p := p) (c := c)
    cases ht : (q.consult o p c).1 with
    | true =>
      rw [decide_cons_of_takes ht, hf, ht, if_pos rfl, add, Function.update_apply]
      by_cases h : r.addr = q.addr
      · simp [h]
      · simp [h, Ne.symm h]
    | false =>
      rw [ht] at hf
      rw [decide_cons_of_leaves ht, ih, hf]
      rfl

theorem mem_of_returns {r : Rule} (h : returns o rules r c p = true) :
    r.addr ∈ rules.map (·.addr) := by
  unfold returns at h
  induction rules generalizing c with
  | nil => cases h
  | cons q rest ih =>
    cases ht : (q.consult o p c).1 with
    | true =>
      rw [decide_cons_of_takes ht, Option.any_some, decide_eq_true_eq] at h
      simp [h]
    | false =>
      rw [decide_cons_of_leaves ht] at h
      exact List.mem_cons_of_mem _ (ih h)

theorem reaches_of_returns (distinct : (rules.map (·.addr)).Nodup) {r : Rule} (hr : r ∈ rules)
    (h : returns o rules r c p = true) : reaches o rules r c p = true := by
  induction rules generalizing c with
  | nil => cases hr
  | cons q rest ih =>
    rw [List.map_cons, List.nodup_cons] at distinct
    unfold reaches
    rcases List.mem_cons.mp hr with rfl | hr
    · rw [above_self]
      cases ht : (r.consult o p c).1 with
      | true =>
        rw [consult_fst, Bool.and_eq_true, Bool.and_eq_true] at ht
        exact ht.1.1
      | false =>
        rw [returns, decide_cons_of_leaves ht] at h
        exact absurd (mem_of_returns h) distinct.1
    · have hne : r.addr ≠ q.addr := fun h => distinct.1 (List.mem_map.mpr ⟨r, hr, h⟩)
      rw [above_cons hne.symm]
      cases ht : (q.consult o p c).1 with
      | true =>
        rw [returns, decide_cons_of_takes ht, Option.any_some, decide_eq_true_eq] at h
        exact absurd h.symm hne
      | false =>
        rw [returns, decide_cons_of_leaves ht] at h
        rw [decide_cons_of_leaves ht]
        exact ih distinct.2 hr h

end packet

/-! ## A sequence of packets -/

section run

variable {o : Oracle} {rules : List Rule} {c : Counters} (ps : List PacketView)

theorem after_eq_tally {test : Counters → PacketView → Bool} (field : Counters → Int)
    (hs : ∀ c p, field (decide o p rules c).2 =
      if test c p then wrap (field c + 1) else field c)
    (hlow : 0 ≤ field c) (hh : field c + ps.length < 2 ^ 63) :
    field (after o rules c ps) = field c + tally o rules test c ps := by
  induction ps generalizing c with
  | nil => simp [after, tally]
  | cons p ps ih =>
    rw [List.length_cons, Nat.cast_add, Nat.cast_one] at hh
    have hn : field (decide o p rules c).2 = field c + (test c p).toNat := by
      rw [hs]
      cases test c p with
      | false => simp
      | true => exact wrap_of_fits ⟨by omega, by omega⟩
    have hle := Bool.toNat_le (test c p)
    have hr := ih (c := (decide o p rules c).2) (by omega) (by omega)
    rw [after, List.foldl_cons, ← after, hr, hn, tally]
    omega

theorem tally_mono {few many : Counters → PacketView → Bool}
    (h : ∀ c p, few c p = true → many c p = true) :
    tally o rules few c ps ≤ tally o rules many c ps := by
  induction ps generalizing c with
  | nil => exact le_rfl
  | cons p ps ih => exact Nat.add_le_add (Bool.toNat_le_toNat (h c p)) ih

theorem tally_le_length (test : Counters → PacketView → Bool) :
    tally o rules test c ps ≤ ps.length := by
  induction ps generalizing c with
  | nil => exact le_rfl
  | cons p ps ih =>
    have hle := Bool.toNat_le (test c p)
    have := ih (c := (decide o p rules c).2)
    rw [tally, List.length_cons]
    omega

/-- The law holds for every list without a pointer twice, until a counter is full. -/
theorem decide_counts_own (set : RuleSet) (distinct : (set.rules.map (·.addr)).Nodup)
    (o : Oracle) (ps : List PacketView) (hlength : ps.length < 2 ^ 63) :
    CountsOwn o set.rules ps := by
  have hc : ∀ r ∈ set.rules, ∀ ps : List PacketView, ps.length < 2 ^ 63 →
      (after o set.rules .fresh ps).counter r.addr =
        (tally o set.rules (reaches o set.rules r) .fresh ps : Nat) := by
    intro r hr ps hlength
    have h := after_eq_tally (o := o) (c := .fresh) ps (fun c => c.counter r.addr)
      (fun c p => decide_counter distinct hr) le_rfl (by simp [Counters.fresh]; omega)
    simpa [Counters.fresh] using h
  have hf : ∀ r : Rule, (after o set.rules .fresh ps).fired r.addr =
      (tally o set.rules (returns o set.rules r) .fresh ps : Nat) := by
    intro r
    have h := after_eq_tally (o := o) (c := .fresh) ps (fun c => c.fired r.addr)
      (fun c p => decide_fired set.rules r) le_rfl (by simp [Counters.fresh]; omega)
    simpa [Counters.fresh] using h
  constructor
  · intro done p later hps
    have hd : done.length + 1 < 2 ^ 63 := by
      rw [hps, List.length_append, List.length_cons] at hlength
      omega
    dsimp only
    rw [decide_eq_find distinct]
    apply List.find?_congr
    intro r hr
    have hle : tally o set.rules (reaches o set.rules r) .fresh done ≤ done.length :=
      tally_le_length done _
    have hn : wrap ((after o set.rules .fresh done).counter r.addr + 1) =
        (tally o set.rules (reaches o set.rules r) .fresh done + 1 : Nat) := by
      rw [hc r hr done (by omega), wrap_of_fits ⟨by omega, by omega⟩]
      rfl
    have ht :
        r.shouldTrigger (tally o set.rules (reaches o set.rules r) .fresh done + 1 : Nat) =
        Decidable.decide (Accepts r.trigger r.triggerN
          (tally o set.rules (reaches o set.rules r) .fresh done + 1)) := by
      rw [Bool.eq_iff_iff, accepts_iff (set.valid r hr), decide_eq_true_iff]
    rw [hn, ht]
  · exact fun r _ => hf r
  · intro r hr
    rw [hf r, hc r hr ps hlength]
    exact_mod_cast tally_mono ps (fun c p => reaches_of_returns distinct hr)

end run

def second (addr : Nat) : Rule :=
  { addr, action := .drop, matcher := {}, delay := 0, reorderBy := 0, duplicateCount := 0,
    trigger := .nth, triggerN := 2, probability := 0, mode := "" }

def secondOnly (addrs : List Nat) : RuleSet :=
  ⟨addrs.map second, by
    intro r hr
    obtain ⟨a, -, rfl⟩ := List.mem_map.mp hr
    exact ⟨nofun, nofun, nofun, ⟨le_rfl, zero_le_one⟩, fun _ => by simp [second]⟩⟩

def noOracle : Oracle := ⟨none, none⟩

def packet : PacketView :=
  { proto := "tcp", dir := .c2s, srcIP := "", dstIP := "", srcPort := 0, dstPort := 0,
    payloadLen := 0, payload := [], flags := 0, seq := 0, ack := 0, window := 0, index := 0,
    flow := "" }

theorem two_rules_count_own : CountsOwn noOracle (secondOnly [0, 1]).rules [packet, packet] ∧
    (after noOracle (secondOnly [0, 1]).rules .fresh [packet, packet]).counter 1 = 1 :=
  ⟨decide_counts_own (secondOnly [0, 1]) (by decide) noOracle [packet, packet] (by decide),
    by decide⟩

/-- One pointer twice: the rule for the second packet takes the first one. -/
theorem shared_pointer_takes_first :
    (decide noOracle packet (secondOnly [0, 0]).rules .fresh).1.isSome = true ∧
      ¬ CountsOwn noOracle (secondOnly [0, 0]).rules [packet] := by
  have ht : (decide noOracle packet (secondOnly [0, 0]).rules .fresh).1.isSome = true := by
    decide
  refine ⟨ht, fun h => ?_⟩
  have hf := congrArg Option.isSome (h.first [] packet [] rfl)
  revert hf
  decide

end faultbox.packet_triggers
