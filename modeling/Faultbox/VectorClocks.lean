-- Vector clocks in which a process takes over another one's clock without an
-- event of its own. A clock is below a later one exactly when its event caused
-- the later event: through the order of one process, and through the takeovers
-- in the order in which they were made.
import Mathlib.Logic.Function.Basic
import Mathlib.Logic.Relation
import Mathlib.Order.MinMax

namespace vclock

variable {P : Type}

/-! ## Histories and their clocks -/

/-- One entry of a history: an event of a process, a takeover of the clock of
`source` by `target`, or an entry that touches no clock. -/
inductive Act (P : Type) where
  | tick (p : P)
  | merge (target source : P)
  | idle
deriving DecidableEq

section clocks

variable [DecidableEq P]

abbrev Clocks (P : Type) := P → P → Nat

def act (c : Clocks P) : Act P → Clocks P
  | .tick p => Function.update c p (Function.update (c p) p (c p p + 1))
  | .merge target source => Function.update c target fun q => max (c target q) (c source q)
  | .idle => c

/-- The clocks after the first `k` entries. -/
def clockAt (h : List (Act P)) (k : Nat) : Clocks P := (h.take k).foldl act fun _ _ => 0

end clocks

/-! ## Causes -/

/-- What `p` knew at entry `i` is known to a process since entry `m`: to `p`
itself, and to each process that took it over later. -/
inductive Handed (h : List (Act P)) (i : Nat) (p : P) : Nat → P → Prop
  | own : Handed h i p i p
  | merge {m k : Nat} {target source : P} : Handed h i p m source → m < k →
      h[k]? = some (.merge target source) → Handed h i p k target

/-- One link of a chain of causes: a later event of the same process, or an event of
a process to which takeovers handed the first one. -/
def Link (h : List (Act P)) (i j : Nat) : Prop :=
  ∃ p q m, h[i]? = some (.tick p) ∧ h[j]? = some (.tick q) ∧ Handed h i p m q ∧ m < j

/-- The chains of links. -/
def Causes (h : List (Act P)) : Nat → Nat → Prop := Relation.TransGen (Link h)

variable {h : List (Act P)} {i j k m : Nat} {p q r : P}

theorem handed_le (hd : Handed h i p m q) : i ≤ m := by
  induction hd with
  | own => exact Nat.le_refl i
  | merge _ hlt _ ih => omega

theorem handed_at (hd : Handed h i p m q) :
    m = i ∨ ∃ source, h[m]? = some (.merge q source) := by
  cases hd with
  | own => exact Or.inl rfl
  | merge _ _ hk => exact Or.inr ⟨_, hk⟩

theorem handed_trans (h₁ : Handed h i p m q) (hmj : m < j) (h₂ : Handed h j q k r) :
    ∃ k', Handed h i p k' r ∧ k' ≤ k := by
  induction h₂ with
  | own => exact ⟨m, h₁, Nat.le_of_lt hmj⟩
  | @merge n k target source _ hlt hk ih =>
    obtain ⟨k', hk', hle⟩ := ih
    exact ⟨k, hk'.merge (Nat.lt_of_le_of_lt hle hlt) hk, Nat.le_refl k⟩

theorem link_trans (h₁ : Link h i j) (h₂ : Link h j k) : Link h i k := by
  obtain ⟨p, q, m, hi, hj, hd, hlt⟩ := h₁
  obtain ⟨q', r, n, hj', hk, hd', hlt'⟩ := h₂
  rw [hj] at hj'
  cases hj'
  obtain ⟨n', hd'', hle⟩ := handed_trans hd hlt hd'
  exact ⟨p, r, n', hi, hk, hd'', Nat.lt_of_le_of_lt hle hlt'⟩

theorem causes_iff_link : Causes h i j ↔ Link h i j := by
  refine ⟨fun hc => ?_, Relation.TransGen.single⟩
  induction hc with
  | single hl => exact hl
  | tail _ hl ih => exact link_trans ih hl

theorem causes_lt (hc : Causes h i j) : i < j := by
  obtain ⟨p, q, m, -, -, hd, hlt⟩ := causes_iff_link.mp hc
  exact Nat.lt_of_le_of_lt (handed_le hd) hlt

/-! ## One entry -/

variable [DecidableEq P]

theorem clockAt_succ {a : Act P} (hk : h[k]? = some a) :
    clockAt h (k + 1) = act (clockAt h k) a := by
  rw [clockAt, clockAt, List.take_add_one, hk, Option.toList_some, List.foldl_append]
  rfl

theorem clockAt_end (hk : h[k]? = none) : clockAt h (k + 1) = clockAt h k := by
  rw [clockAt, clockAt, List.take_add_one, hk, Option.toList_none, List.append_nil]

theorem tick_self (c : Clocks P) (p : P) : act c (.tick p) p p = c p p + 1 := by
  simp only [act, Function.update_self]

theorem tick_other (c : Clocks P) (hne : ¬ (r = p ∧ q = p)) :
    act c (.tick p) r q = c r q := by
  rw [act]
  by_cases hr : r = p
  · subst hr
    rw [Function.update_self, Function.update_of_ne fun hq => hne ⟨rfl, hq⟩]
  · rw [Function.update_of_ne hr]

theorem merge_target (c : Clocks P) (target source q : P) :
    act c (.merge target source) target q = max (c target q) (c source q) := by
  simp only [act, Function.update_self]

theorem merge_other (c : Clocks P) {target source : P} (hne : r ≠ target) :
    act c (.merge target source) r = c r := by
  rw [act, Function.update_of_ne hne]

theorem act_mono (c : Clocks P) (a : Act P) (r q : P) : c r q ≤ act c a r q := by
  cases a with
  | tick p =>
    by_cases hp : r = p ∧ q = p
    · obtain ⟨rfl, rfl⟩ := hp
      rw [tick_self]
      exact Nat.le_succ _
    · exact Nat.le_of_eq (tick_other c hp).symm
  | merge target source =>
    by_cases hr : r = target
    · subst hr
      rw [merge_target]
      exact Nat.le_max_left _ _
    · exact Nat.le_of_eq (congrFun (merge_other c hr) q).symm
  | idle => exact Nat.le_refl _

/-- No process knows more events of `q` than `q` itself. -/
def OwnGreatest (c : Clocks P) : Prop := ∀ r q, c r q ≤ c q q

theorem act_ownGreatest {c : Clocks P} (hc : OwnGreatest c) (a : Act P) :
    OwnGreatest (act c a) := by
  intro r q
  have hm := act_mono c a q q
  cases a with
  | tick p =>
    by_cases hp : r = p ∧ q = p
    · obtain ⟨rfl, rfl⟩ := hp
      exact Nat.le_refl _
    · rw [tick_other c hp]
      exact Nat.le_trans (hc r q) hm
  | merge target source =>
    by_cases hr : r = target
    · subst hr
      rw [merge_target]
      exact Nat.max_le.mpr ⟨Nat.le_trans (hc r q) hm, Nat.le_trans (hc source q) hm⟩
    · rw [merge_other c hr]
      exact Nat.le_trans (hc r q) hm
  | idle => exact hc r q

/-! ## Whole histories -/

theorem clockAt_ownGreatest (h : List (Act P)) (k : Nat) : OwnGreatest (clockAt h k) := by
  induction k with
  | zero => exact fun _ _ => Nat.le_refl 0
  | succ k ih =>
    cases hk : h[k]? with
    | none =>
      rw [clockAt_end hk]
      exact ih
    | some a =>
      rw [clockAt_succ hk]
      exact act_ownGreatest ih a

theorem clockAt_mono (h : List (Act P)) (hle : i ≤ k) (r q : P) :
    clockAt h i r q ≤ clockAt h k r q := by
  induction hle with
  | refl => exact Nat.le_refl _
  | @step k _ ih =>
    refine Nat.le_trans ih ?_
    cases hk : h[k]? with
    | none => rw [clockAt_end hk]
    | some a =>
      rw [clockAt_succ hk]
      exact act_mono _ a r q

theorem handed_clock_le (hd : Handed h i p m q) (hlt : m < k) (r : P) :
    clockAt h (i + 1) p r ≤ clockAt h k q r := by
  induction hd generalizing k with
  | own => exact clockAt_mono h hlt p r
  | @merge m n target source _ hmn hn ih =>
    calc clockAt h (i + 1) p r
        ≤ clockAt h n source r := ih hmn
      _ ≤ clockAt h (n + 1) target r := by
          rw [clockAt_succ hn, merge_target]
          exact Nat.le_max_right _ _
      _ ≤ clockAt h k target r := clockAt_mono h hlt target r

/-- Who knows the own component of an event was handed the event. The induction is
on the entries after the event; a tick of `p` only adds to what `p` itself knows. -/
theorem handed_of_clock_le (hi : h[i]? = some (.tick p)) (hik : i < k)
    (hle : clockAt h (i + 1) p p ≤ clockAt h k q p) : ∃ m, Handed h i p m q ∧ m < k := by
  induction hik generalizing q with
  | refl =>
    by_cases hq : q = p
    · subst hq
      exact ⟨i, .own, Nat.lt_succ_self i⟩
    · have hown := clockAt_ownGreatest h i q p
      rw [clockAt_succ hi, tick_self, tick_other _ fun hand => hq hand.1] at hle
      omega
  | @step k hik ih =>
    have later : ∀ r, clockAt h (i + 1) p p ≤ clockAt h k r p →
        ∃ m, Handed h i p m r ∧ m < k + 1 := fun r hr => by
      obtain ⟨m, hm, hlt⟩ := ih hr
      exact ⟨m, hm, Nat.lt_succ_of_lt hlt⟩
    cases hk : h[k]? with
    | none =>
      rw [clockAt_end hk] at hle
      exact later q hle
    | some a =>
      rw [clockAt_succ hk] at hle
      cases a with
      | tick r =>
        by_cases hq : q = r ∧ p = r
        · rw [hq.1, ← hq.2]
          exact ⟨i, .own, Nat.lt_succ_of_lt hik⟩
        · rw [tick_other _ hq] at hle
          exact later q hle
      | merge target source =>
        by_cases hq : q = target
        · subst hq
          rw [merge_target] at hle
          rcases le_max_iff.mp hle with hle | hle
          · exact later q hle
          · obtain ⟨m, hm, hlt⟩ := ih hle
            exact ⟨k, hm.merge hlt hk, Nat.lt_succ_self k⟩
        · rw [merge_other _ hq] at hle
          exact later q hle
      | idle => exact later q hle

/-- A clock is below another one exactly when its event caused the other event. -/
theorem clock_lt_iff_causes (hi : h[i]? = some (.tick p)) (hj : h[j]? = some (.tick q)) :
    ((∀ r, clockAt h (i + 1) p r ≤ clockAt h (j + 1) q r) ∧
      ∃ r, clockAt h (i + 1) p r < clockAt h (j + 1) q r) ↔ Causes h i j := by
  rw [causes_iff_link]
  constructor
  · rintro ⟨hle, r, hlt⟩
    rcases Nat.lt_trichotomy i j with hij | rfl | hji
    · obtain ⟨m, hd, hm⟩ := handed_of_clock_le hi (Nat.lt_succ_of_lt hij) (hle p)
      refine ⟨p, q, m, hi, hj, hd, ?_⟩
      have hne : m ≠ j := by
        rintro rfl
        rcases handed_at hd with rfl | ⟨source, hs⟩
        · exact Nat.lt_irrefl _ hij
        · rw [hj] at hs
          cases hs
      omega
    · rw [hi] at hj
      cases hj
      exact absurd hlt (Nat.lt_irrefl _)
    · -- the later event has an own component that no earlier clock reaches
      have hb : clockAt h (i + 1) p p ≤ clockAt h i p p :=
        calc clockAt h (i + 1) p p
            ≤ clockAt h (j + 1) q p := hle p
          _ ≤ clockAt h i q p := clockAt_mono h hji q p
          _ ≤ clockAt h i p p := clockAt_ownGreatest h i q p
      rw [clockAt_succ hi, tick_self] at hb
      omega
  · rintro ⟨p', q', m, hi', hj', hd, hlt⟩
    rw [hi] at hi'
    rw [hj] at hj'
    cases hi'
    cases hj'
    refine ⟨handed_clock_le hd (Nat.lt_succ_of_lt hlt), q, ?_⟩
    have hij : i < j := Nat.lt_of_le_of_lt (handed_le hd) hlt
    calc clockAt h (i + 1) p q
        ≤ clockAt h j p q := clockAt_mono h hij p q
      _ ≤ clockAt h j q q := clockAt_ownGreatest h j p q
      _ < clockAt h (j + 1) q q := by
          rw [clockAt_succ hj, tick_self]
          exact Nat.lt_succ_self _

end vclock
