-- The two decoders of interleavings: permutationByIndex of the plan walker and
-- PermutationFromIndex of the engine. The law: up to twelve branches both list every
-- permutation once, in lexicographic order, under the same numbers.
import Faultbox.ExploreHold
import Faultbox.GoValues
import Faultbox.Lehmer

open goval
open Nat (factorial)

namespace faultbox.permutations

variable {m k n : Nat} {pool : List Nat}

/-! ## permutationByIndex -/

def fact : Nat → Int
  | 0 => 1
  | i + 1 => wrap (fact i * (i + 1))

/-- The loop, with the number of turns that are left: `none` where the code panics, on
a division by zero or an index below zero. -/
def takeDigits : Nat → List Nat → Int → Option (List Nat)
  | 0, _, _ => some []
  | m + 1, pool, k =>
    if fact m = 0 then none
    else
      let digit := k.tdiv (fact m)
      if digit < 0 then none
      else
        let clamped := if (pool.length : Int) ≤ digit then pool.length - 1 else digit.toNat
        match pool[clamped]? with
        | none => none
        | some x =>
          (takeDigits m (pool.eraseIdx clamped) (k.tmod (fact m))).map (x :: ·)

def permutationByIndex (n k : Int) : Option (List Nat) :=
  if n ≤ 0 then some []
  else takeDigits n.toNat (List.range n.toNat) (max k 0)

/-! ## Both decoders arrange the branches -/

theorem factorial_lt_of_le {i : Nat} (h : i ≤ 20) : factorial i < 2 ^ 63 :=
  lt_of_le_of_lt (Nat.factorial_le h) (by decide)

theorem fact_eq {i : Nat} (h : i ≤ 20) : fact i = (factorial i : Int) := by
  induction i with
  | zero => simp [fact]
  | succ i ih =>
    have hlt := factorial_lt_of_le h
    rw [fact, ih (by omega)]
    have hp : (factorial i : Int) * (i + 1) = (factorial (i + 1) : Nat) := by
      rw [Nat.factorial_succ]
      push_cast
      ring
    rw [hp]
    apply wrap_of_fits
    constructor
    · omega
    · exact_mod_cast hlt

theorem takeDigits_eq (hm : m ≤ 21) (hlen : pool.length = m) (hk : k < factorial m) :
    takeDigits m pool k = some (lehmer.arrange m pool k) := by
  induction m generalizing pool k with
  | zero => simp [takeDigits, lehmer.arrange]
  | succ m ih =>
    have hd := lehmer.digit_lt hk
    have hpos := Nat.factorial_pos m
    have hdi : (k : Int).tdiv (factorial m : Nat) = (k / factorial m : Nat) := by
      rw [Int.tdiv_eq_ediv_of_nonneg (by omega)]
      rfl
    have hmod : (k : Int).tmod (factorial m : Nat) = (k % factorial m : Nat) := by
      rw [Int.tmod_eq_emod_of_nonneg (by omega)]
      rfl
    have hi : k / factorial m < pool.length := by omega
    have hc : ¬ (pool.length : Int) ≤ (k / factorial m : Nat) := by omega
    have hr := ih (by omega) (lehmer.length_eraseIdx_digit hlen hd) (lehmer.rest_lt m k)
    have hn : ¬ ((k / factorial m : Nat) : Int) < 0 := Int.not_lt.mpr (Int.natCast_nonneg _)
    rw [takeDigits, fact_eq (by omega), if_neg (by omega), lehmer.arrange_succ hi rfl]
    simp only [hdi, hmod, if_neg hn, if_neg hc, Int.toNat_natCast,
      List.getElem?_eq_getElem hi, hr, Option.map_some]

theorem permutationByIndex_eq (hn : n ≤ 21) (hk : k < factorial n) :
    permutationByIndex n k = some (lehmer.arrange n (List.range n) k) := by
  unfold permutationByIndex
  split
  · have hz : n = 0 := by omega
    subst hz
    simp [lehmer.arrange]
  · have hmax : max (k : Int) 0 = k := by omega
    rw [hmax, Int.toNat_natCast]
    exact takeDigits_eq hn List.length_range hk

theorem engineFactorial_eq (hn : n ≤ 12) : suite.engineFactorial n = factorial n := by
  unfold suite.engineFactorial
  rw [Int.toNat_natCast, Nat.min_eq_left hn]

theorem pickDigits_eq (hm : m ≤ 13) (hlen : pool.length = m) (hk : k < factorial m) :
    explore_hold.pickDigits m pool k = lehmer.arrange m pool k := by
  induction m generalizing pool k with
  | zero => simp [explore_hold.pickDigits, lehmer.arrange]
  | succ m ih =>
    have hd := lehmer.digit_lt hk
    have hi : k / factorial m < pool.length := by omega
    have hr := ih (by omega) (lehmer.length_eraseIdx_digit hlen hd) (lehmer.rest_lt m k)
    rw [explore_hold.pickDigits, engineFactorial_eq (by omega), lehmer.arrange_succ hi rfl]
    simp only [List.getElem?_eq_getElem hi, Option.getD_some, hr]

theorem permutationFromIndex_eq (hn : n ≤ 12) (hk : k < factorial n) :
    explore_hold.permutationFromIndex n k = lehmer.arrange n (List.range n) k := by
  unfold explore_hold.permutationFromIndex
  rw [engineFactorial_eq hn, Nat.mod_eq_of_lt hk]
  exact pickDigits_eq (by omega) List.length_range hk

theorem engineFactorial_succ_le (m : Nat) :
    suite.engineFactorial (m + 1 : Nat) ≤ (m + 1) * suite.engineFactorial m := by
  unfold suite.engineFactorial
  rw [Int.toNat_natCast, Int.toNat_natCast]
  rcases Nat.lt_or_ge m 12 with hm | hm
  · rw [Nat.min_eq_left (by omega : m + 1 ≤ 12), Nat.min_eq_left (by omega : m ≤ 12),
      Nat.factorial_succ]
  · rw [Nat.min_eq_right (by omega : 12 ≤ m + 1), Nat.min_eq_right hm]
    exact Nat.le_mul_of_pos_left _ (Nat.succ_pos m)

theorem engineFactorial_pos (n : Nat) : 0 < suite.engineFactorial n := Nat.factorial_pos _

theorem pickDigits_perm (hlen : pool.length = m) (hk : k < suite.engineFactorial m) :
    (explore_hold.pickDigits m pool k).Perm pool := by
  induction m generalizing pool k with
  | zero =>
    rw [List.eq_nil_of_length_eq_zero hlen]
    exact .refl _
  | succ m ih =>
    have hd : k / suite.engineFactorial m < m + 1 := by
      rw [Nat.div_lt_iff_lt_mul (engineFactorial_pos m)]
      exact Nat.lt_of_lt_of_le hk (engineFactorial_succ_le m)
    have hi : k / suite.engineFactorial m < pool.length := by omega
    have hr := ih (lehmer.length_eraseIdx_digit hlen hd)
      (Nat.mod_lt k (engineFactorial_pos m))
    rw [explore_hold.pickDigits]
    simp only [List.getElem?_eq_getElem hi, Option.getD_some]
    exact (hr.cons _).trans (List.getElem_cons_eraseIdx_perm _)

theorem permutationFromIndex_perm (n k : Nat) :
    (explore_hold.permutationFromIndex n k).Perm (List.range n) :=
  pickDigits_perm List.length_range (Nat.mod_lt k (engineFactorial_pos n))

/-! ## The listing -/

def listing (n : Nat) : List (List Nat) :=
  (List.range (factorial n)).map (lehmer.arrange n (List.range n))

theorem mem_listing (n : Nat) (p : List Nat) : p ∈ listing n ↔ p.Perm (List.range n) := by
  unfold listing
  rw [List.mem_map]
  constructor
  · rintro ⟨k, hk, rfl⟩
    exact lehmer.arrange_perm List.length_range (List.mem_range.mp hk)
  · intro hp
    obtain ⟨k, hk, ha⟩ := lehmer.exists_number List.length_range hp
    exact ⟨k, List.mem_range.mpr hk, ha⟩

theorem listing_sorted (n : Nat) : (listing n).Pairwise (List.Lex (· < ·)) := by
  unfold listing
  rw [List.pairwise_map]
  apply List.Pairwise.imp_of_mem _ List.pairwise_lt_range
  intro k l _ hl hkl
  exact lehmer.arrange_lt List.length_range List.pairwise_lt_range hkl (List.mem_range.mp hl)

/-- Up to twelve branches, the numbers below the factorial list every permutation once, in
lexicographic order, and the engine reads the same permutation from each number. -/
theorem decoders_list_every_permutation (n : Nat) (hn : n ≤ 12) :
    ∃ perms : List (List Nat),
      (List.range (factorial n)).map (fun k : Nat => permutationByIndex n k) = perms.map some ∧
      perms.Pairwise (List.Lex (· < ·)) ∧ (∀ p, p ∈ perms ↔ p.Perm (List.range n)) ∧
      (List.range (factorial n)).map (explore_hold.permutationFromIndex n) = perms := by
  refine ⟨listing n, ?_, listing_sorted n, mem_listing n, ?_⟩
  · unfold listing
    rw [List.map_map]
    apply List.map_congr_left
    intro k hk
    exact permutationByIndex_eq (by omega) (List.mem_range.mp hk)
  · unfold listing
    apply List.map_congr_left
    intro k hk
    exact permutationFromIndex_eq hn (List.mem_range.mp hk)

/-- Three branches. -/
theorem decoders_list_six_permutations :
    3 ≤ 12 ∧ ∃ perms : List (List Nat),
      (List.range 6).map (fun k : Nat => permutationByIndex 3 k) = perms.map some ∧
      perms.Pairwise (List.Lex (· < ·)) ∧ (∀ p, p ∈ perms ↔ p.Perm [0, 1, 2]) ∧
      (List.range 6).map (explore_hold.permutationFromIndex 3) = perms :=
  ⟨by omega, decoders_list_every_permutation 3 (by omega)⟩

example : explore_hold.permutationFromIndex 3 4 = [2, 0, 1] := by decide

end faultbox.permutations
