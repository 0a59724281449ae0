-- Arrangements of a list by number, in the factorial number system: a digit picks an
-- element, and the digits after it arrange the rest. The numbers below the factorial of
-- the length list every arrangement once, in lexicographic order.
import Mathlib.Data.Nat.Factorial.Basic
import Mathlib.Data.List.Perm.Basic
import Mathlib.Tactic

open Nat (factorial)

namespace lehmer

variable {α : Type}

/-- The arrangement of a list of length `m` that has the number `k`. -/
def arrange : Nat → List α → Nat → List α
  | 0, _, _ => []
  | m + 1, pool, k =>
    (pool[k / factorial m]?).toList ++
      arrange m (pool.eraseIdx (k / factorial m)) (k % factorial m)

theorem digit_lt {m k : Nat} (h : k < factorial (m + 1)) : k / factorial m < m + 1 := by
  rw [Nat.factorial_succ] at h
  exact Nat.div_lt_of_lt_mul (by rwa [Nat.mul_comm] at h)

theorem rest_lt (m k : Nat) : k % factorial m < factorial m :=
  Nat.mod_lt k (Nat.factorial_pos m)

section pick

variable {m : Nat} {pool : List α}

theorem length_eraseIdx_digit (hlen : pool.length = m + 1) {d : Nat} (hd : d < m + 1) :
    (pool.eraseIdx d).length = m := by
  rw [List.length_eraseIdx_of_lt (by omega), hlen]
  omega

theorem arrange_succ {d : Nat} (hd : d < pool.length) {k : Nat} (hk : k / factorial m = d) :
    arrange (m + 1) pool k = pool[d] :: arrange m (pool.eraseIdx d) (k % factorial m) := by
  rw [arrange, hk, List.getElem?_eq_getElem hd]
  simp

theorem arrange_perm (hlen : pool.length = m) {k : Nat} (hk : k < factorial m) :
    (arrange m pool k).Perm pool := by
  induction m generalizing pool k with
  | zero =>
    rw [List.eq_nil_of_length_eq_zero hlen]
    simp [arrange]
  | succ m ih =>
    have hd := digit_lt hk
    rw [arrange_succ (by omega) rfl]
    have hr := ih (length_eraseIdx_digit hlen hd) (rest_lt m k)
    exact (hr.cons _).trans (List.getElem_cons_eraseIdx_perm _)

theorem exists_number (hlen : pool.length = m) {p : List α} (hp : p.Perm pool) :
    ∃ k < factorial m, arrange m pool k = p := by
  induction m generalizing pool p with
  | zero =>
    rw [List.eq_nil_of_length_eq_zero hlen] at hp
    exact ⟨0, by simp, by simp [arrange, hp.eq_nil]⟩
  | succ m ih =>
    cases p with
    | nil =>
      rw [← hp.nil_eq] at hlen
      simp at hlen
    | cons x p =>
      obtain ⟨d, hd, hx⟩ := List.getElem_of_mem (hp.subset List.mem_cons_self)
      have hr : p.Perm (pool.eraseIdx d) := by
        apply List.Perm.cons_inv
        apply hp.trans
        rw [← hx]
        exact (List.getElem_cons_eraseIdx_perm hd).symm
      obtain ⟨k, hk, ha⟩ := ih (length_eraseIdx_digit hlen (by omega)) hr
      have hpos := Nat.factorial_pos m
      have hdiv : (d * factorial m + k) / factorial m = d := by
        rw [Nat.mul_comm, Nat.mul_add_div hpos, Nat.div_eq_of_lt hk, Nat.add_zero]
      have hmod : (d * factorial m + k) % factorial m = k := by
        rw [Nat.mul_comm, Nat.mul_add_mod, Nat.mod_eq_of_lt hk]
      refine ⟨d * factorial m + k, ?_, ?_⟩
      · rw [Nat.factorial_succ]
        calc d * factorial m + k < d * factorial m + factorial m := by omega
          _ = (d + 1) * factorial m := by ring
          _ ≤ (m + 1) * factorial m := Nat.mul_le_mul_right _ (by omega)
      · rw [arrange_succ hd hdiv, hmod, ha, hx]

theorem arrange_lt [LT α] (hlen : pool.length = m) (hs : pool.Pairwise (· < ·)) {k l : Nat}
    (hkl : k < l) (hl : l < factorial m) :
    List.Lex (· < ·) (arrange m pool k) (arrange m pool l) := by
  induction m generalizing pool k l with
  | zero =>
    rw [Nat.factorial_zero] at hl
    omega
  | succ m ih =>
    have hdl := digit_lt hl
    have hdk := digit_lt (lt_trans hkl hl)
    have hle : k / factorial m ≤ l / factorial m := Nat.div_le_div_right hkl.le
    rw [arrange_succ (by omega) rfl, arrange_succ (k := l) (by omega) rfl]
    rcases Nat.lt_or_eq_of_le hle with hlt | heq
    · apply List.Lex.rel
      exact List.pairwise_iff_getElem.mp hs _ _ (by omega) (by omega) hlt
    · -- the same element comes first, and the rests decide
      have hmod : k % factorial m < l % factorial m := by
        have h1 := Nat.div_add_mod k (factorial m)
        have h2 := Nat.div_add_mod l (factorial m)
        rw [heq] at h1
        omega
      simp only [heq]
      apply List.Lex.cons
      exact ih (length_eraseIdx_digit hlen hdl) (hs.sublist (List.eraseIdx_sublist _ _)) hmod
        (rest_lt m l)

end pick

end lehmer
