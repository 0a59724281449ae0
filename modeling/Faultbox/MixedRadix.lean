-- Numbers in a mixed radix, least significant digit first: below the product
-- of the bases, a number and its digits determine each other.
import Mathlib.Algebra.BigOperators.Group.List.Basic
import Mathlib.Tactic

namespace mixed_radix

/-- The digits of a number: each base takes the remainder and hands the
quotient to the next one. -/
def digits : List Nat → Nat → List Nat
  | [], _ => []
  | b :: bs, i => i % b :: digits bs (i / b)

def value : List Nat → List Nat → Nat
  | b :: bs, d :: ds => d + b * value bs ds
  | _, _ => 0

/-- A digit for each base, and below it. -/
abbrev Below (ds bs : List Nat) : Prop := List.Forall₂ (· < ·) ds bs

theorem digits_below (bs : List Nat) (i : Nat) (h : i < bs.prod) : Below (digits bs i) bs := by
  induction bs generalizing i with
  | nil => exact .nil
  | cons b bs ih =>
    rw [List.prod_cons] at h
    have hb : 0 < b := by
      apply Nat.pos_of_ne_zero
      intro hz
      simp [hz] at h
    exact .cons (Nat.mod_lt i hb) (ih (i / b) (Nat.div_lt_of_lt_mul h))

theorem value_digits (bs : List Nat) (i : Nat) (h : i < bs.prod) :
    value bs (digits bs i) = i := by
  induction bs generalizing i with
  | nil =>
    simp only [List.prod_nil] at h
    simp only [value]
    omega
  | cons b bs ih =>
    rw [List.prod_cons] at h
    simp only [digits, value, ih (i / b) (Nat.div_lt_of_lt_mul h)]
    exact Nat.mod_add_div i b

theorem value_lt {ds bs : List Nat} (h : Below ds bs) : value bs ds < bs.prod := by
  induction h with
  | nil => simp [value]
  | @cons d b ds bs hd _ ih =>
    rw [List.prod_cons]
    calc d + b * value bs ds < b + b * value bs ds := by omega
      _ = b * (value bs ds + 1) := by ring
      _ ≤ b * bs.prod := Nat.mul_le_mul_left b ih

theorem digits_value {ds bs : List Nat} (h : Below ds bs) : digits bs (value bs ds) = ds := by
  induction h with
  | nil => rfl
  | @cons d b ds bs hd _ ih =>
    have hb : 0 < b := by omega
    simp only [value, digits]
    rw [Nat.add_mul_mod_self_left, Nat.mod_eq_of_lt hd, Nat.add_mul_div_left _ _ hb,
      Nat.div_eq_of_lt hd, Nat.zero_add, ih]

theorem digits_zero (bs : List Nat) : digits bs 0 = bs.map fun _ => 0 := by
  induction bs with
  | nil => rfl
  | cons b bs ih => simp [digits, ih]

end mixed_radix
