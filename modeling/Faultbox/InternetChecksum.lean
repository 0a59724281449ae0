-- The Internet checksum: the sum of the 16-bit words of a text with the carry brought around.
-- With the complement of the sum in a field of its own, the sum of the whole is all ones.
import Mathlib.Data.List.Basic

namespace inet

abbrev Bytes : Type := List UInt8

def addCarry (a b : Nat) : Nat := if a + b < 65536 then a + b else a + b - 65535

def checksum : Bytes → Nat → Nat
  | [], sum => sum
  | [a], sum => addCarry sum (a.toNat * 256)
  | a :: b :: rest, sum => checksum rest (addCarry sum (a.toNat * 256 + b.toNat))

def words : Bytes → Nat
  | [] => 0
  | [a] => a.toNat * 256
  | a :: b :: rest => a.toNat * 256 + b.toNat + words rest

theorem addCarry_facts {a b : Nat} (ha : a < 65536) (hb : b < 65536) :
    (0 < a + b → 0 < addCarry a b) ∧ addCarry a b < 65536 ∧
      addCarry a b % 65535 = (a + b) % 65535 := by
  unfold addCarry
  split <;> omega

theorem checksum_facts (b : Bytes) {sum : Nat} (h : sum < 65536) :
    (0 < sum + words b → 0 < checksum b sum) ∧ checksum b sum < 65536 ∧
      checksum b sum % 65535 = (sum + words b) % 65535 := by
  induction b, sum using checksum.induct with
  | case1 sum => exact ⟨id, h, rfl⟩
  | case2 a sum =>
    have ha := a.toNat_lt
    rw [checksum, words]
    exact addCarry_facts h (by omega)
  | case3 a b rest sum ih =>
    have ha := a.toNat_lt
    have hb := b.toNat_lt
    rw [checksum, words]
    obtain ⟨hpos, hlt, hmod⟩ := addCarry_facts (b := a.toNat * 256 + b.toNat) h (by omega)
    obtain ⟨hpos', hlt', hmod'⟩ := ih hlt
    refine ⟨fun hsum => hpos' ?_, hlt', ?_⟩
    · rcases Nat.eq_zero_or_pos (words rest) with hz | hw
      · rw [hz, Nat.add_zero] at hsum
        exact Nat.add_pos_left (hpos hsum) _
      · exact Nat.add_pos_right _ hw
    · rw [hmod', Nat.add_mod, hmod, ← Nat.add_mod, Nat.add_assoc]

theorem words_append {pre : Bytes} (h : pre.length % 2 = 0) (rest : Bytes) :
    words (pre ++ rest) = words pre + words rest := by
  induction pre using words.induct with
  | case1 => simp [words]
  | case2 a => simp at h
  | case3 a b pre ih =>
    rw [List.length_cons, List.length_cons] at h
    rw [List.cons_append, List.cons_append, words, words, ih (by omega)]
    omega

def high (v : Nat) : UInt8 := .ofNat (v / 256)
def low (v : Nat) : UInt8 := .ofNat (v % 256)

theorem checksum_complement {pre post : Bytes} (he : pre.length % 2 = 0) {sum v : Nat}
    (hpos : 0 < sum) (hlt : sum < 65536) (hv : v = 65535 - checksum (pre ++ 0 :: 0 :: post) sum) :
    checksum (pre ++ high v :: low v :: post) sum = 65535 := by
  have hz := checksum_facts (pre ++ 0 :: 0 :: post) hlt
  have hf := checksum_facts (pre ++ high v :: low v :: post) hlt
  have hh : (high v).toNat = v / 256 := by
    rw [high, UInt8.toNat_ofNat', Nat.mod_eq_of_lt (by omega)]
  have hlow : (low v).toNat = v % 256 := by
    rw [low, UInt8.toNat_ofNat', Nat.mod_eq_of_lt (by omega)]
  rw [words_append he, words, hh, hlow] at hf
  rw [words_append he, words] at hz
  simp only [UInt8.toNat_zero, Nat.zero_mul, Nat.zero_add] at hz
  omega

end inet
