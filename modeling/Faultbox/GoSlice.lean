-- Go slices: a window of a backing array. An append writes behind the window or moves it to
-- a larger array, a re-slice moves its start, and append(s[:i], s[i+1:]...) moves the
-- elements behind i to the left in place. Each is an operation of lists on what is in view.
import Mathlib.Data.List.Basic
import Mathlib.Tactic

namespace goslice

variable {α : Type}

/-- A slice, with the array behind it. -/
structure Slice (α : Type) where
  array : List α
  lo : Nat
  len : Nat
  fits : lo + len ≤ array.length

namespace Slice

def view (s : Slice α) : List α := (s.array.drop s.lo).take s.len

@[simp] theorem length_view (s : Slice α) : s.view.length = s.len := by
  have hf := s.fits
  unfold view
  rw [List.length_take, List.length_drop]
  omega

theorem exists_parts (s : Slice α) :
    ∃ before behind, s.array = before ++ (s.view ++ behind) ∧ s.lo = before.length := by
  have hf := s.fits
  refine ⟨s.array.take s.lo, s.array.drop (s.lo + s.len), ?_, ?_⟩
  · have hs : s.view ++ s.array.drop (s.lo + s.len) = s.array.drop s.lo := by
      unfold view
      rw [← List.drop_drop, List.take_append_drop]
    rw [hs, List.take_append_drop]
  · rw [List.length_take]
    omega

theorem view_of_parts (s : Slice α) (before inside behind : List α)
    (ha : s.array = before ++ (inside ++ behind)) (hlo : s.lo = before.length)
    (hlen : s.len = inside.length) : s.view = inside := by
  unfold view
  rw [ha, hlo, hlen, List.drop_left, List.take_left]

def empty : Slice α := ⟨[], 0, 0, Nat.le_refl 0⟩

@[simp] theorem view_empty : (empty : Slice α).view = [] := rfl

/-! ## append(s, x) -/

/-- There is room behind the window, or the window moves to an array that the runtime chose
larger. -/
def push (s : Slice α) (x : α) (room : List α) : Slice α :=
  if h : s.lo + s.len < s.array.length then
    ⟨s.array.set (s.lo + s.len) x, s.lo, s.len + 1, by rw [List.length_set]; omega⟩
  else ⟨s.view ++ x :: room, 0, s.len + 1, by simp⟩

@[simp] theorem view_push (s : Slice α) (x : α) (room : List α) :
    (s.push x room).view = s.view ++ [x] := by
  have hl := s.length_view
  unfold push
  split
  · rename_i hr
    obtain ⟨before, behind, ha, hlo⟩ := s.exists_parts
    -- the cell behind the window is there, and takes the element
    have hc : 0 < behind.length := by
      rw [ha] at hr
      simp only [List.length_append] at hr
      omega
    obtain ⟨y, rest, rfl⟩ := List.exists_cons_of_length_pos hc
    apply view_of_parts _ before (s.view ++ [x]) rest
    · simp only [ha]
      rw [← List.append_assoc, List.set_append_right _ _ (by simp; omega)]
      have hat : s.lo + s.len - (before ++ s.view).length = 0 := by
        rw [List.length_append]
        omega
      rw [hat]
      simp
    · exact hlo
    · rw [List.length_append, hl, List.length_singleton]
  · apply view_of_parts _ [] (s.view ++ [x]) room
    · simp
    · rfl
    · rw [List.length_append, hl, List.length_singleton]

/-! ## s[1:] -/

def next (s : Slice α) : Slice α :=
  if h : 0 < s.len then
    ⟨s.array, s.lo + 1, s.len - 1, by have := s.fits; omega⟩
  else s

@[simp] theorem view_next (s : Slice α) : s.next.view = s.view.tail := by
  unfold next
  split
  · unfold view
    rw [← List.drop_one, List.drop_take, List.drop_drop]
  · have hz : s.len = 0 := by omega
    unfold view
    rw [hz]
    rfl

/-! ## append(s[:i], s[i+1:]...) -/

/-- `k` cells move to the left, the first of them to `i`. -/
def shiftLeft (array : List α) (i : Nat) : Nat → List α
  | 0 => array
  | k + 1 =>
    match array[i + 1]? with
    | some x => shiftLeft (array.set i x) (i + 1) k
    | none => array

@[simp] theorem length_shiftLeft (array : List α) (i k : Nat) :
    (shiftLeft array i k).length = array.length := by
  induction k generalizing array i with
  | zero => rfl
  | succ k ih =>
    unfold shiftLeft
    split
    · rw [ih, List.length_set]
    · rfl

theorem shiftLeft_parts (before moved : List α) (x : α) (behind : List α) :
    ∃ last, shiftLeft (before ++ x :: (moved ++ behind)) before.length moved.length =
      before ++ (moved ++ last :: behind) := by
  induction moved generalizing before x with
  | nil => exact ⟨x, rfl⟩
  | cons y moved ih =>
    have hc : (before ++ x :: (y :: moved ++ behind))[before.length + 1]? = some y := by
      rw [List.getElem?_append_right (by omega)]
      simp
    obtain ⟨last, hl⟩ := ih (before ++ [y]) y
    refine ⟨last, ?_⟩
    rw [List.length_cons, shiftLeft, hc]
    have hset : (before ++ x :: (y :: moved ++ behind)).set before.length y =
        (before ++ [y]) ++ y :: (moved ++ behind) := by
      rw [List.set_append_right _ _ (Nat.le_refl _)]
      simp
    simp only [hset]
    rw [List.length_append, List.length_singleton] at hl
    rw [hl]
    simp

def removeAt (s : Slice α) (i : Nat) : Slice α :=
  if h : i < s.len then
    ⟨shiftLeft s.array (s.lo + i) (s.len - (i + 1)), s.lo, s.len - 1, by
      rw [length_shiftLeft]
      have := s.fits
      omega⟩
  else s

@[simp] theorem view_removeAt (s : Slice α) (i : Nat) :
    (s.removeAt i).view = s.view.eraseIdx i := by
  have hl := s.length_view
  unfold removeAt
  split
  · rename_i hi
    have hin : i < s.view.length := by omega
    obtain ⟨before, behind, ha, hlo⟩ := s.exists_parts
    have hcut : s.view = s.view.take i ++ s.view[i] :: s.view.drop (i + 1) := by
      rw [← List.drop_eq_getElem_cons hin, List.take_append_drop]
    obtain ⟨last, hla⟩ :=
      shiftLeft_parts (before ++ s.view.take i) (s.view.drop (i + 1)) s.view[i] behind
    have hat : s.lo + i = (before ++ s.view.take i).length := by
      rw [List.length_append, List.length_take, hlo, Nat.min_eq_left (by omega)]
    have hc : s.len - (i + 1) = (s.view.drop (i + 1)).length := by
      rw [List.length_drop, hl]
    have hw : s.array =
        (before ++ s.view.take i) ++ s.view[i] :: (s.view.drop (i + 1) ++ behind) := by
      rw [List.append_assoc, ← List.cons_append, ← List.append_assoc (s.view.take i), ← hcut]
      exact ha
    apply view_of_parts _ before (s.view.eraseIdx i) (last :: behind)
    · simp only [hat, hc]
      rw [hw, hla, List.eraseIdx_eq_take_drop_succ]
      simp
    · exact hlo
    · rw [List.length_eraseIdx_of_lt hin, hl]
  · rw [List.eraseIdx_of_length_le (by omega)]

end Slice

end goslice
