-- A loop over a list that visits one element after the other, changes it and a
-- state of its own, and ends early when a visit says so. The rules split a scan
-- at the element that ended it, and say what it leaves at each place.
import Mathlib.Data.List.Basic

namespace scan

variable {σ α β : Type}

/-- What one visit decides: go on, leave the loop, or take the element. -/
inductive Step (β : Type) where
  | next
  | stop
  | take (b : β)
deriving DecidableEq

/-- The decision that ended the loop, the list with its visited elements
changed, and the last state. -/
def run (visit : σ → α → Step β × α × σ) : List α → σ → Step β × List α × σ
  | [], s => (.next, [], s)
  | a :: rest, s =>
    match visit s a with
    | (.next, a', s') =>
      ((run visit rest s').1, a' :: (run visit rest s').2.1, (run visit rest s').2.2)
    | (.stop, a', s') => (.stop, a' :: rest, s')
    | (.take b, a', s') => (.take b, a' :: rest, s')

variable {visit : σ → α → Step β × α × σ}

theorem run_cons_next {a : α} {s : σ} (h : (visit s a).1 = .next) (rest : List α) :
    run visit (a :: rest) s =
      ((run visit rest (visit s a).2.2).1, (visit s a).2.1 :: (run visit rest (visit s a).2.2).2.1,
        (run visit rest (visit s a).2.2).2.2) := by
  rw [run]
  split
  · rename_i heq
    rw [heq]
  · rename_i heq
    rw [heq] at h
    cases h
  · rename_i heq
    rw [heq] at h
    cases h

theorem run_cons_end {a : α} {s : σ} (h : (visit s a).1 ≠ .next) (rest : List α) :
    run visit (a :: rest) s = ((visit s a).1, (visit s a).2.1 :: rest, (visit s a).2.2) := by
  rw [run]
  split
  · rename_i heq
    rw [heq] at h
    exact absurd rfl h
  · rename_i heq
    rw [heq]
  · rename_i heq
    rw [heq]

theorem run_append {l : List α} {s : σ} (h : (run visit l s).1 = .next) (rest : List α) :
    run visit (l ++ rest) s =
      ((run visit rest (run visit l s).2.2).1,
        (run visit l s).2.1 ++ (run visit rest (run visit l s).2.2).2.1,
        (run visit rest (run visit l s).2.2).2.2) := by
  induction l generalizing s with
  | nil => rfl
  | cons a l ih =>
    by_cases ha : (visit s a).1 = .next
    · rw [run_cons_next ha] at h
      rw [List.cons_append, run_cons_next ha, ih h, run_cons_next ha]
      rfl
    · rw [run_cons_end ha] at h
      exact absurd h ha

theorem run_append_end {l : List α} {s : σ} (h : (run visit l s).1 ≠ .next) (rest : List α) :
    run visit (l ++ rest) s =
      ((run visit l s).1, (run visit l s).2.1 ++ rest, (run visit l s).2.2) := by
  induction l generalizing s with
  | nil => exact absurd rfl h
  | cons a l ih =>
    by_cases ha : (visit s a).1 = .next
    · rw [run_cons_next ha] at h
      rw [List.cons_append, run_cons_next ha, run_cons_next ha, ih h]
      rfl
    · rw [List.cons_append, run_cons_end ha, run_cons_end ha]
      rfl

theorem run_append_of_end {l : List α} {s : σ} (h : (run visit l s).1 ≠ .next) (rest : List α) :
    (run visit (l ++ rest) s).1 = (run visit l s).1 := by
  rw [run_append_end h]

theorem exists_of_end {l : List α} {s : σ} {d : Step β} (h : (run visit l s).1 = d)
    (hd : d ≠ .next) :
    ∃ before a after, l = before ++ a :: after ∧ (run visit before s).1 = .next ∧
      (visit (run visit before s).2.2 a).1 = d := by
  induction l generalizing s with
  | nil => exact absurd h.symm hd
  | cons a l ih =>
    by_cases ha : (visit s a).1 = .next
    · rw [run_cons_next ha] at h
      obtain ⟨before, b, after, rfl, hbe, hb⟩ := ih h
      refine ⟨a :: before, b, after, rfl, ?_, ?_⟩
      · rw [run_cons_next ha]
        exact hbe
      · rw [run_cons_next ha]
        exact hb
    · rw [run_cons_end ha] at h
      exact ⟨[], a, l, rfl, rfl, h⟩

theorem run_split {before : List α} {s : σ} (h : (run visit before s).1 = .next) (a : α)
    (after : List α) (ha : (visit (run visit before s).2.2 a).1 ≠ .next) :
    (run visit (before ++ a :: after) s).1 = (visit (run visit before s).2.2 a).1 := by
  rw [run_append h, run_cons_end ha]

theorem exists_next_of_mem {l : List α} {s : σ} (h : (run visit l s).1 = .next) {a : α}
    (ha : a ∈ l) : ∃ s', (visit s' a).1 = .next := by
  induction l generalizing s with
  | nil => cases ha
  | cons b l ih =>
    by_cases hb : (visit s b).1 = .next
    · rw [run_cons_next hb] at h
      rcases List.mem_cons.mp ha with rfl | hmem
      · exact ⟨s, hb⟩
      · exact ih h hmem
    · rw [run_cons_end hb] at h
      exact absurd h hb

/-! ## The list that a loop leaves -/

theorem map_run {γ : Type} {f : α → γ} (hv : ∀ s a, f (visit s a).2.1 = f a) (l : List α)
    (s : σ) : (run visit l s).2.1.map f = l.map f := by
  induction l generalizing s with
  | nil => rfl
  | cons a l ih =>
    by_cases ha : (visit s a).1 = .next
    · rw [run_cons_next ha, List.map_cons, ih, hv, List.map_cons]
    · rw [run_cons_end ha, List.map_cons, hv, List.map_cons]

theorem getElem?_run_of_reached {l : List α} {s : σ} {i : Nat} {a : α} (h : l[i]? = some a)
    (hr : (run visit (l.take i) s).1 = .next) :
    (run visit l s).2.1[i]? = some (visit (run visit (l.take i) s).2.2 a).2.1 := by
  induction l generalizing s i with
  | nil => cases h
  | cons b l ih =>
    cases i with
    | zero =>
      obtain rfl : b = a := by simpa using h
      by_cases hb : (visit s b).1 = .next
      · rw [run_cons_next hb]
        rfl
      · rw [run_cons_end hb]
        rfl
    | succ i =>
      rw [List.getElem?_cons_succ] at h
      rw [List.take_succ_cons] at hr ⊢
      by_cases hb : (visit s b).1 = .next
      · rw [run_cons_next hb] at hr
        rw [run_cons_next hb, run_cons_next hb, List.getElem?_cons_succ]
        exact ih h hr
      · rw [run_cons_end hb] at hr
        exact absurd hr hb

theorem getElem?_run_of_unreached {l : List α} {s : σ} {i : Nat} {a : α} (h : l[i]? = some a)
    (hr : (run visit (l.take i) s).1 ≠ .next) : (run visit l s).2.1[i]? = some a := by
  induction l generalizing s i with
  | nil => cases h
  | cons b l ih =>
    cases i with
    | zero => exact absurd rfl hr
    | succ i =>
      rw [List.getElem?_cons_succ] at h
      rw [List.take_succ_cons] at hr
      by_cases hb : (visit s b).1 = .next
      · rw [run_cons_next hb] at hr
        rw [run_cons_next hb, List.getElem?_cons_succ]
        exact ih h hr
      · rw [run_cons_end hb, List.getElem?_cons_succ]
        exact h

/-! ## Elements that the loop passes over -/

/-- A loop that passes over the elements outside `p` decides as it does on the others
alone, and leaves the others as it leaves them there. -/
theorem run_filter {p : α → Bool} (hpa : ∀ s a, p a = false → visit s a = (.next, a, s))
    (hk : ∀ s a, p (visit s a).2.1 = p a) (l : List α) (s : σ) :
    (run visit l s).1 = (run visit (l.filter p) s).1 ∧
      (run visit l s).2.1.filter p = (run visit (l.filter p) s).2.1 ∧
      (run visit l s).2.2 = (run visit (l.filter p) s).2.2 := by
  induction l generalizing s with
  | nil => exact ⟨rfl, rfl, rfl⟩
  | cons a l ih =>
    cases hp : p a with
    | false =>
      have hn : (visit s a).1 = .next := by rw [hpa s a hp]
      obtain ⟨h1, h2, h3⟩ := ih s
      rw [run_cons_next hn, List.filter_cons_of_neg (by simp [hp]), hpa s a hp,
        List.filter_cons_of_neg (by simp [hp])]
      exact ⟨h1, h2, h3⟩
    | true =>
      have hp' : p (visit s a).2.1 = true := by rw [hk, hp]
      rw [List.filter_cons_of_pos hp]
      by_cases ha : (visit s a).1 = .next
      · obtain ⟨h1, h2, h3⟩ := ih (visit s a).2.2
        rw [run_cons_next ha, run_cons_next ha, List.filter_cons_of_pos hp']
        exact ⟨h1, congrArg _ h2, h3⟩
      · rw [run_cons_end ha, run_cons_end ha, List.filter_cons_of_pos hp']
        exact ⟨rfl, rfl, rfl⟩

theorem filter_run {q : α → Bool} (hk : ∀ s a, q (visit s a).2.1 = q a)
    (hfix : ∀ s a, q a = true → (visit s a).2.1 = a) (l : List α) (s : σ) :
    (run visit l s).2.1.filter q = l.filter q := by
  have hone : ∀ s a (l l' : List α), l.filter q = l'.filter q →
      ((visit s a).2.1 :: l).filter q = (a :: l').filter q := by
    intro s a l l' h
    cases hq : q a with
    | false =>
      rw [List.filter_cons_of_neg (by simp [hk, hq]), List.filter_cons_of_neg (by simp [hq]), h]
    | true =>
      rw [hfix s a hq, List.filter_cons_of_pos hq, List.filter_cons_of_pos hq, h]
  induction l generalizing s with
  | nil => rfl
  | cons a l ih =>
    by_cases ha : (visit s a).1 = .next
    · rw [run_cons_next ha]
      exact hone s a _ _ (ih _)
    · rw [run_cons_end ha]
      exact hone s a _ _ rfl

theorem length_run (l : List α) (s : σ) : (run visit l s).2.1.length = l.length := by
  have hmap : ((run visit l s).2.1.map fun _ => ()) = l.map fun _ => () :=
    map_run (fun _ _ => rfl) l s
  simpa using congrArg List.length hmap

end scan
