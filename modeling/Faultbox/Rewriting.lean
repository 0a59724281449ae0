-- Replacing every occurrence of one text in another, and the words of a text: its
-- longest runs of elements of one kind. A text of that kind only ever occurs
-- inside a word, so replacing it works on each word alone.
import Mathlib.Data.List.Infix
import Mathlib.Data.List.TakeWhile

namespace rewriting

variable {α : Type}

/-! ## Replacing every occurrence -/

section replace

variable [DecidableEq α]

/-- From left to right, each occurrence of `old` that does not overlap the one before
gives way to `new`; the number counts the elements of an occurrence still to be
passed over. -/
def replaceFrom (old new : List α) : Nat → List α → List α
  | _, [] => []
  | k + 1, _ :: s => replaceFrom old new k s
  | 0, c :: s =>
    if old.isPrefixOf (c :: s) then new ++ replaceFrom old new (old.length - 1) s
    else c :: replaceFrom old new 0 s

/-- An empty `old` occurs before each element, and at the end. -/
def replaceAll (old new s : List α) : List α :=
  if old = [] then new ++ s.flatMap fun c => c :: new else replaceFrom old new 0 s

variable {old new s : List α}

theorem replaceAll_of_ne (h : old ≠ []) : replaceAll old new s = replaceFrom old new 0 s :=
  if_neg h

theorem replaceFrom_skip (w s : List α) :
    replaceFrom old new w.length (w ++ s) = replaceFrom old new 0 s := by
  induction w with
  | nil => rfl
  | cons c w ih => exact ih

theorem replaceFrom_front (h : old ≠ []) (new s : List α) :
    replaceFrom old new 0 (old ++ s) = new ++ replaceFrom old new 0 s := by
  cases old with
  | nil => exact absurd rfl h
  | cons c w =>
    have hpre : (c :: w).isPrefixOf (c :: (w ++ s)) = true :=
      List.isPrefixOf_iff_prefix.mpr (List.prefix_append (c :: w) s)
    rw [List.cons_append, replaceFrom, if_pos hpre, List.length_cons, Nat.add_sub_cancel,
      replaceFrom_skip]

theorem replaceFrom_next {c : α} (h : ¬ old <+: c :: s) :
    replaceFrom old new 0 (c :: s) = c :: replaceFrom old new 0 s := by
  rw [replaceFrom, if_neg fun hp => h (List.isPrefixOf_iff_prefix.mp hp)]

theorem scan_induction (h : old ≠ []) {motive : List α → Prop} (nil : motive [])
    (front : ∀ s, motive s → motive (old ++ s))
    (next : ∀ c s, ¬ old <+: c :: s → motive s → motive (c :: s)) (s : List α) : motive s := by
  induction hn : s.length using Nat.strong_induction_on generalizing s with
  | _ n ih =>
    subst hn
    cases s with
    | nil => exact nil
    | cons c s =>
      by_cases hpre : old <+: c :: s
      · obtain ⟨rest, hr⟩ := hpre
        have hpos : 0 < old.length := List.length_pos_iff.mpr h
        have hlen : rest.length < (c :: s).length := by
          rw [← hr, List.length_append]
          omega
        rw [← hr]
        exact front rest (ih rest.length hlen rest rfl)
      · exact next c s hpre (ih s.length (Nat.lt_succ_self _) s rfl)

/-- Each of the `n` replacements changes the length by the difference of the two. -/
theorem length_replaceFrom (h : old ≠ []) (new s : List α) :
    ∃ n, (replaceFrom old new 0 s).length + n * old.length = s.length + n * new.length ∧
      (old <+: s → 0 < n) := by
  induction s using scan_induction h with
  | nil => exact ⟨0, by simp [replaceFrom], fun hpre => absurd (List.prefix_nil.mp hpre) h⟩
  | front s ih =>
    obtain ⟨n, hn, -⟩ := ih
    refine ⟨n + 1, ?_, fun _ => Nat.succ_pos n⟩
    rw [replaceFrom_front h, List.length_append, List.length_append, Nat.add_mul, Nat.add_mul]
    omega
  | next c s hpre ih =>
    obtain ⟨n, hn, -⟩ := ih
    refine ⟨n, ?_, fun hp => absurd hp hpre⟩
    rw [replaceFrom_next hpre, List.length_cons, List.length_cons]
    omega

theorem eq_of_replaceFrom_eq (h : old ≠ []) (heq : replaceFrom old new 0 s = s)
    (hin : old <:+: s) : old = new := by
  induction s with
  | nil => exact absurd (List.eq_nil_of_infix_nil hin) h
  | cons c s ih =>
    by_cases hpre : old <+: c :: s
    · -- the lengths agree, so the first occurrence is the first replacement
      obtain ⟨n, hlen, hpos⟩ := length_replaceFrom h new (c :: s)
      rw [heq, Nat.add_left_cancel_iff] at hlen
      have hs : new.length = old.length :=
        (Nat.eq_of_mul_eq_mul_left (hpos hpre) hlen).symm
      obtain ⟨rest, hr⟩ := hpre
      rw [← hr, replaceFrom_front h] at heq
      exact (List.append_inj heq hs).1.symm
    · rw [replaceFrom_next hpre] at heq
      exact ih (List.cons.inj heq).2 ((List.infix_cons_iff.mp hin).resolve_left hpre)

theorem replaceFrom_of_not_infix (h : ¬ old <:+: s) : replaceFrom old new 0 s = s := by
  induction s with
  | nil => rfl
  | cons c s ih =>
    rw [List.infix_cons_iff, not_or] at h
    rw [replaceFrom_next h.1, ih h.2]

theorem replaceFrom_same (h : old ≠ []) (s : List α) : replaceFrom old old 0 s = s := by
  induction s using scan_induction h with
  | nil => rfl
  | front s ih => rw [replaceFrom_front h, ih]
  | next c s hpre ih => rw [replaceFrom_next hpre, ih]

/-- A text is left as it is exactly when `old` does not occur in it, or is `new`. -/
theorem replaceAll_eq_iff (h : old ≠ []) : replaceAll old new s = s ↔ ¬ old <:+: s ∨ old = new := by
  rw [replaceAll_of_ne h]
  constructor
  · intro heq
    by_cases hin : old <:+: s
    · exact .inr (eq_of_replaceFrom_eq h heq hin)
    · exact .inl hin
  · rintro (hin | rfl)
    · exact replaceFrom_of_not_infix hin
    · exact replaceFrom_same h s

theorem replaceAll_self (h : old ≠ []) (new : List α) : replaceAll old new old = new := by
  have hf := replaceFrom_front h new []
  rw [List.append_nil] at hf
  rw [replaceAll_of_ne h, hf]
  exact List.append_nil new

theorem replaceAll_all {p : α → Bool} (h : old ≠ []) (hnew : ∀ c ∈ new, p c = true)
    (hs : ∀ c ∈ s, p c = true) : ∀ c ∈ replaceAll old new s, p c = true := by
  rw [replaceAll_of_ne h]
  induction s using scan_induction h with
  | nil => exact hs
  | front s ih =>
    rw [replaceFrom_front h]
    intro c hc
    rcases List.mem_append.mp hc with hc | hc
    · exact hnew c hc
    · exact ih (fun d hd => hs d (List.mem_append_right old hd)) c hc
  | next d s hpre ih =>
    rw [replaceFrom_next hpre]
    intro c hc
    rcases List.mem_cons.mp hc with rfl | hc
    · exact hs c List.mem_cons_self
    · exact ih (fun d hd => hs d (List.mem_cons_of_mem _ hd)) c hc

theorem replaceAll_ne_nil (h : old ≠ []) (hnew : new ≠ []) (hs : s ≠ []) :
    replaceAll old new s ≠ [] := by
  rw [replaceAll_of_ne h]
  induction s using scan_induction h with
  | nil => exact absurd rfl hs
  | front s ih =>
    rw [replaceFrom_front h]
    exact List.append_ne_nil_of_left_ne_nil hnew _
  | next c s hpre ih =>
    rw [replaceFrom_next hpre]
    exact List.cons_ne_nil _ _

end replace

/-! ## The words of a text -/

/-- A word of the given kind. -/
def IsWord (p : α → Bool) (w : List α) : Prop := w ≠ [] ∧ ∀ c ∈ w, p c = true

def ended {β : Type} (w : List α) (f : List α → List β) : List β := if w = [] then [] else f w

/-- Each word of the text is changed, and what stands between stays; `w` is the part
of a word that was read. -/
def mapWordsFrom (p : α → Bool) (f : List α → List α) : List α → List α → List α
  | w, [] => ended w f
  | w, c :: s =>
    if p c then mapWordsFrom p f (w ++ [c]) s else ended w f ++ c :: mapWordsFrom p f [] s

def mapWords (p : α → Bool) (f : List α → List α) (s : List α) : List α := mapWordsFrom p f [] s

def wordsFrom (p : α → Bool) : List α → List α → List (List α)
  | w, [] => ended w fun w => [w]
  | w, c :: s =>
    if p c then wordsFrom p (w ++ [c]) s else (ended w fun w => [w]) ++ wordsFrom p [] s

def words (p : α → Bool) (s : List α) : List (List α) := wordsFrom p [] s

section words

variable {p : α → Bool} {f g : List α → List α} {w s : List α} {c : α}

theorem mapWordsFrom_append (v : List α) (hw : ∀ c ∈ w, p c = true) (s : List α) :
    mapWordsFrom p f v (w ++ s) = mapWordsFrom p f (v ++ w) s := by
  induction w generalizing v with
  | nil => rw [List.nil_append, List.append_nil]
  | cons c w ih =>
    rw [List.cons_append, mapWordsFrom, if_pos (hw c List.mem_cons_self),
      ih _ fun d hd => hw d (List.mem_cons_of_mem _ hd), List.append_assoc, List.singleton_append]

theorem wordsFrom_append (v : List α) (hw : ∀ c ∈ w, p c = true) (s : List α) :
    wordsFrom p v (w ++ s) = wordsFrom p (v ++ w) s := by
  induction w generalizing v with
  | nil => rw [List.nil_append, List.append_nil]
  | cons c w ih =>
    rw [List.cons_append, wordsFrom, if_pos (hw c List.mem_cons_self),
      ih _ fun d hd => hw d (List.mem_cons_of_mem _ hd), List.append_assoc, List.singleton_append]

theorem mapWords_last (hw : ∀ c ∈ w, p c = true) : mapWords p f w = ended w f := by
  have h := mapWordsFrom_append (f := f) [] hw []
  rw [List.append_nil, List.nil_append] at h
  exact h

theorem mapWords_cut (hw : ∀ c ∈ w, p c = true) (hc : p c = false) (s : List α) :
    mapWords p f (w ++ c :: s) = ended w f ++ c :: mapWords p f s := by
  rw [mapWords, mapWordsFrom_append [] hw, List.nil_append, mapWordsFrom, hc, if_neg (by decide)]
  rfl

theorem words_last (hw : ∀ c ∈ w, p c = true) : words p w = ended w fun w => [w] := by
  have h := wordsFrom_append [] hw []
  rw [List.append_nil, List.nil_append] at h
  exact h

theorem words_cut (hw : ∀ c ∈ w, p c = true) (hc : p c = false) (s : List α) :
    words p (w ++ c :: s) = (ended w fun w => [w]) ++ words p s := by
  rw [words, wordsFrom_append [] hw, List.nil_append, wordsFrom, hc, if_neg (by decide)]
  rfl

theorem words_induction {motive : List α → Prop}
    (last : ∀ w, (∀ c ∈ w, p c = true) → motive w)
    (cut : ∀ w c s, (∀ c ∈ w, p c = true) → p c = false → motive s → motive (w ++ c :: s))
    (s : List α) : motive s := by
  induction hn : s.length using Nat.strong_induction_on generalizing s with
  | _ n ih =>
    subst hn
    have hall : ∀ c ∈ s.takeWhile p, p c = true := fun c hc => List.mem_takeWhile_imp hc
    cases hr : s.dropWhile p with
    | nil =>
      have hs := List.takeWhile_append_dropWhile (p := p) (l := s)
      rw [hr, List.append_nil] at hs
      rw [← hs]
      exact last _ hall
    | cons c rest =>
      have hs := List.takeWhile_append_dropWhile (p := p) (l := s)
      have hc : p c = false := by
        have hh := List.head?_dropWhile_not p s
        rw [hr] at hh
        simpa using hh
      have hlen : rest.length < s.length := by
        rw [← hs, hr, List.length_append, List.length_cons]
        omega
      rw [← hs, hr]
      exact cut _ c rest hall hc (ih rest.length hlen rest rfl)

theorem mapWords_id (s : List α) : mapWords p (fun w => w) s = s := by
  have he : ∀ w : List α, (ended w fun w => w) = w := by
    intro w
    unfold ended
    split
    · rename_i h
      exact h.symm
    · rfl
  induction s using words_induction (p := p) with
  | last w hw => rw [mapWords_last hw, he]
  | cut w c s hw hc ih => rw [mapWords_cut hw hc, he, ih]

theorem isWord_of_mem_words (h : w ∈ words p s) : IsWord p w := by
  induction s using words_induction (p := p) with
  | last v hv =>
    rw [words_last hv, ended] at h
    split at h
    · cases h
    · rename_i hne
      rw [List.mem_singleton.mp h]
      exact ⟨hne, hv⟩
  | cut v c s hv hc ih =>
    rw [words_cut hv hc, ended, List.mem_append] at h
    rcases h with h | h
    · split at h
      · cases h
      · rename_i hne
        rw [List.mem_singleton.mp h]
        exact ⟨hne, hv⟩
    · exact ih h

theorem ended_all (hf : ∀ w, IsWord p w → IsWord p (f w)) (hw : ∀ c ∈ w, p c = true) :
    ∀ c ∈ ended w f, p c = true := by
  unfold ended
  split
  · intro c hc
    cases hc
  · rename_i hne
    exact (hf w ⟨hne, hw⟩).2

theorem mapWords_comp (hg : ∀ w, IsWord p w → IsWord p (g w)) (s : List α) :
    mapWords p f (mapWords p g s) = mapWords p (fun w => f (g w)) s := by
  have he : ∀ w : List α, (∀ c ∈ w, p c = true) →
      ended (ended w g) f = ended w fun w => f (g w) := by
    intro w hw
    unfold ended
    split
    · rfl
    · rename_i hne
      rw [if_neg (hg w ⟨hne, hw⟩).1]
  induction s using words_induction (p := p) with
  | last w hw => rw [mapWords_last hw, mapWords_last (ended_all hg hw), mapWords_last hw,
      he w hw]
  | cut w c s hw hc ih =>
    rw [mapWords_cut hw hc, mapWords_cut (ended_all hg hw) hc, mapWords_cut hw hc, he w hw, ih]

theorem cut_inj {v w s t : List α} {c d : α} (hv : ∀ c ∈ v, p c = true)
    (hw : ∀ c ∈ w, p c = true) (hc : p c = false) (hd : p d = false)
    (h : v ++ c :: s = w ++ d :: t) : v = w ∧ s = t := by
  have ht : ∀ (u : List α) (e : α) (r : List α), (∀ c ∈ u, p c = true) → p e = false →
      (u ++ e :: r).takeWhile p = u := by
    intro u e r hu he
    rw [List.takeWhile_append_of_pos hu, List.takeWhile_cons_of_neg (by simp [he]),
      List.append_nil]
  have hvw : v = w := by rw [← ht v c s hv hc, h, ht w d t hw hd]
  subst hvw
  exact ⟨rfl, (List.cons.inj (List.append_cancel_left h)).2⟩

theorem mapWords_eq_iff (hf : ∀ w, IsWord p w → IsWord p (f w))
    (hg : ∀ w, IsWord p w → IsWord p (g w)) (s : List α) :
    mapWords p f s = mapWords p g s ↔ ∀ w ∈ words p s, f w = g w := by
  have he : ∀ w : List α,
      ended w f = ended w g ↔ ∀ x ∈ ended w fun w => [w], f x = g x := by
    intro w
    unfold ended
    split
    · simp
    · simp
  induction s using words_induction (p := p) with
  | last w hw => rw [mapWords_last hw, mapWords_last hw, words_last hw, he]
  | cut w c s hw hc ih =>
    rw [mapWords_cut hw hc, mapWords_cut hw hc, words_cut hw hc]
    constructor
    · intro h
      obtain ⟨h1, h2⟩ := cut_inj (ended_all hf hw) (ended_all hg hw) hc hc h
      intro x hx
      rcases List.mem_append.mp hx with hx | hx
      · exact (he w).mp h1 x hx
      · exact ih.mp h2 x hx
    · intro h
      rw [(he w).mpr fun x hx => h x (List.mem_append_left _ hx),
        ih.mpr fun x hx => h x (List.mem_append_right _ hx)]

end words

/-! ## Replacing inside words -/

section inside

variable [DecidableEq α] {p : α → Bool} {old w : List α} {c : α}

omit [DecidableEq α] in
theorem prefix_cut (hold : ∀ c ∈ old, p c = true) (hc : p c = false) {s : List α}
    (h : old <+: w ++ c :: s) : old <+: w := by
  rcases Nat.lt_or_ge w.length old.length with hlt | hle
  · have hmem : c ∈ old := by
      obtain ⟨t, ht⟩ := h
      have hget : (old ++ t)[w.length]? = some c := by
        rw [ht]
        simp
      rw [List.getElem?_append_left hlt] at hget
      exact List.mem_of_getElem? hget
    rw [hold c hmem] at hc
    cases hc
  · exact List.prefix_of_prefix_length_le h (List.prefix_append w _) hle

theorem replaceAll_cut (h : IsWord p old) (new : List α) (hw : ∀ c ∈ w, p c = true)
    (hc : p c = false) (s : List α) :
    replaceAll old new (w ++ c :: s) = replaceAll old new w ++ c :: replaceAll old new s := by
  obtain ⟨hne, hold⟩ := h
  simp only [replaceAll_of_ne hne]
  induction w using scan_induction hne with
  | nil =>
    have hpre : ¬ old <+: c :: s := fun hp =>
      hne (List.prefix_nil.mp (prefix_cut (w := []) hold hc hp))
    rw [List.nil_append, replaceFrom_next hpre]
    rfl
  | front w ih =>
    rw [List.append_assoc, replaceFrom_front hne, replaceFrom_front hne, List.append_assoc,
      ih fun d hd => hw d (List.mem_append_right _ hd)]
  | next d w hpre ih =>
    have hpre' : ¬ old <+: d :: (w ++ c :: s) := fun hp =>
      hpre (prefix_cut (w := d :: w) hold hc hp)
    rw [List.cons_append, replaceFrom_next hpre', replaceFrom_next hpre, List.cons_append,
      ih fun e he => hw e (List.mem_cons_of_mem _ he)]

theorem replaceAll_eq_mapWords (h : IsWord p old) (new s : List α) :
    replaceAll old new s = mapWords p (replaceAll old new) s := by
  have he : ∀ w, replaceAll old new w = ended w (replaceAll old new) := by
    intro w
    unfold ended
    split
    · rename_i hw
      rw [hw, replaceAll_of_ne h.1, replaceFrom]
    · rfl
  induction s using words_induction (p := p) with
  | last w hw => rw [mapWords_last hw, ← he]
  | cut w c s hw hc ih => rw [replaceAll_cut h new hw hc, mapWords_cut hw hc, ← he, ← ih]

theorem replaceAll_isWord {new : List α} (h : IsWord p old) (hnew : IsWord p new)
    (hw : IsWord p w) : IsWord p (replaceAll old new w) :=
  ⟨replaceAll_ne_nil h.1 hnew.1 hw.1, replaceAll_all h.1 hnew.2 hw.2⟩

end inside

end rewriting
