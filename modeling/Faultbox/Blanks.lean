-- Texts of blanks, as strings.TrimSpace and strings.Fields know them: the bytes of a blank
-- are read from the left, and none of them begins in the middle of another character. The
-- words of a text do not depend on the blanks between and around them.
import Faultbox.GoText

namespace gotext

open gopath

variable {c : UInt8} {b v w x y : Bytes}

/-- Nothing but blanks. -/
def Blanks (b : Bytes) : Prop := trimLeftFrom 0 b = []

instance (b : Bytes) : Decidable (Blanks b) := inferInstanceAs (Decidable (_ = _))

variable {skip : Nat} {s word : Bytes}

/-- The first of some blanks ends a word. -/
theorem fieldsFrom_first (hb : trimLeftFrom 0 (c :: b) = []) :
    ∃ len ≤ b.length, trimLeftFrom len b = [] ∧ ∀ word y, fieldsFrom 0 word (c :: b ++ y) =
      (if word = [] then [] else [word]) ++ fieldsFrom len [] (b ++ y) := by
  rw [trimLeftFrom] at hb
  cases hlen : blankLen (c :: b) with
  | zero => simp [hlen] at hb
  | succ len =>
    rw [hlen] at hb
    have happ := blankLen_append_left (s := c :: b) (by omega)
    have hle := (happ []).2
    rw [hlen] at hle
    refine ⟨len, Nat.le_of_succ_le_succ hle, hb, fun word y => ?_⟩
    have hy := (happ y).1
    rw [hlen, List.cons_append] at hy
    rw [List.cons_append, fieldsFrom, hy]

theorem fieldsFrom_skip (hb : trimLeftFrom skip b = []) (hs : skip ≤ b.length) (y : Bytes) :
    fieldsFrom skip [] (b ++ y) = fields y := by
  induction b generalizing skip with
  | nil =>
    rw [Nat.le_zero.mp hs]
    rfl
  | cons c b ih =>
    cases skip with
    | succ skip => exact ih hb (Nat.le_of_succ_le_succ hs)
    | zero =>
      obtain ⟨len, hle, hr, hf⟩ := fieldsFrom_first hb
      rw [hf]
      exact ih hr hle

theorem fieldsFrom_blanks (hb : Blanks b) (hne : b ≠ []) (word y : Bytes) :
    fieldsFrom 0 word (b ++ y) = (if word = [] then [] else [word]) ++ fields y := by
  cases b with
  | nil => exact absurd rfl hne
  | cons c b =>
    obtain ⟨len, hle, hr, hf⟩ := fieldsFrom_first hb
    rw [hf, fieldsFrom_skip hr hle]

theorem fields_blanks_append (hb : Blanks b) (y : Bytes) : fields (b ++ y) = fields y :=
  fieldsFrom_skip hb (Nat.zero_le _) y

/-- Where a text is cut in front of a character, the words of the first part are settled, but
for the last. -/
theorem fields_append (x : Bytes) : ∃ ws word, ∀ y, (∀ c ∈ y.head?, IsLead c) →
    fields (x ++ y) = ws ++ fieldsFrom 0 word y := by
  suffices h : ∀ skip word, skip ≤ x.length → ∃ ws word', ∀ y, (∀ c ∈ y.head?, IsLead c) →
      fieldsFrom skip word (x ++ y) = ws ++ fieldsFrom 0 word' y from h 0 [] (Nat.zero_le _)
  induction x with
  | nil =>
    intro skip word hs
    rw [Nat.le_zero.mp hs]
    exact ⟨[], word, fun y _ => rfl⟩
  | cons c x ih =>
    intro skip word hs
    cases skip with
    | succ skip => exact ih skip word (Nat.le_of_succ_le_succ hs)
    | zero =>
      have hsa : ∀ y : Bytes, (∀ c ∈ y.head?, IsLead c) →
          blankLen (c :: (x ++ y)) = blankLen (c :: x) := by
        intro y hy
        cases y with
        | nil => rw [List.append_nil]
        | cons d y => exact blankLen_append_lead (x := c :: x) (by simp) (hy d rfl) y
      cases hlen : blankLen (c :: x) with
      | zero =>
        obtain ⟨ws, word', h⟩ := ih 0 (word ++ [c]) (Nat.zero_le _)
        refine ⟨ws, word', fun y hy => ?_⟩
        rw [List.cons_append, fieldsFrom, hsa y hy, hlen]
        exact h y hy
      | succ len =>
        have hle := (blankLen_append_left (s := c :: x) (by omega) []).2
        rw [hlen] at hle
        obtain ⟨ws, word', h⟩ := ih len [] (Nat.le_of_succ_le_succ hle)
        refine ⟨(if word = [] then [] else [word]) ++ ws, word', fun y hy => ?_⟩
        rw [List.cons_append, fieldsFrom, hsa y hy, hlen]
        dsimp only
        rw [h y hy, List.append_assoc]

theorem blank_bytes {len : Nat} (h : blankLen (c :: b) = len + 1) :
    (IsBlank c ∨ 0xC0 ≤ c) ∧ ∀ d ∈ b.take len, 0x80 ≤ d := by
  unfold IsBlank
  match b with
  | [] =>
    simp only [blankLen] at h
    split_ifs at h with h1
    exact ⟨.inl h1, by simp⟩
  | [a] =>
    simp only [blankLen] at h
    split_ifs at h with h1 h2
    · obtain rfl : len = 0 := by omega
      exact ⟨.inl h1, by simp⟩
    · obtain rfl : len = 1 := by omega
      rcases h2 with ⟨rfl, rfl | rfl⟩ <;> simp
  | a :: d :: b =>
    simp only [blankLen] at h
    split_ifs at h with h1 h2 h3
    · obtain rfl : len = 0 := by omega
      exact ⟨.inl h1, by simp⟩
    · obtain rfl : len = 1 := by omega
      rcases h2 with ⟨rfl, rfl | rfl⟩ <;> simp
    · obtain rfl : len = 2 := by omega
      rcases h3 with ⟨rfl, rfl, rfl⟩ | ⟨rfl, rfl, ⟨hd, -⟩ | rfl | rfl | rfl⟩ | ⟨rfl, rfl, rfl⟩ |
        ⟨rfl, rfl, rfl⟩ <;> simp_all

theorem IsBlank.lead (h : IsBlank c) : IsLead c := .inl h.ascii

theorem Blanks.lead (hb : Blanks b) : ∀ c ∈ (b ++ y).head?, b ≠ [] → IsLead c := by
  intro c hc hne
  cases b with
  | nil => exact absurd rfl hne
  | cons d b =>
    rw [List.cons_append, List.head?_cons, Option.mem_some] at hc
    subst hc
    unfold Blanks at hb
    rw [trimLeftFrom] at hb
    cases hlen : blankLen (d :: b) with
    | zero => simp [hlen] at hb
    | succ len => exact (blank_bytes hlen).1.elim IsBlank.lead .inr

theorem fields_gap (hv : Blanks v) (hw : Blanks w) (hvne : v ≠ []) (hwne : w ≠ [])
    (x y : Bytes) : fields (x ++ (v ++ y)) = fields (x ++ (w ++ y)) := by
  obtain ⟨ws, word, h⟩ := fields_append x
  rw [h _ fun c hc => hv.lead c hc hvne, h _ fun c hc => hw.lead c hc hwne,
    fieldsFrom_blanks hv hvne, fieldsFrom_blanks hw hwne]

theorem fields_append_blanks (hb : Blanks b) (x : Bytes) : fields (x ++ b) = fields x := by
  by_cases hne : b = []
  · rw [hne, List.append_nil]
  · obtain ⟨ws, word, h⟩ := fields_append x
    have hnil := h [] (by simp)
    have hbl := h (b ++ []) fun c hc => hb.lead c hc hne
    rw [List.append_nil] at hnil
    rw [fieldsFrom_blanks hb hne, List.append_nil] at hbl
    rw [hnil, hbl, fieldsFrom, fields, fieldsFrom, if_pos rfl, List.append_nil]

theorem Blanks.mem (hb : Blanks b) (hc : c ∈ b) : IsBlank c ∨ 0x80 ≤ c := by
  suffices h : ∀ skip, trimLeftFrom skip b = [] → (∀ c ∈ b.take skip, 0x80 ≤ c) →
      ∀ c ∈ b, IsBlank c ∨ 0x80 ≤ c from h 0 hb (by simp) c hc
  clear hb hc
  induction b with
  | nil => simp
  | cons d b ih =>
    intro skip hb hs
    rw [List.forall_mem_cons]
    cases skip with
    | succ skip =>
      rw [List.take_succ_cons, List.forall_mem_cons] at hs
      exact ⟨.inr hs.1, ih skip hb hs.2⟩
    | zero =>
      rw [trimLeftFrom] at hb
      cases hlen : blankLen (d :: b) with
      | zero => simp [hlen] at hb
      | succ len =>
        rw [hlen] at hb
        obtain ⟨hf, hm⟩ := blank_bytes hlen
        exact ⟨hf.imp_right fun h => UInt8.le_trans (by decide) h, ih len hb hm⟩

/-! ## What trimming leaves -/

theorem blankLen_take (s : Bytes) : blankLen (s.take (blankLen s)) = blankLen s := by
  match s with
  | [] => rfl
  | [a] =>
    simp only [blankLen]
    split_ifs with h1
    · simp [h1]
    · rfl
  | [a, d] =>
    simp only [blankLen]
    split_ifs with h1 h2
    · simp [h1]
    · simp [h2]
    · rfl
  | a :: d :: e :: s =>
    simp only [blankLen]
    split_ifs with h1 h2 h3
    · simp [h1]
    · simp [h2]
    · simp only [List.take_succ_cons, List.take_zero]
      rw [if_neg h1, if_neg h2, if_pos h3]
    · rfl

theorem exists_trimLeft (h : skip ≤ s.length) :
    ∃ l, s = l ++ trimLeftFrom skip s ∧ skip ≤ l.length ∧ trimLeftFrom skip l = [] := by
  induction s generalizing skip with
  | nil => exact ⟨[], rfl, h, rfl⟩
  | cons c s ih =>
    cases skip with
    | succ skip =>
      obtain ⟨l, hs, hle, hl⟩ := ih (Nat.le_of_succ_le_succ h)
      exact ⟨c :: l, by rw [List.cons_append, trimLeftFrom, ← hs], Nat.succ_le_succ hle, hl⟩
    | zero =>
      cases hlen : blankLen (c :: s) with
      | zero => exact ⟨[], by rw [trimLeftFrom, hlen]; rfl, le_rfl, rfl⟩
      | succ len =>
        have hlo := (blankLen_append_left (s := c :: s) (by omega) []).2
        rw [hlen] at hlo
        obtain ⟨l, hs, hle, hl⟩ := ih (Nat.le_of_succ_le_succ hlo)
        -- the bytes of the blank are all in what is cut off
        have hb : blankLen (c :: l) = len + 1 := by
          have ht := blankLen_take (c :: s)
          rw [hlen, List.take_succ_cons, hs, List.take_append_of_le_length hle] at ht
          have happ := (blankLen_append_left (s := c :: l.take len) (by omega) (l.drop len)).1
          rwa [List.cons_append, List.take_append_drop, ht] at happ
        refine ⟨c :: l, ?_, Nat.zero_le _, by rw [trimLeftFrom, hb]; exact hl⟩
        rw [trimLeftFrom, hlen, List.cons_append, ← hs]

theorem exists_trimSpace (s : Bytes) :
    ∃ l r, s = l ++ (trimSpace s ++ r) ∧ Blanks l ∧ Blanks r := by
  obtain ⟨l, hs, -, hl⟩ := exists_trimLeft (Nat.zero_le s.length)
  obtain ⟨r, hr, hb⟩ := exists_trimRight (trimLeftFrom 0 s)
  exact ⟨l, r, by rw [trimSpace, ← hr, ← hs], hl, hb⟩

theorem eq_nil_of_trimRight (h : trimRight (x ++ b) = x ++ b) (hb : Blanks b) : b = [] := by
  induction x with
  | nil =>
    cases b with
    | nil => rfl
    | cons c b =>
      unfold Blanks at hb
      rw [List.nil_append, trimRight, if_pos hb] at h
      exact h.symm
  | cons c x ih =>
    rw [List.cons_append, trimRight] at h
    split at h
    · cases h
    · exact ih (List.cons.inj h).2

/-! ## The last word -/

theorem trimLeft_of_fields (h : fieldsFrom skip word s = []) :
    word = [] ∧ trimLeftFrom skip s = [] := by
  induction s generalizing skip word with
  | nil =>
    rw [fieldsFrom] at h
    split at h
    · rename_i hw
      exact ⟨hw, rfl⟩
    · cases h
  | cons c s ih =>
    cases skip with
    | succ skip => exact ih h
    | zero =>
      rw [fieldsFrom] at h
      cases hlen : blankLen (c :: s) with
      | zero =>
        rw [hlen] at h
        exact absurd (ih h).1 (by simp)
      | succ len =>
        rw [hlen] at h
        obtain ⟨hw, hr⟩ := List.append_eq_nil_iff.mp h
        rw [trimLeftFrom, hlen]
        refine ⟨?_, (ih hr).2⟩
        by_contra hne
        rw [if_neg hne] at hw
        cases hw

theorem ne_nil_of_mem_fields (h : w ∈ fieldsFrom skip word s) :
    w ≠ [] := by
  have hf : ∀ {word : Bytes}, w ∈ (if word = [] then [] else [word]) → w ≠ [] := by
    intro word hmem
    split at hmem
    · cases hmem
    · rename_i hw
      rwa [List.mem_singleton.mp hmem]
  induction s generalizing skip word with
  | nil => exact hf h
  | cons c s ih =>
    cases skip with
    | succ skip => exact ih h
    | zero =>
      rw [fieldsFrom] at h
      split at h
      · exact ih h
      · exact (List.mem_append.mp h).elim hf ih

theorem mem_of_mem_fields (h : w ∈ fieldsFrom skip word s) (hc : c ∈ w) : c ∈ word ∨ c ∈ s := by
  have hf : ∀ {word : Bytes}, w ∈ (if word = [] then [] else [word]) → c ∈ word := by
    intro word hmem
    split at hmem
    · cases hmem
    · rwa [← List.mem_singleton.mp hmem]
  induction s generalizing skip word with
  | nil => exact .inl (hf h)
  | cons d s ih =>
    cases skip with
    | succ skip => exact (ih h).imp_right (List.mem_cons_of_mem _)
    | zero =>
      rw [fieldsFrom] at h
      split at h
      · have := ih h
        simp only [List.mem_append, List.mem_cons] at this ⊢
        tauto
      · rcases List.mem_append.mp h with h | h
        · exact .inl (hf h)
        · exact .inr (List.mem_cons_of_mem _ ((ih h).resolve_left List.not_mem_nil))

theorem exists_fieldsFrom (s : Bytes) : ∃ r rest, ∀ word, word ≠ [] →
    fieldsFrom 0 word s = (word ++ r) :: rest := by
  induction s with
  | nil => exact ⟨[], [], fun word hw => by rw [fieldsFrom, if_neg hw, List.append_nil]⟩
  | cons d s ih =>
    cases hlen : blankLen (d :: s) with
    | zero =>
      obtain ⟨r, rest, h⟩ := ih
      refine ⟨d :: r, rest, fun word hw => ?_⟩
      rw [fieldsFrom, hlen]
      dsimp only
      rw [h _ (by simp), List.append_assoc, List.singleton_append]
    | succ len =>
      refine ⟨[], fieldsFrom len [] s, fun word hw => ?_⟩
      rw [fieldsFrom, hlen, List.append_nil]
      dsimp only
      rw [if_neg hw, List.singleton_append]

/-- The last word ends with the last byte that is of no blank. -/
theorem fieldsFrom_last {ws : List Bytes} (h : fieldsFrom skip word s = ws ++ [w ++ [c]]) :
    (∃ x b, s = x ++ c :: b ∧ blankLen (c :: b) = 0 ∧ Blanks b) ∨
      (word = w ++ [c] ∧ trimLeftFrom skip s = []) := by
  have hc : ∀ {d : UInt8} {s : Bytes},
      (∃ x b, s = x ++ c :: b ∧ blankLen (c :: b) = 0 ∧ Blanks b) →
      ∃ x b, d :: s = x ++ c :: b ∧ blankLen (c :: b) = 0 ∧ Blanks b := by
    rintro d s ⟨x, b, rfl, hb⟩
    exact ⟨d :: x, b, rfl, hb⟩
  induction s generalizing skip word ws with
  | nil =>
    rw [fieldsFrom] at h
    split at h
    · exact absurd h (by simp)
    · exact .inr ⟨by simpa using congrArg List.getLast? h, rfl⟩
  | cons d s ih =>
    cases skip with
    | succ skip => exact (ih h).imp_left hc
    | zero =>
      rw [fieldsFrom] at h
      cases hlen : blankLen (d :: s) with
      | zero =>
        rw [hlen] at h
        rcases ih h with hl | ⟨hw, hbl⟩
        · exact .inl (hc hl)
        · obtain ⟨-, hd⟩ := List.append_inj' hw rfl
          obtain rfl : d = c := by simpa using hd
          exact .inl ⟨[], s, rfl, hlen, hbl⟩
      | succ len =>
        rw [hlen] at h
        dsimp only at h
        rcases List.eq_nil_or_concat (fieldsFrom len [] s) with hnil | ⟨ws', w', hco⟩
        · rw [hnil, List.append_nil] at h
          split at h
          · exact absurd h (by simp)
          · have hw := congrArg List.getLast? h
            rw [trimLeftFrom, hlen]
            exact .inr ⟨by simpa using hw, (trimLeft_of_fields hnil).2⟩
        · rw [hco, List.concat_eq_append, ← List.append_assoc] at h
          obtain rfl : w' = w ++ [c] := by simpa using (List.append_inj' h rfl).2
          rw [List.concat_eq_append] at hco
          exact .inl ((ih hco).elim hc fun hw => absurd hw.1 (by simp))

end gotext
