-- The layout law of SQL texts: Canonicalize gives one form to all texts that differ, outside
-- of string literals, in the case of letters, in the blanks beside blanks and operators, in
-- the way placeholders are written and in semicolons at the end, so that a rule matches all
-- of them or none. An edit has to leave the operators whole: without the blank in the middle
-- `< =` is another operator, and a number in front of a digit takes the digit in.
import Faultbox.Blanks
import Faultbox.SqlMatch
import Mathlib.Data.Bool.AllAny
import Mathlib.Data.FinEnum
import Mathlib.Data.List.DropRight

open gopath gotext faultbox.proxy_rules

namespace faultbox.sqlmatch

variable {c d : UInt8} {p : Place} {s t x y pre post rest : Bytes}

/-! ## The loop, turn by turn -/

/-- One turn of the loop, with the byte that comes next: what it writes, and where it goes on. -/
def turn (place : Place) (c : UInt8) (next : Bytes) : Bytes × Place :=
  if place = .comparison then ([], .text)
  else if place = .number ∧ isDigit c then ([], .number)
  else if c = apostrophe then ([c], if place = .literal then .text else .literal)
  else if place = .literal then ([c], .literal)
  else if c :: next ∈ comparisons then (space :: c :: next ++ [space], .comparison)
  else if c ∈ bytes "=<>,()" then ([space, c, space], .text)
  else if c = questionMark then (bytes "$?", .text)
  else if c = dollar ∧ next.any isDigit then (bytes "$?", .number)
  else ([lower c], .text)

theorem scan_cons : scan p (c :: rest) =
    (turn p c (rest.take 1)).1 ++ scan (turn p c (rest.take 1)).2 rest := by
  rw [scan]
  unfold turn
  split_ifs <;> simp

def after : Place → Bytes → Place
  | place, [] => place
  | place, c :: rest => after (turn place c (rest.take 1)).2 rest

/-- Two bytes that the scan reads as one. -/
def Joins (c d : UInt8) : Prop := [c, d] ∈ comparisons ∨ (c = dollar ∧ isDigit d = true)

instance : Decidable (Joins c d) := inferInstanceAs (Decidable (_ ∨ _))

/-- The last byte of `pre` does not join with the first of `post`. -/
def Apart (pre post : Bytes) : Prop := ∀ c ∈ pre.getLast?, ∀ d ∈ post.head?, ¬ Joins c d

instance (pre post : Bytes) : Decidable (Apart pre post) :=
  inferInstanceAs (Decidable (∀ c ∈ _, _))

theorem comparisons_length : ∀ w ∈ comparisons, w.length = 2 := by decide

theorem turn_of_apart (h : Apart [c] post) : turn p c (post.take 1) = turn p c [] := by
  cases post with
  | nil => rfl
  | cons d post =>
    have hj : ¬ Joins c d := h c rfl d rfl
    have hone : [c] ∉ comparisons := fun hmem => absurd (comparisons_length _ hmem) (by simp)
    have htwo : [c, d] ∉ comparisons := fun hmem => hj (.inl hmem)
    have hdi : ¬ (c = dollar ∧ isDigit d = true) := fun hd => hj (.inr hd)
    unfold turn
    simp [hone, htwo, hdi]

theorem scan_append (h : Apart pre post) :
    scan p (pre ++ post) = scan p pre ++ scan (after p pre) post := by
  induction pre generalizing p with
  | nil => simp [scan, after]
  | cons c rest ih =>
    cases rest with
    | nil =>
      rw [List.singleton_append, scan_cons, scan_cons, turn_of_apart h]
      simp [scan, after]
    | cons d rest =>
      have hr : Apart (d :: rest) post := fun a ha => h a (by simpa using ha)
      rw [List.cons_append, scan_cons, scan_cons, after, ih hr]
      simp

/-! ## Bytes that stay -/

/-- A byte of a blank, or a semicolon. -/
def Plain (c : UInt8) : Prop := IsBlank c ∨ 0x80 ≤ c ∨ c = semicolon

instance : Decidable (Plain c) := inferInstanceAs (Decidable (_ ∨ _))

theorem Blanks.plain (h : Blanks t) : ∀ c ∈ t, Plain c := fun _ hc => (h.mem hc).imp_right .inl

/-- The scan writes the byte as it is, in text and in literals. -/
def Copied (c : UInt8) : Prop :=
  c ≠ apostrophe ∧ c ∉ bytes "=<>,()" ∧ c ≠ questionMark ∧ c ≠ dollar ∧ lower c = c ∧
    ∀ w ∈ comparisons, c ∉ w

instance : Decidable (Copied c) := inferInstanceAs (Decidable (_ ∧ _))

theorem plain_facts : ∀ c : UInt8, Plain c → Copied c ∧ isDigit c = false := by decide +kernel

theorem apart_of_head (h : ∀ d ∈ post.head?, isDigit d = false ∧ ∀ w ∈ comparisons, d ∉ w) :
    Apart pre post := by
  rintro c - d hd (hj | ⟨-, hdi⟩)
  · exact (h d hd).2 _ hj (by simp)
  · simp [(h d hd).1] at hdi

theorem apart_of_plain (h : ∀ c ∈ post.head?, Plain c) : Apart pre post :=
  apart_of_head fun d hd =>
    ⟨(plain_facts d (h d hd)).2, (plain_facts d (h d hd)).1.2.2.2.2.2⟩

theorem turn_copied (h : Copied c) (hp : p ≠ .comparison)
    (hn : p = .number → isDigit c = false) (next : Bytes) :
    turn p c next = ([c], if p = .literal then .literal else .text) := by
  obtain ⟨hq, hop, hm, hd, hl, hc⟩ := h
  have hnot : c :: next ∉ comparisons := fun hmem => hc _ hmem List.mem_cons_self
  have hdi : ¬ (p = .number ∧ isDigit c = true) := fun h => by simp [hn h.1] at h
  unfold turn
  by_cases hli : p = .literal
  · simp [hli, hq]
  · simp [hli, hp, hq, hdi, hnot, hop, hm, hd, hl]

theorem turn_plain (h : Plain c) (hp : p ≠ .comparison) (next : Bytes) :
    turn p c next = ([c], if p = .literal then .literal else .text) :=
  turn_copied (plain_facts c h).1 hp (fun _ => (plain_facts c h).2) next

theorem scan_plain (ht : ∀ c ∈ t, Plain c) (hne : t ≠ []) (hp : p ≠ .comparison) (y : Bytes) :
    scan p (t ++ y) = t ++ scan (if p = .literal then .literal else .text) y := by
  induction t generalizing p with
  | nil => exact absurd rfl hne
  | cons c t ih =>
    rw [List.forall_mem_cons] at ht
    rw [List.cons_append, scan_cons, turn_plain ht.1 hp]
    by_cases hnil : t = []
    · simp [hnil]
    · have hpl : (if p = Place.literal then Place.literal else .text) ≠ .comparison := by
        split <;> decide
      rw [ih ht.2 hnil hpl]
      by_cases hl : p = .literal <;> simp [hl]

theorem after_ne_comparison (h : p ≠ .comparison ∨ pre ≠ []) : after p pre ≠ .comparison := by
  induction pre generalizing p with
  | nil => exact h.resolve_right (by simp)
  | cons c rest ih =>
    apply ih
    by_cases hnil : rest = []
    · have hone : [c] ∉ comparisons := fun hmem => absurd (comparisons_length _ hmem) (by simp)
      left
      rw [hnil, List.take_nil]
      unfold turn
      split_ifs <;> simp
    · exact .inr hnil

theorem scan_append_plain (ht : ∀ c ∈ t, Plain c) (s : Bytes) :
    scan .text (s ++ t) = scan .text s ++ t := by
  by_cases hne : t = []
  · simp [hne]
  · have hh : ∀ c ∈ t.head?, Plain c := fun c hc => ht c (List.mem_of_mem_head? hc)
    have hp : after .text s ≠ .comparison := after_ne_comparison (.inl (by decide))
    have hend := scan_plain ht hne hp []
    rw [List.append_nil] at hend
    rw [scan_append (apart_of_plain hh), hend]
    simp [scan]

/-- Behind a text that ends outside of string literals. -/
def Outside (pre : Bytes) : Prop := after .text pre ≠ .literal

instance (pre : Bytes) : Decidable (Outside pre) := inferInstanceAs (Decidable (_ ≠ _))

theorem scan_number (h : ∀ d ∈ post.head?, isDigit d = false) :
    scan .number post = scan .text post := by
  cases post with
  | nil => rfl
  | cons d post =>
    have hd := h d rfl
    rw [scan_cons, scan_cons]
    simp [turn, hd]

theorem scan_outside (hout : Outside pre) (ha : Apart pre post)
    (hd : ∀ d ∈ post.head?, isDigit d = false) :
    scan .text (pre ++ post) = scan .text pre ++ scan .text post := by
  rw [scan_append ha]
  have hc : after .text pre ≠ .comparison := after_ne_comparison (.inl (by decide))
  congr 1
  cases hp : after .text pre with
  | text => rfl
  | literal => exact absurd hp hout
  | comparison => exact absurd hp hc
  | number => exact scan_number hd

/-! ## The one form, from the whole text -/

def tidy (words : List Bytes) : Bytes :=
  (List.intercalate [space] words).rdropWhile (fun c => c = semicolon ∨ c = space)

theorem tidy_semicolon (o : Bytes) : tidy (fields (o ++ [semicolon])) = tidy (fields o) := by
  obtain ⟨ws, word, h⟩ := fields_append o
  have hnil := h [] (by simp)
  have hm := h [semicolon] fun c hc => by
    rw [List.head?_cons, Option.mem_some] at hc
    exact .inl (hc ▸ by decide)
  have hl : fieldsFrom 0 word [semicolon] = [word ++ [semicolon]] := by
    simp [fieldsFrom, blankLen, semicolon]
  rw [List.append_nil] at hnil
  rw [hm, hnil, hl, fieldsFrom]
  unfold tidy
  by_cases hw : word = []
  · rw [if_pos hw, hw, List.nil_append, List.append_nil]
    by_cases hws : ws = []
    · rw [hws]
      rfl
    · rw [intercalate_concat hws, List.append_cons, List.rdropWhile_concat_pos _ _ _ (by simp),
        List.rdropWhile_concat_pos _ _ _ (by simp)]
  · rw [if_neg hw]
    by_cases hws : ws = []
    · rw [hws]
      simp only [List.nil_append, List.intercalate_singleton]
      rw [List.rdropWhile_concat_pos _ _ _ (by simp)]
    · rw [intercalate_concat hws, intercalate_concat hws, ← List.cons_append, ← List.append_assoc,
        List.rdropWhile_concat_pos _ _ _ (by simp)]

theorem fields_scan_trimSpace (s : Bytes) :
    fields (scan .text (trimSpace s)) = fields (scan .text s) := by
  obtain ⟨l, r, hs, hl, hr⟩ := exists_trimSpace s
  have hle : scan .text (l ++ trimSpace s) = l ++ scan .text (trimSpace s) := by
    by_cases hne : l = []
    · simp [hne]
    · exact scan_plain (Blanks.plain hl) hne (by decide) _
  conv_rhs => rw [hs, ← List.append_assoc, scan_append_plain (Blanks.plain hr),
    fields_append_blanks hr, hle, fields_blanks_append hl]

theorem tidy_dropSemicolons (turns : Nat) (s : Bytes) :
    tidy (fields (scan .text (dropSemicolons turns s))) = tidy (fields (scan .text s)) := by
  induction turns generalizing s with
  | zero => rfl
  | succ turns ih =>
    rw [dropSemicolons]
    split
    · rename_i hl
      have hs : s = s.dropLast ++ [semicolon] := (List.dropLast_append_getLast? _ hl).symm
      rw [ih, fields_scan_trimSpace]
      conv_rhs => rw [hs, scan_append_plain (by simp [Plain]), tidy_semicolon]
    · rfl

theorem trimRight_dropSemicolons (turns : Nat) (h : trimRight s = s) :
    trimRight (dropSemicolons turns s) = dropSemicolons turns s := by
  induction turns generalizing s with
  | zero => exact h
  | succ turns ih =>
    rw [dropSemicolons]
    split
    · exact ih (trimRight_trimRight _)
    · exact h

theorem turn_of_plain {next : Bytes} (hp : p = .text ∨ p = .literal)
    (h : ∀ a ∈ (turn p c next).1, Plain a) :
    (turn p c next).1 = [c] ∧ ((turn p c next).2 = .text ∨ (turn p c next).2 = .literal) := by
  have hl : ∀ c : UInt8, Plain (lower c) → lower c = c := by decide +kernel
  rcases hp with rfl | rfl
  · unfold turn at h ⊢
    simp only [reduceCtorEq, false_and, if_false] at h ⊢
    split_ifs at h ⊢ with hq hco hop hm hd
    · simp
    · have hc := h c (by simp)
      exact absurd List.mem_cons_self ((plain_facts c hc).1.2.2.2.2.2 _ hco)
    · exact absurd hop (plain_facts c (h c (by simp))).1.2.1
    · exact absurd (h dollar (by decide)) (by decide)
    · exact absurd (h dollar (by decide)) (by decide)
    · simp [hl c (h _ (by simp))]
  · unfold turn
    by_cases hq : c = apostrophe <;> simp [hq]

theorem scan_eq_of_plain (hp : p = .text ∨ p = .literal) (h : ∀ c ∈ scan p s, Plain c) :
    scan p s = s := by
  induction s generalizing p with
  | nil => rw [scan]
  | cons c rest ih =>
    rw [scan_cons, List.forall_mem_append] at h
    obtain ⟨hw, hpl⟩ := turn_of_plain hp h.1
    rw [scan_cons, hw, ih hpl h.2, List.singleton_append]

/-- What the canonical text puts in is neither a semicolon nor a star. -/
theorem put_in_facts :
    (∀ w ∈ comparisons, ∀ d ∈ space :: w ++ [space], d ≠ semicolon ∧ d ≠ asterisk) ∧
    (∀ c ∈ bytes "=<>,()", ∀ d ∈ [space, c, space], d ≠ semicolon ∧ d ≠ asterisk) ∧
    (∀ d ∈ bytes "$?", d ≠ semicolon ∧ d ≠ asterisk) ∧
    ∀ c : UInt8, lower c = semicolon ∨ lower c = asterisk → c = lower c := by
  decide +kernel

theorem eq_of_mem_turn {next : Bytes} (hd : d = semicolon ∨ d = asterisk)
    (h : d ∈ (turn p c next).1) : p ≠ .comparison ∧ c = d := by
  obtain ⟨hc, hops, hm, hl⟩ := put_in_facts
  have hnot : ¬ (d ≠ semicolon ∧ d ≠ asterisk) := fun h => hd.elim h.1 h.2
  unfold turn at h
  split_ifs at h with hp _ _ _ _ hco hop
  · cases h
  · cases h
  · exact ⟨hp, (List.mem_singleton.mp h).symm⟩
  · exact ⟨hp, (List.mem_singleton.mp h).symm⟩
  · exact ⟨hp, (List.mem_singleton.mp h).symm⟩
  · exact absurd (hc _ hco d h) hnot
  · exact absurd (hops c hop d h) hnot
  · exact absurd (hm d h) hnot
  · exact absurd (hm d h) hnot
  · obtain rfl := List.mem_singleton.mp h
    exact ⟨hp, hl c hd⟩

theorem scan_semicolon {o b : Bytes} (h : scan p s = o ++ semicolon :: b) :
    ∃ k q r, s = k ++ semicolon :: r ∧ (q = .text ∨ q = .literal) ∧ scan q r = b := by
  induction s generalizing p o with
  | nil => simp [scan] at h
  | cons c rest ih =>
    rw [scan_cons] at h
    rcases List.append_eq_append_iff.mp h with ⟨o', -, hr⟩ | ⟨e, hw, hr⟩
    · obtain ⟨k, q, r, rfl, hq⟩ := ih hr
      exact ⟨c :: k, q, r, rfl, hq⟩
    · cases e with
      | nil =>
        obtain ⟨k, q, r, rfl, hq⟩ := ih (o := []) hr.symm
        exact ⟨c :: k, q, r, rfl, hq⟩
      | cons a e =>
        obtain ⟨rfl, ht⟩ := List.cons.inj hr
        have hmem : semicolon ∈ (turn p c (rest.take 1)).1 := by
          rw [hw]
          simp
        obtain ⟨hp, rfl⟩ := eq_of_mem_turn (.inl rfl) hmem
        rw [turn_plain (.inr (.inr rfl)) hp] at hw ht
        obtain ⟨-, rfl⟩ : o = [] ∧ e = [] := by
          cases o with
          | nil => simpa using hw.symm
          | cons a o => simp at hw
        refine ⟨[], _, rest, rfl, ?_, ht.symm⟩
        by_cases hl : p = .literal <;> simp [hl]

/-- The words of a text without blanks and semicolons at its end have none there either. -/
theorem tidy_of_ends (ht : trimRight s = s) (hl : s.getLast? ≠ some semicolon) :
    tidy (fields (scan .text s)) = List.intercalate [space] (fields (scan .text s)) := by
  unfold tidy
  rcases List.eq_nil_or_concat (fields (scan .text s)) with hnil | ⟨ws, w, hw⟩
  · rw [hnil]
    rfl
  · have hne : w ≠ [] := by
      apply ne_nil_of_mem_fields (s := scan .text s)
      rw [← fields, hw]
      simp
    obtain ⟨w, a, rfl⟩ := (List.eq_nil_or_concat w).resolve_left hne
    rw [List.concat_eq_append, List.concat_eq_append] at hw
    obtain ⟨x, b, hsc, hbl, hb⟩ := (fieldsFrom_last hw).resolve_right fun h =>
      absurd h.1 (by simp)
    have hsp : a ≠ space := by
      rintro rfl
      have hone : blankLen (space :: b) = 1 := blankLen_blank (.inl rfl) b
      omega
    have hse : a ≠ semicolon := by
      rintro rfl
      obtain ⟨k, q, r, hs, hq, hr⟩ := scan_semicolon hsc
      have hbla : Blanks r := by
        have hsa := scan_eq_of_plain hq (hr ▸ Blanks.plain hb)
        rwa [← hsa, hr]
      rw [List.append_cons] at hs
      rw [hs] at ht hl
      rw [eq_nil_of_trimRight ht hbla] at hl
      simp at hl
    have hjo : ∃ j, List.intercalate [space] (ws ++ [w ++ [a]]) = j ++ [a] := by
      by_cases hws : ws = []
      · exact ⟨w, by simp [hws]⟩
      · exact ⟨List.intercalate [space] ws ++ space :: w, by simp [intercalate_concat hws]⟩
    obtain ⟨j, hj⟩ := hjo
    rw [hw, hj, List.rdropWhile_concat_neg _ _ _ (by simp [hsp, hse])]

theorem canonicalize_eq (s : Bytes) : canonicalize s = tidy (fields (scan .text s)) := by
  have he := dropSemicolons_ends (le_refl (trimSpace s).length)
  have ht := trimRight_dropSemicolons (trimSpace s).length (s := trimSpace s)
    (trimRight_trimRight _)
  have hf := tidy_of_ends ht he
  rw [tidy_dropSemicolons, fields_scan_trimSpace] at hf
  rw [hf]
  unfold canonicalize
  dsimp only
  split
  · rename_i hnil
    rw [hnil]
    rfl
  · rfl

/-! ## Edits -/

def isLetter (c : UInt8) : Bool := 97 ≤ lower c && lower c ≤ 122

def operators : List Bytes := (bytes "=<>,()").map ([·])

/-- An operator that the scan reads between `pre` and `post`, and that stays one. -/
def Whole (pre op post : Bytes) : Prop :=
  Apart pre op ∧ (op ∈ comparisons ∨ (op ∈ operators ∧ Apart op post))

/-- One edit outside of string literals. -/
inductive Edit : Bytes → Bytes → Prop
  /-- another case of a letter -/
  | letter {pre post : Bytes} {c d : UInt8} (outside : Outside pre) (hc : isLetter c = true)
      (hd : isLetter d = true) (hcase : lower c = lower d) :
      Edit (pre ++ c :: post) (pre ++ d :: post)
  /-- more or fewer blanks where there are some -/
  | gap {pre post v w : Bytes} (outside : Outside pre) (hv : Blanks v) (hw : Blanks w)
      (hvne : v ≠ []) (hwne : w ≠ []) : Edit (pre ++ (v ++ post)) (pre ++ (w ++ post))
  | behind {pre op post w : Bytes} (outside : Outside pre) (whole : Whole pre op post)
      (hw : Blanks w) : Edit (pre ++ (op ++ post)) (pre ++ (op ++ (w ++ post)))
  | before {pre op post w : Bytes} (outside : Outside pre) (whole : Whole pre op post)
      (hw : Blanks w) : Edit (pre ++ (op ++ post)) (pre ++ (w ++ (op ++ post)))
  | placeholder {pre post n : Bytes} (outside : Outside pre) (hn : n ≠ [])
      (hdigits : ∀ d ∈ n, isDigit d = true) (hpost : ∀ d ∈ post.head?, isDigit d = false) :
      Edit (pre ++ questionMark :: post) (pre ++ dollar :: (n ++ post))
  | semicolon {s : Bytes} : Edit s (s ++ [sqlmatch.semicolon])

theorem letter_facts : ∀ c : UInt8, isLetter c = true → c ≠ apostrophe ∧ c ∉ bytes "=<>,()" ∧
    c ≠ questionMark ∧ c ≠ dollar ∧ isDigit c = false ∧ ∀ w ∈ comparisons, c ∉ w := by
  decide +kernel

theorem turn_letter (h : isLetter c = true) (next : Bytes) :
    turn .text c next = ([lower c], .text) := by
  obtain ⟨hq, hop, hm, hd, -, hc⟩ := letter_facts c h
  have hnot : c :: next ∉ comparisons := fun hmem => hc _ hmem List.mem_cons_self
  simp [turn, hq, hop, hm, hd, hnot]

theorem scan_letter (hout : Outside pre) (h : isLetter c = true) :
    scan .text (pre ++ c :: post) = scan .text pre ++ lower c :: scan .text post := by
  have hh := (letter_facts c h).2.2.2.2
  rw [scan_outside hout (apart_of_head (by simpa using hh)) (by simpa using hh.1), scan_cons,
    turn_letter h, List.singleton_append]

theorem scan_gap {v : Bytes} (hout : Outside pre) (hv : Blanks v) (hne : v ≠ []) :
    scan .text (pre ++ (v ++ post)) = scan .text pre ++ (v ++ scan .text post) := by
  have hh : ∀ c ∈ (v ++ post).head?, Plain c := by
    intro c hc
    rw [List.head?_append_of_ne_nil _ hne] at hc
    exact Blanks.plain hv c (List.mem_of_mem_head? hc)
  have hdi : ∀ d ∈ (v ++ post).head?, isDigit d = false := fun d hd =>
    (plain_facts d (hh d hd)).2
  rw [scan_outside hout (apart_of_plain hh) hdi,
    scan_plain (Blanks.plain hv) hne (by decide)]
  rfl

theorem scan_op {op : Bytes} (hop : op ∈ comparisons ∨ (op ∈ operators ∧ Apart op post)) :
    scan .text (op ++ post) = space :: op ++ space :: scan .text post := by
  have hc : ∀ w ∈ comparisons, w.head? ≠ some apostrophe := by decide
  have hops : ∀ c ∈ bytes "=<>,()", c ≠ apostrophe := List.all_iff_forall_prop.mp (by decide)
  rcases hop with hop | ⟨hop, hap⟩
  · obtain ⟨a, b, rfl⟩ := List.length_eq_two.mp (comparisons_length op hop)
    have hq : a ≠ apostrophe := by simpa using hc _ hop
    have ht : turn .text a [b] = ([space, a, b, space], .comparison) := by
      simp [turn, hq, hop]
    rw [List.cons_append, List.cons_append, scan_cons, List.take_succ_cons, List.take_zero, ht,
      scan_cons]
    rfl
  · obtain ⟨a, ha, rfl⟩ := List.mem_map.mp hop
    have hone : [a] ∉ comparisons := fun hmem => absurd (comparisons_length _ hmem) (by simp)
    have ht : turn .text a [] = ([space, a, space], .text) := by
      simp [turn, hops a ha, hone, ha]
    rw [List.singleton_append, scan_cons, turn_of_apart hap, ht]
    rfl

theorem scan_whole {op : Bytes} (hout : Outside pre) (h : Whole pre op post) :
    scan .text (pre ++ (op ++ post)) =
      scan .text pre ++ (space :: op ++ space :: scan .text post) := by
  have hh : ∀ w ∈ comparisons ++ operators, w ≠ [] ∧ ∀ d ∈ w.head?, isDigit d = false := by
    decide +kernel
  obtain ⟨hne, hdi⟩ := hh op (by
    rw [List.mem_append]
    exact h.2.imp_right And.left)
  have hhe : (op ++ post).head? = op.head? := List.head?_append_of_ne_nil _ hne
  have ha : Apart pre (op ++ post) := by
    intro c hc d hd
    rw [hhe] at hd
    exact h.1 c hc d hd
  rw [scan_outside hout ha (by rwa [hhe]), scan_op h.2]

theorem scan_digits {n : Bytes} (h : ∀ d ∈ n, isDigit d = true) :
    scan .number (n ++ post) = scan .number post := by
  induction n with
  | nil => rfl
  | cons d n ih =>
    rw [List.forall_mem_cons] at h
    have ht : ∀ next, turn .number d next = ([], .number) := by simp [turn, h.1]
    rw [List.cons_append, scan_cons, ht, ih h.2, List.nil_append]

theorem scan_placeholder {n : Bytes} (hout : Outside pre) (hn : n ≠ [])
    (hdi : ∀ d ∈ n, isDigit d = true) (hp : ∀ d ∈ post.head?, isDigit d = false) :
    scan .text (pre ++ questionMark :: post) = scan .text (pre ++ dollar :: (n ++ post)) := by
  have hh : ∀ c ∈ [questionMark, dollar], isDigit c = false ∧ ∀ w ∈ comparisons, c ∉ w := by
    decide +kernel
  have hm := hh questionMark (by simp)
  have hdo := hh dollar (by simp)
  rw [scan_outside hout (apart_of_head (by simpa using hm)) (by simpa using hm.1),
    scan_outside hout (apart_of_head (by simpa using hdo)) (by simpa using hdo.1)]
  congr 1
  cases n with
  | nil => exact absurd rfl hn
  | cons d n =>
    have hd := hdi d List.mem_cons_self
    have hq : ∀ next, turn .text questionMark next = (bytes "$?", .text) := by
      intro next
      have hnot : questionMark :: next ∉ comparisons := fun h => hm.2 _ h List.mem_cons_self
      have hop : questionMark ∉ bytes "=<>,()" := by decide
      have hqu : questionMark ≠ apostrophe := by decide
      simp [turn, hnot, hop, hqu]
    have hnu : turn .text dollar [d] = (bytes "$?", .number) := by
      have hnot : [dollar, d] ∉ comparisons := fun h => hdo.2 _ h List.mem_cons_self
      have hop : dollar ∉ bytes "=<>,()" := by decide
      have ho : dollar ≠ apostrophe ∧ dollar ≠ questionMark := by decide
      simp [turn, hnot, hop, hd, ho]
    rw [scan_cons, hq, scan_cons, List.cons_append, List.take_succ_cons, List.take_zero,
      hnu, ← List.cons_append, scan_digits hdi, scan_number hp]

theorem tidy_scan_edit (h : Edit s t) :
    tidy (fields (scan .text s)) = tidy (fields (scan .text t)) := by
  have hone : Blanks [space] := by decide
  cases h with
  | letter outside hc hd hca => rw [scan_letter outside hc, scan_letter outside hd, hca]
  | gap outside hv hw hvne hwne =>
    rw [scan_gap outside hv hvne, scan_gap outside hw hwne, fields_gap hv hw hvne hwne]
  | @behind pre op post w outside whole hw =>
    by_cases hne : w = []
    · rw [hne, List.nil_append]
    · have hh : ∀ c ∈ (w ++ post).head?, Plain c := by
        intro c hc
        rw [List.head?_append_of_ne_nil _ hne] at hc
        exact Blanks.plain hw c (List.mem_of_mem_head? hc)
      have hwh : Whole pre op (w ++ post) :=
        ⟨whole.1, whole.2.imp_right fun h => ⟨h.1, apart_of_plain hh⟩⟩
      have hgap := fields_gap hone (trimLeft_append hone hw) (by simp) (by simp)
        (scan .text pre ++ space :: op) (scan .text post)
      rw [scan_whole outside whole, scan_whole outside hwh,
        scan_plain (Blanks.plain hw) hne (by decide)]
      simp only [List.append_assoc, List.cons_append, List.nil_append] at hgap ⊢
      rw [hgap]
      rfl
  | @before pre op post w outside whole hw =>
    by_cases hne : w = []
    · rw [hne, List.nil_append]
    · have hgap := fields_gap hone (trimLeft_append hw hone) (by simp) (by simp)
        (scan .text pre) (op ++ space :: scan .text post)
      rw [scan_whole outside whole, scan_gap outside hw hne, scan_op whole.2]
      simp only [List.append_assoc, List.cons_append, List.nil_append] at hgap ⊢
      rw [hgap]
  | placeholder outside hn hdi hp => rw [scan_placeholder outside hn hdi hp]
  | semicolon => rw [scan_append_plain (by simp [Plain]), tidy_semicolon]

/-- Texts that edits lead to have one form, and the rules do not tell them apart. -/
theorem layout_absorbed (h : Relation.EqvGen Edit s t) : canonicalize s = canonicalize t ∧
    ∀ (lib : GoLib) (pattern : Bytes), sqlMatch lib s pattern = sqlMatch lib t pattern := by
  have hf : canonicalize s = canonicalize t := by
    induction h with
    | rel s t he => rw [canonicalize_eq, canonicalize_eq, tidy_scan_edit he]
    | refl s => rfl
    | symm s t _ ih => exact ih.symm
    | trans s t u _ _ ihs iht => exact ihs.trans iht
  refine ⟨hf, fun lib pattern => ?_⟩
  unfold sqlMatch
  rw [hf]

theorem spaced_operator_absorbed :
    canonicalize (bytes "id=?") = canonicalize (bytes "id= ?;") :=
  (layout_absorbed (.trans _ (bytes "id= ?") _
    (.rel _ _ (@Edit.behind (bytes "id") (bytes "=") (bytes "?") [space] (by decide)
      ⟨by decide +kernel, .inr ⟨by decide +kernel, by decide +kernel⟩⟩ (by decide)))
    (.rel _ _ .semicolon))).1

/-- Without its blank `< =` is another operator, and a digit behind a question mark is taken
into the number. -/
theorem joined_operator_differs :
    canonicalize (bytes "a < =b") ≠ canonicalize (bytes "a <=b") ∧
      canonicalize (bytes "a=?5") ≠ canonicalize (bytes "a=$15") := by
  decide

end faultbox.sqlmatch
