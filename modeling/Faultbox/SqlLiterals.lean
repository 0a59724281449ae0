-- The string literals of a SQL text behind Canonicalize: they come out in order, none lost and
-- none new, but each run of blanks in one of them is one space then, since the last pass
-- over the text does not know of literals. So they come out as they were exactly where
-- their blanks are single spaces.
import Faultbox.SqlLayout

open gopath gotext

namespace faultbox.sqlmatch

variable {c : UInt8} {o : Option Bytes} {p : Place} {a l s t u : Bytes}

/-- The literals from here on, without their quotes; `o` is the literal so far, where the text
begins in one. -/
def literalsFrom : Option Bytes → Bytes → List Bytes
  | _, [] => []
  | none, c :: s => if c = apostrophe then literalsFrom (some []) s else literalsFrom none s
  | some l, c :: s =>
    if c = apostrophe then l :: literalsFrom none s else literalsFrom (some (l ++ [c])) s

def literals (s : Bytes) : List Bytes := literalsFrom none s

/-- A text with one space for each run of blanks; `gap` says that a space stands before it. -/
def squeezeFrom (skip : Nat) (gap : Bool) : Bytes → Bytes
  | [] => []
  | c :: s =>
    match skip with
    | skip + 1 => squeezeFrom skip gap s
    | 0 =>
      match blankLen (c :: s) with
      | 0 => c :: squeezeFrom 0 false s
      | len + 1 => (if gap then [] else [space]) ++ squeezeFrom len true s

def squeeze (s : Bytes) : Bytes := squeezeFrom 0 false s

/-! ## Reading literals -/

theorem literalsFrom_append (ht : apostrophe ∉ t) : literalsFrom o (s ++ t) = literalsFrom o s := by
  induction s generalizing o with
  | nil =>
    induction t generalizing o with
    | nil => rfl
    | cons c t ih =>
      rw [List.mem_cons, not_or] at ht
      cases o <;> simp only [List.nil_append, literalsFrom, if_neg (Ne.symm ht.1)] at ih ⊢ <;>
        exact ih ht.2
  | cons c s ih => cases o <;> simp only [List.cons_append, literalsFrom, ih]

theorem literalsFrom_none (ha : apostrophe ∉ a) (s : Bytes) :
    literalsFrom none (a ++ s) = literalsFrom none s := by
  induction a with
  | nil => rfl
  | cons c a ih =>
    rw [List.mem_cons, not_or] at ha
    rw [List.cons_append, literalsFrom, if_neg (Ne.symm ha.1), ih ha.2]

theorem literalsFrom_some (hl : apostrophe ∉ l) (u s : Bytes) :
    literalsFrom (some u) (l ++ apostrophe :: s) = (u ++ l) :: literalsFrom none s := by
  induction l generalizing u with
  | nil => simp [literalsFrom]
  | cons c l ih =>
    rw [List.mem_cons, not_or] at hl
    rw [List.cons_append, literalsFrom, if_neg (Ne.symm hl.1), ih hl.2]
    simp

theorem turn_other (next : Bytes) (hp : p ≠ .literal) (hc : c ≠ apostrophe) :
    apostrophe ∉ (turn p c next).1 ∧ (turn p c next).2 ≠ .literal ∧
      ((turn p c next).2 = .comparison → c :: next ∈ comparisons) := by
  have hco : ∀ w ∈ comparisons, apostrophe ∉ space :: w ++ [space] := by decide
  have hops : ∀ c ∈ bytes "=<>,()", apostrophe ∉ [space, c, space] := by decide +kernel
  have hm : apostrophe ∉ bytes "$?" := by decide
  have hl : ∀ c : UInt8, c ≠ apostrophe → apostrophe ∉ [lower c] := by decide +kernel
  unfold turn
  split_ifs with _ _ hcom hop
  · simp
  · simp
  · exact ⟨hco _ hcom, by simp, fun _ => hcom⟩
  · exact ⟨hops c hop, by simp, by simp⟩
  · exact ⟨hm, by simp, by simp⟩
  · exact ⟨hm, by simp, by simp⟩
  · exact ⟨hl c hc, by simp, by simp⟩

theorem literals_scan (hp : p = .comparison → s.head? ≠ some apostrophe) :
    (p ≠ .literal → literalsFrom none (scan p s) = literalsFrom none s) ∧
      (p = .literal → ∀ l, literalsFrom (some l) (scan p s) = literalsFrom (some l) s) := by
  induction s generalizing p with
  | nil => simp [scan]
  | cons c rest ih =>
    rw [scan_cons]
    have hc : ∀ w ∈ comparisons, apostrophe ∉ w := by decide
    by_cases hq : c = apostrophe
    · subst hq
      have ho : p ≠ .comparison := fun h => hp h rfl
      have hd : isDigit apostrophe = false := by decide
      refine ⟨fun hout => ?_, fun hin l => ?_⟩
      · have ht : turn p apostrophe (rest.take 1) = ([apostrophe], .literal) := by
          simp [turn, ho, hout, hd]
        simp [ht, literalsFrom, (ih (p := .literal) (by simp)).2 rfl]
      · have ht : turn p apostrophe (rest.take 1) = ([apostrophe], .text) := by
          simp [turn, hin]
        simp [ht, literalsFrom, (ih (p := .text) (by simp)).1 (by simp)]
    · refine ⟨fun hout => ?_, fun hin l => ?_⟩
      · obtain ⟨hw, hpl, hn⟩ := turn_other (rest.take 1) hout hq
        rw [literalsFrom_none hw, literalsFrom, if_neg hq]
        refine (ih fun h hh => ?_).1 hpl
        have hmem := hc _ (hn h)
        cases rest with
        | nil => cases hh
        | cons d rest => simp_all
      · have ht : turn p c (rest.take 1) = ([c], .literal) := by simp [turn, hin, hq]
        simp [ht, literalsFrom, hq, (ih (p := .literal) (by simp)).2 rfl]

/-! ## Squeezing -/

theorem mem_squeezeFrom {skip : Nat} {gap : Bool} (h : c ∈ squeezeFrom skip gap s) :
    c = space ∨ c ∈ s := by
  induction s generalizing skip gap with
  | nil => cases h
  | cons d s ih =>
    cases skip with
    | succ skip => exact (ih h).imp_right (List.mem_cons_of_mem _)
    | zero =>
      rw [squeezeFrom] at h
      split at h
      · rcases List.mem_cons.mp h with rfl | h
        · exact .inr List.mem_cons_self
        · exact (ih h).imp_right (List.mem_cons_of_mem _)
      · rcases List.mem_append.mp h with h | h
        · split at h
          · cases h
          · exact .inl (List.mem_singleton.mp h)
        · exact (ih h).imp_right (List.mem_cons_of_mem _)

theorem squeezeFrom_quote {skip : Nat} {gap : Bool} (hs : skip ≤ a.length) (s : Bytes) :
    squeezeFrom skip gap (a ++ apostrophe :: s) =
      squeezeFrom skip gap a ++ apostrophe :: squeeze s := by
  have hl : IsLead apostrophe := .inl (by decide)
  induction a generalizing skip gap with
  | nil =>
    have hb : blankLen (apostrophe :: s) = 0 := blankLen_visible (by decide) s
    have hst : squeezeFrom 0 gap (apostrophe :: s) = apostrophe :: squeeze s := by
      rw [squeezeFrom, hb]
      rfl
    rw [Nat.le_zero.mp hs, List.nil_append, hst]
    rfl
  | cons c a ih =>
    cases skip with
    | succ skip => exact ih (Nat.le_of_succ_le_succ hs)
    | zero =>
      have hsa := blankLen_append_lead (List.cons_ne_nil c a) hl s
      rw [List.cons_append] at hsa
      rw [List.cons_append, squeezeFrom, squeezeFrom, hsa]
      cases hlen : blankLen (c :: a) with
      | zero => exact congrArg _ (ih (Nat.zero_le _))
      | succ len =>
        have hle := (blankLen_append_left (s := c :: a) (by omega) []).2
        rw [hlen] at hle
        dsimp only
        rw [ih (Nat.le_of_succ_le_succ hle), List.append_assoc]

theorem literals_squeeze (u : Bytes) : literals (squeeze u) = (literals u).map squeeze := by
  have hnot : ∀ {a : Bytes}, apostrophe ∉ a → apostrophe ∉ squeeze a := fun ha hmem =>
    (mem_squeezeFrom hmem).elim (by decide) ha
  have hq : ∀ a s : Bytes, squeeze (a ++ apostrophe :: s) =
      squeeze a ++ apostrophe :: squeeze s := fun a s => squeezeFrom_quote (Nat.zero_le _) s
  have hno : ∀ {a : Bytes} (o : Option Bytes), apostrophe ∉ a → literalsFrom o a = [] := by
    intro a o ha
    have happ := literalsFrom_append (o := o) (s := []) ha
    simpa [literalsFrom] using happ
  induction hn : u.length using Nat.strongRecOn generalizing u with
  | ind n ih =>
    unfold literals at ih ⊢
    by_cases hu : apostrophe ∈ u
    · obtain ⟨a, b, rfl, ha⟩ := List.eq_append_cons_of_mem hu
      rw [hq, literalsFrom_none (hnot ha), literalsFrom_none ha, literalsFrom, literalsFrom,
        if_pos rfl, if_pos rfl]
      by_cases hb : apostrophe ∈ b
      · obtain ⟨l, r, rfl, hl⟩ := List.eq_append_cons_of_mem hb
        have hr := ih r.length (by simp [← hn]; omega) r rfl
        rw [hq, literalsFrom_some (hnot hl), literalsFrom_some hl, hr]
        rfl
      · rw [hno _ hb, hno _ (hnot hb)]
        rfl
    · rw [hno _ hu, hno _ (hnot hu)]
      rfl

/-- The words so far, joined, are the squeezed text, up to a space at the end. -/
theorem squeezeFrom_fields (skip : Nat) (word s : Bytes) :
    ∃ last, apostrophe ∉ last ∧ word ++ squeezeFrom skip (word = []) s =
      List.intercalate [space] (fieldsFrom skip word s) ++ last ∧
      (fieldsFrom skip word s = [] → last = []) := by
  induction s generalizing skip word with
  | nil =>
    refine ⟨[], by simp, ?_, fun _ => rfl⟩
    by_cases hw : word = []
    · simp [hw, squeezeFrom, fieldsFrom]
    · simp [hw, squeezeFrom, fieldsFrom]
  | cons c s ih =>
    cases skip with
    | succ skip => exact ih skip word
    | zero =>
      rw [squeezeFrom, fieldsFrom]
      cases hlen : blankLen (c :: s) with
      | zero =>
        obtain ⟨last, hl, heq, hnil⟩ := ih 0 (word ++ [c])
        refine ⟨last, hl, ?_, hnil⟩
        simpa using heq
      | succ len =>
        obtain ⟨last, hl, heq, hnil⟩ := ih len []
        dsimp only
        rw [List.nil_append] at heq
        by_cases hw : word = []
        · exact ⟨last, hl, by simpa [hw] using heq, by simpa [hw] using hnil⟩
        · by_cases hr : fieldsFrom len [] s = []
          · refine ⟨[space], by decide, ?_, by simp [hw]⟩
            simp only [hr, hnil hr, List.intercalate_nil, List.append_nil,
              decide_true] at heq ⊢
            simp [hw, heq]
          · refine ⟨last, hl, ?_, by simp [hw]⟩
            obtain ⟨w, ws, hc⟩ := List.exists_cons_of_ne_nil hr
            simp only [decide_true] at heq
            rw [if_neg hw, List.singleton_append, hc, List.intercalate_cons_cons, ← hc]
            simp [hw, heq]

theorem exists_squeeze (u : Bytes) : ∃ first last, apostrophe ∉ first ∧ apostrophe ∉ last ∧
    squeeze u = first ++ (List.intercalate [space] (fields u) ++ last) := by
  unfold squeeze fields
  cases u with
  | nil => exact ⟨[], [], by simp, by simp, rfl⟩
  | cons c s =>
    rw [squeezeFrom, fieldsFrom]
    cases hlen : blankLen (c :: s) with
    | zero =>
      obtain ⟨last, hl, heq, -⟩ := squeezeFrom_fields 0 [c] s
      exact ⟨[], last, by simp, hl, by simpa using heq⟩
    | succ len =>
      obtain ⟨last, hl, heq, -⟩ := squeezeFrom_fields len [] s
      exact ⟨[space], last, by decide, hl, by simpa using heq⟩

theorem literals_canonicalize (sql : Bytes) :
    literals (canonicalize sql) = (literals sql).map squeeze := by
  obtain ⟨first, last, hf, hl, heq⟩ := exists_squeeze (scan .text sql)
  have hs : literals (scan .text sql) = literals sql := (literals_scan (by simp)).1 (by simp)
  rw [← hs, ← literals_squeeze, heq, canonicalize_eq, tidy]
  unfold literals
  rw [literalsFrom_none hf, literalsFrom_append hl]
  generalize List.intercalate [space] (fields (scan .text sql)) = joined
  have hsp := List.rdropWhile_append_rtakeWhile (p := fun c => c = semicolon ∨ c = space)
    (l := joined)
  have ht : apostrophe ∉ joined.rtakeWhile fun c => c = semicolon ∨ c = space := fun h =>
    absurd (List.mem_rtakeWhile_imp h) (by decide)
  conv_rhs => rw [← hsp]
  rw [literalsFrom_append ht]

/-- Literals come out as they were exactly where their blanks are single spaces. -/
theorem literals_kept_iff (sql : Bytes) :
    literals (canonicalize sql) = literals sql ↔ ∀ l ∈ literals sql, squeeze l = l := by
  rw [literals_canonicalize]
  conv_lhs => rhs; rw [← List.map_id (literals sql)]
  exact List.map_inj_left

theorem two_spaces_become_one :
    (bytes "select 'a  b'").count apostrophe % 2 = 0 ∧
      literals (canonicalize (bytes "select 'a  b'")) ≠ literals (bytes "select 'a  b'") := by
  decide

end faultbox.sqlmatch
