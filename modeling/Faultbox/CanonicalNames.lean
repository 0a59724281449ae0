-- The canonical names of operations: splitIdentifierWords cuts an identifier into lower-case
-- words, CanonicalName joins them with underscores and puts op_ before a digit.
-- The law: the name of an ASCII text with a letter or digit is an identifier, and its own
-- canonical name.
import Faultbox.OperationTable
import Mathlib.Data.List.Chain

open goval gopath gotext

namespace faultbox.canonical_names

open operation_table

/-! ## ASCII -/

def isUpper (b : UInt8) : Bool := 65 ≤ b && b ≤ 90

def isLower (b : UInt8) : Bool := 97 ≤ b && b ≤ 122

def isDigit (b : UInt8) : Bool := 48 ≤ b && b ≤ 57

/-- The characters of a word. -/
def isPlain (b : UInt8) : Bool := isLower b || isDigit b

def underscore : UInt8 := 95

def runeOf (b : UInt8) : Char := Char.ofNat b.toNat

/-- What package unicode does on ASCII. -/
structure OnAscii (u : Unicode) : Prop where
  runes : ∀ s : Bytes, (∀ b ∈ s, b < 128) → u.runes s = s.map runeOf
  spell : ∀ b < 128, u.spell (runeOf b) = [b]
  upper : ∀ b < 128, u.isUpper (runeOf b) = isUpper b
  lower : ∀ b < 128, u.isLower (runeOf b) = isLower b
  digit : ∀ b < 128, u.isDigit (runeOf b) = isDigit b
  toLower : ∀ b, isUpper b = true → u.toLower (runeOf b) = runeOf (b + 32)

variable {b : UInt8} {cur w s : Bytes} {words : List Bytes}

theorem ascii_of_upper (h : isUpper b = true) :
    b < 128 ∧ b + 32 < 128 ∧ isPlain (b + 32) = true := by
  simp only [isUpper, isPlain, isLower, Bool.and_eq_true, Bool.or_eq_true, decide_eq_true_eq,
    UInt8.le_iff_toNat_le, UInt8.lt_iff_toNat_lt, UInt8.toNat_add] at h ⊢
  have h65 : (65 : UInt8).toNat = 65 := rfl
  have h90 : (90 : UInt8).toNat = 90 := rfl
  have h32 : (32 : UInt8).toNat = 32 := rfl
  have h97 : (97 : UInt8).toNat = 97 := rfl
  have h122 : (122 : UInt8).toNat = 122 := rfl
  have h128 : (128 : UInt8).toNat = 128 := rfl
  omega

theorem ascii_of_plain (h : isPlain b = true) :
    b < 128 ∧ isUpper b = false ∧ b ≠ underscore := by
  have hcases : (97 ≤ b.toNat ∧ b.toNat ≤ 122) ∨ (48 ≤ b.toNat ∧ b.toNat ≤ 57) := by
    simpa [isPlain, isLower, isDigit, UInt8.le_iff_toNat_le] using h
  refine ⟨?_, ?_, ?_⟩
  · rw [UInt8.lt_iff_toNat_lt]
    change b.toNat < 128
    omega
  · have hno : ¬(65 ≤ b.toNat ∧ b.toNat ≤ 90) := by omega
    simpa [isUpper, UInt8.le_iff_toNat_le] using hno
  · rintro rfl
    simp [underscore] at hcases

/-! ## Words -/

structure IsWord (w : Bytes) : Prop where
  nonempty : w ≠ []
  plain : ∀ b ∈ w, isPlain b = true

section words

variable {u : Unicode} (hu : OnAscii u)

include hu

theorem wordsFrom_plain (hb : isPlain b = true) (prev : Option Char) (cur : Bytes)
    (rest : List Char) :
    u.wordsFrom prev cur (runeOf b :: rest) = u.wordsFrom (some (runeOf b)) (cur ++ [b]) rest := by
  obtain ⟨hlt, hup, -⟩ := ascii_of_plain hb
  have hplain : (u.isLower (runeOf b) || u.isDigit (runeOf b)) = true := by
    rw [hu.lower b hlt, hu.digit b hlt]
    exact hb
  rw [Unicode.wordsFrom, if_neg (by rw [hu.upper b hlt, hup]; exact Bool.false_ne_true),
    if_pos hplain, hu.spell b hlt]

theorem wordsFrom_upper (hb : isUpper b = true) (prev : Option Char) (cur : Bytes)
    (rest : List Char) :
    (cur ≠ [] ∧ u.wordsFrom prev cur (runeOf b :: rest) =
      cur :: u.wordsFrom (some (runeOf b)) [b + 32] rest) ∨
    u.wordsFrom prev cur (runeOf b :: rest) =
      u.wordsFrom (some (runeOf b)) (cur ++ [b + 32]) rest := by
  obtain ⟨hlt, hlow, -⟩ := ascii_of_upper hb
  rw [Unicode.wordsFrom, if_pos (by rw [hu.upper b hlt]; exact hb), hu.toLower b hb,
    hu.spell _ hlow]
  dsimp only
  split
  · rename_i h
    rw [Bool.and_eq_true, decide_eq_true_eq] at h
    exact .inl ⟨h.1, rfl⟩
  · exact .inr rfl

theorem wordsFrom_other (hb : b < 128) (hup : isUpper b = false) (hpl : isPlain b = false)
    (prev : Option Char) (cur : Bytes) (rest : List Char) :
    u.wordsFrom prev cur (runeOf b :: rest) =
      flush cur ++ u.wordsFrom (some (runeOf b)) [] rest := by
  have hplain : (u.isLower (runeOf b) || u.isDigit (runeOf b)) = false := by
    rw [hu.lower b hb, hu.digit b hb]
    exact hpl
  rw [Unicode.wordsFrom, if_neg (by rw [hu.upper b hb, hup]; exact Bool.false_ne_true),
    if_neg (by rw [hplain]; exact Bool.false_ne_true)]

omit hu in
theorem word_of_flush (hcur : ∀ b ∈ cur, isPlain b = true) (h : w ∈ flush cur) : IsWord w := by
  unfold flush at h
  split at h
  · cases h
  · rename_i hne
    rw [List.mem_singleton.mp h]
    exact ⟨hne, hcur⟩

/-- The loop gives words. -/
theorem word_of_wordsFrom (s : Bytes) (hs : ∀ b ∈ s, b < 128) {prev : Option Char}
    (hcur : ∀ b ∈ cur, isPlain b = true) (h : w ∈ u.wordsFrom prev cur (s.map runeOf)) :
    IsWord w := by
  induction s generalizing prev cur with
  | nil => exact word_of_flush hcur h
  | cons b rest ih =>
    obtain ⟨hb, hrest⟩ := List.forall_mem_cons.mp hs
    rw [List.map_cons] at h
    cases hup : isUpper b with
    | true =>
      have hlow := (ascii_of_upper hup).2.2
      rcases wordsFrom_upper hu hup prev cur (rest.map runeOf) with ⟨hne, he⟩ | he
      · rw [he] at h
        rcases List.mem_cons.mp h with rfl | h
        · exact ⟨hne, hcur⟩
        · exact ih hrest (by simpa using hlow) h
      · rw [he] at h
        exact ih hrest (by simpa [or_imp, forall_and, hlow] using hcur) h
    | false =>
      cases hpl : isPlain b with
      | true =>
        rw [wordsFrom_plain hu hpl] at h
        exact ih hrest (by simpa [or_imp, forall_and, hpl] using hcur) h
      | false =>
        rw [wordsFrom_other hu hb hup hpl] at h
        rcases List.mem_append.mp h with h | h
        · exact word_of_flush hcur h
        · exact ih hrest (by simp) h

/-- A letter or digit ends up in some word. -/
theorem wordsFrom_ne_nil (s : Bytes) (hs : ∀ b ∈ s, b < 128) {prev : Option Char}
    (h : cur ≠ [] ∨ ∃ b ∈ s, (isUpper b || isPlain b) = true) :
    u.wordsFrom prev cur (s.map runeOf) ≠ [] := by
  induction s generalizing prev cur with
  | nil =>
    have hcur : cur ≠ [] := h.resolve_right (by simp)
    simp [Unicode.wordsFrom, flush, hcur]
  | cons b rest ih =>
    obtain ⟨hb, hrest⟩ := List.forall_mem_cons.mp hs
    rw [List.map_cons]
    cases hup : isUpper b with
    | true =>
      rcases wordsFrom_upper hu hup prev cur (rest.map runeOf) with ⟨-, he⟩ | he
      · rw [he]
        exact List.cons_ne_nil _ _
      · rw [he]
        exact ih hrest (.inl (by simp))
    | false =>
      cases hpl : isPlain b with
      | true =>
        rw [wordsFrom_plain hu hpl]
        exact ih hrest (.inl (by simp))
      | false =>
        rw [wordsFrom_other hu hb hup hpl]
        rcases h with h | ⟨a, ha, hplain⟩
        · simp [flush, h]
        · rcases List.mem_cons.mp ha with rfl | ha
          · simp [hup, hpl] at hplain
          · simp [ih hrest (.inr ⟨a, ha, hplain⟩)]

/-- The loop takes a word as it is. -/
theorem wordsFrom_word (hw : ∀ b ∈ w, isPlain b = true) (prev : Option Char) (cur : Bytes)
    (rest : List Char) :
    ∃ prev', u.wordsFrom prev cur (w.map runeOf ++ rest) = u.wordsFrom prev' (cur ++ w) rest := by
  induction w generalizing prev cur with
  | nil => exact ⟨prev, by simp⟩
  | cons b w ih =>
    obtain ⟨hb, hw⟩ := List.forall_mem_cons.mp hw
    obtain ⟨prev', he⟩ := ih hw (some (runeOf b)) (cur ++ [b])
    refine ⟨prev', ?_⟩
    rw [List.map_cons, List.cons_append, wordsFrom_plain hu hb, he, List.append_assoc]
    rfl

/-- The words of words joined with underscores. -/
theorem wordsFrom_joined (hw : ∀ w ∈ words, IsWord w) (prev : Option Char) :
    u.wordsFrom prev [] ((List.intercalate [underscore] words).map runeOf) = words := by
  induction words generalizing prev with
  | nil => rfl
  | cons w words ih =>
    obtain ⟨hword, hrest⟩ := List.forall_mem_cons.mp hw
    cases words with
    | nil =>
      obtain ⟨prev', he⟩ := wordsFrom_word hu hword.plain prev [] []
      rw [List.append_nil] at he
      rw [List.intercalate_singleton, he]
      simp [Unicode.wordsFrom, flush, hword.nonempty]
    | cons v words =>
      obtain ⟨prev', he⟩ := wordsFrom_word hu hword.plain prev []
        (runeOf underscore :: (List.intercalate [underscore] (v :: words)).map runeOf)
      rw [List.intercalate_cons_cons, List.map_append, List.map_append, List.map_singleton,
        List.append_assoc, List.singleton_append, he,
        wordsFrom_other hu (by decide) (by decide) (by decide), ih hrest]
      simp [flush, hword.nonempty]

end words

/-! ## Names -/

/-- Words with single underscores between them. -/
structure Joined (s : Bytes) : Prop where
  chars : ∀ b ∈ s, isPlain b = true ∨ b = underscore
  first : ∃ b, s.head? = some b ∧ isPlain b = true
  last : ∃ b, s.getLast? = some b ∧ isPlain b = true
  single : s.IsChain fun a b => a ≠ underscore ∨ b ≠ underscore

theorem IsWord.joined (h : IsWord w) : Joined w := by
  refine ⟨fun b hb => .inl (h.plain b hb), ?_, ?_, ?_⟩
  · exact ⟨w.head h.nonempty, List.head?_eq_some_head h.nonempty,
      h.plain _ (List.head_mem h.nonempty)⟩
  · exact ⟨w.getLast h.nonempty, List.getLast?_eq_some_getLast h.nonempty,
      h.plain _ (List.getLast_mem h.nonempty)⟩
  · apply List.Pairwise.isChain
    apply List.pairwise_of_forall_mem_list
    intro a ha b _
    exact .inl (ascii_of_plain (h.plain a ha)).2.2

theorem Joined.append {t : Bytes} (hs : Joined s) (ht : Joined t) :
    Joined (s ++ [underscore] ++ t) := by
  obtain ⟨a, ha, hpa⟩ := hs.first
  obtain ⟨z, hz, hpz⟩ := hs.last
  obtain ⟨b, hb, hpb⟩ := ht.first
  obtain ⟨c, hc, hpc⟩ := ht.last
  refine ⟨?_, ⟨a, by simp [ha], hpa⟩, ⟨c, by rw [List.getLast?_append, hc]; rfl, hpc⟩, ?_⟩
  · intro x hx
    rcases List.mem_append.mp hx with hx | hx
    · rcases List.mem_append.mp hx with hx | hx
      · exact hs.chars x hx
      · exact .inr (List.mem_singleton.mp hx)
    · exact ht.chars x hx
  · refine (hs.single.append (.singleton _) ?_).append ht.single ?_
    · intro x hx y _
      rw [hz] at hx
      cases hx
      exact .inl (ascii_of_plain hpz).2.2
    · intro x _ y hy
      rw [hb] at hy
      cases hy
      exact .inr (ascii_of_plain hpb).2.2

theorem joined_intercalate (hw : ∀ w ∈ words, IsWord w) (hne : words ≠ []) :
    Joined (List.intercalate [underscore] words) := by
  induction words with
  | nil => exact absurd rfl hne
  | cons w words ih =>
    obtain ⟨hword, hrest⟩ := List.forall_mem_cons.mp hw
    cases words with
    | nil =>
      rw [List.intercalate_singleton]
      exact hword.joined
    | cons v words =>
      rw [List.intercalate_cons_cons]
      exact hword.joined.append (ih hrest (List.cons_ne_nil _ _))

theorem Joined.ascii (h : Joined s) : ∀ b ∈ s, b < 128 := by
  intro b hb
  rcases h.chars b hb with hp | rfl
  · exact (ascii_of_plain hp).1
  · decide

theorem first_digit {u : Unicode} (hu : OnAscii u) (hb : s.head? = some b) (hp : isPlain b = true) :
    (s.head?.any fun b => u.isDigit (Char.ofNat b.toNat)) = isDigit b := by
  rw [hb]
  exact hu.digit b (ascii_of_plain hp).1

/-- Words that do not begin with a digit are joined to their own canonical name. -/
theorem canonicalName_joined {u : Unicode} (hu : OnAscii u) (hw : ∀ w ∈ words, IsWord w)
    (hne : words ≠ []) (hb : (List.intercalate [underscore] words).head? = some b)
    (hl : isLower b = true) :
    u.canonicalName (List.intercalate [underscore] words) =
      some (List.intercalate [underscore] words) := by
  have hp : isPlain b = true := by simp [isPlain, hl]
  have hd : isDigit b = false := by
    have hle : 97 ≤ b.toNat := by
      simp only [isLower, Bool.and_eq_true, decide_eq_true_eq, UInt8.le_iff_toNat_le] at hl
      exact hl.1
    have hno : ¬(48 ≤ b.toNat ∧ b.toNat ≤ 57) := by omega
    simpa [isDigit, UInt8.le_iff_toNat_le] using hno
  have hsplit : u.splitIdentifierWords (List.intercalate [underscore] words) = words := by
    rw [Unicode.splitIdentifierWords, hu.runes _ (joined_intercalate hw hne).ascii]
    exact wordsFrom_joined hu hw none
  have hsep : bytes "_" = [underscore] := by decide
  simp only [Unicode.canonicalName, hsplit, hsep, first_digit hu hb hp, hd, if_neg hne,
    Bool.false_eq_true, if_false]

/-! ## The law -/

/-- Lower-case letters, digits and single inner underscores, first a letter. -/
structure IsIdentifier (name : Bytes) : Prop where
  chars : ∀ b ∈ name, isLower b = true ∨ isDigit b = true ∨ b = underscore
  first : ∃ b, name.head? = some b ∧ isLower b = true
  last : name.getLast? ≠ some underscore
  single : name.IsChain fun a b => a ≠ underscore ∨ b ≠ underscore

theorem Joined.isIdentifier (h : Joined s) (hb : s.head? = some b) (hl : isLower b = true) :
    IsIdentifier s := by
  refine ⟨?_, ⟨b, hb, hl⟩, ?_, h.single⟩
  · intro c hc
    rw [← or_assoc]
    exact (h.chars c hc).imp_left (Bool.or_eq_true _ _).mp
  · obtain ⟨c, hc, hp⟩ := h.last
    rw [hc]
    intro he
    exact (ascii_of_plain hp).2.2 (Option.some.inj he)

/-- `CanonicalName` gives every ASCII text with a letter or digit an identifier, and leaves it as
it is. -/
theorem canonicalName_is_stable (u : Unicode) (hu : OnAscii u) (raw : Bytes)
    (hraw : ∀ b ∈ raw, b < 128)
    (hsome : ∃ b ∈ raw, isUpper b = true ∨ isLower b = true ∨ isDigit b = true) :
    ∃ name, u.canonicalName raw = some name ∧ IsIdentifier name ∧
      u.canonicalName name = some name := by
  obtain ⟨words, hwords⟩ : ∃ words, words = u.wordsFrom none [] (raw.map runeOf) := ⟨_, rfl⟩
  have hw : ∀ w ∈ words, IsWord w := by
    intro w h
    rw [hwords] at h
    exact word_of_wordsFrom hu raw hraw (by simp) h
  have hne : words ≠ [] := by
    rw [hwords]
    obtain ⟨b, hb, hkind⟩ := hsome
    refine wordsFrom_ne_nil hu raw hraw (.inr ⟨b, hb, ?_⟩)
    simpa [isPlain] using hkind
  have hsplit : u.splitIdentifierWords raw = words := by
    rw [Unicode.splitIdentifierWords, hu.runes raw hraw, hwords]
  have hsep : bytes "_" = [underscore] := by decide
  have hjoined := joined_intercalate hw hne
  obtain ⟨b, hb, hp⟩ := hjoined.first
  cases hd : isDigit b with
  | false =>
    have hl : isLower b = true := by simpa [isPlain, hd] using hp
    refine ⟨_, ?_, hjoined.isIdentifier hb hl, canonicalName_joined hu hw hne hb hl⟩
    simp only [Unicode.canonicalName, hsplit, hsep, first_digit hu hb hp, hd, if_neg hne,
      Bool.false_eq_true, if_false]
  | true =>
    -- the name is that of one word more
    have hall : (bytes "op").all isPlain = true := by decide
    have hop : IsWord (bytes "op") := ⟨by decide, List.all_eq_true.mp hall⟩
    have hw' : ∀ w ∈ bytes "op" :: words, IsWord w := List.forall_mem_cons.mpr ⟨hop, hw⟩
    have hname : bytes "op_" ++ List.intercalate [underscore] words =
        List.intercalate [underscore] (bytes "op" :: words) := by
      obtain ⟨w, rest, rfl⟩ := List.exists_cons_of_ne_nil hne
      rw [List.intercalate_cons_cons]
      rfl
    have hhead : (List.intercalate [underscore] (bytes "op" :: words)).head? = some 111 := by
      rw [← hname]
      rfl
    have hl : isLower 111 = true := by decide
    refine ⟨_, ?_, (joined_intercalate hw' (List.cons_ne_nil _ _)).isIdentifier hhead hl,
      canonicalName_joined hu hw' (List.cons_ne_nil _ _) hhead hl⟩
    simp only [Unicode.canonicalName, hsplit, hsep, first_digit hu hb hp, hd, if_neg hne, if_true,
      hname]

theorem onAscii_ascii : OnAscii ascii := by
  have hbytes : ∀ n < 128, ascii.spell (runeOf (UInt8.ofNat n)) = [UInt8.ofNat n] ∧
      ascii.isUpper (runeOf (UInt8.ofNat n)) = isUpper (UInt8.ofNat n) ∧
      ascii.isLower (runeOf (UInt8.ofNat n)) = isLower (UInt8.ofNat n) ∧
      ascii.isDigit (runeOf (UInt8.ofNat n)) = isDigit (UInt8.ofNat n) ∧
      (isUpper (UInt8.ofNat n) = true →
        ascii.toLower (runeOf (UInt8.ofNat n)) = runeOf (UInt8.ofNat n + 32)) := by decide
  have hbyte : ∀ b : UInt8, b < 128 → ascii.spell (runeOf b) = [b] ∧
      ascii.isUpper (runeOf b) = isUpper b ∧ ascii.isLower (runeOf b) = isLower b ∧
      ascii.isDigit (runeOf b) = isDigit b ∧
      (isUpper b = true → ascii.toLower (runeOf b) = runeOf (b + 32)) := by
    intro b hb
    have hlt : b.toNat < 128 := UInt8.lt_iff_toNat_lt.mp hb
    have h := hbytes b.toNat hlt
    rwa [UInt8.ofNat_toNat] at h
  exact ⟨fun _ _ => rfl, fun b hb => (hbyte b hb).1, fun b hb => (hbyte b hb).2.1,
    fun b hb => (hbyte b hb).2.2.1, fun b hb => (hbyte b hb).2.2.2.1,
    fun b hb => (hbyte b (ascii_of_upper hb).1).2.2.2.2 hb⟩

theorem listOrders_is_stable : ∃ name, ascii.canonicalName (bytes "2ListOrdersByID") = some name ∧
    IsIdentifier name ∧ ascii.canonicalName name = some name ∧
    name = bytes "op_2_list_orders_by_id" := by
  obtain ⟨name, hname, hid, hself⟩ := canonicalName_is_stable ascii onAscii_ascii
    (bytes "2ListOrdersByID")
    (fun b hb => of_decide_eq_true (List.all_eq_true.mp
      (by decide : (bytes "2ListOrdersByID").all (fun b => decide (b < 128)) = true) b hb))
    ⟨50, by decide, by decide⟩
  refine ⟨name, hname, hid, hself, ?_⟩
  have heval : ascii.canonicalName (bytes "2ListOrdersByID") =
      some (bytes "op_2_list_orders_by_id") := by decide
  rw [heval] at hname
  exact (Option.some.inj hname).symm

end faultbox.canonical_names
