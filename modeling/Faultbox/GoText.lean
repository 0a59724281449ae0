-- Byte strings as Go programs read them: lines and blocks of a stream, decimal numbers
-- (strconv), big-endian numbers, words between blanks (strings.Fields). What was written with
-- single words and numbers is read back as it was.
import Faultbox.PathMatch
import Faultbox.GoValues
import Mathlib.Data.Nat.Digits.Lemmas
import Mathlib.Data.List.DropRight

open goval gopath

namespace gotext

variable {n : Nat} {c : UInt8} {w : Bytes}

/-! ## Streams -/

def newline : UInt8 := 10
def space : UInt8 := 32
def tab : UInt8 := 9

def crlf : Bytes := [13, 10]

/-- `ReadBytes('\n')`: the line with its newline, and what follows it; where the stream
ends first, all of it. -/
def readLine (s : Bytes) : Bytes × Option Bytes :=
  match s.dropWhile (· ≠ newline) with
  | [] => (s, none)
  | c :: rest => (s.takeWhile (· ≠ newline) ++ [c], some rest)

/-- `io.ReadFull`: `none` where the stream is too short. -/
def readFull (n : Nat) (s : Bytes) : Option (Bytes × Bytes) :=
  if n ≤ s.length then some (s.take n, s.drop n) else none

theorem readLine_append {text : Bytes} (h : newline ∉ text) (rest : Bytes) :
    readLine (text ++ newline :: rest) = (text ++ [newline], some rest) := by
  have hall : ∀ c ∈ text, decide (c ≠ newline) = true := by
    intro c hc
    apply decide_eq_true
    rintro rfl
    exact h hc
  unfold readLine
  rw [List.dropWhile_append_of_pos hall, List.takeWhile_append_of_pos hall]
  simp

theorem readLine_crlf {text : Bytes} (h : newline ∉ text) (rest : Bytes) :
    readLine (text ++ crlf ++ rest) = (text ++ crlf, some rest) := by
  have hl : newline ∉ text ++ [13] := by
    simpa using ⟨h, by decide⟩
  have hr := readLine_append hl rest
  simpa [crlf, newline] using hr

theorem readFull_append {block : Bytes} (h : block.length = n) (rest : Bytes) :
    readFull n (block ++ rest) = some (block, rest) := by
  subst h
  simp [readFull]

/-- `strings.TrimRight` with "\r\n". -/
def trimEol (line : Bytes) : Bytes := line.rdropWhile fun c => c = 13 || c = 10

theorem trimEol_crlf {s : Bytes} (h : ∀ c ∈ s.getLast?, c ≠ 13 ∧ c ≠ 10) :
    trimEol (s ++ crlf) = s := by
  have hs : trimEol s = s := by
    unfold trimEol
    rw [List.rdropWhile_eq_self_iff]
    intro hne
    have hl := h _ (List.getLast?_eq_some_getLast hne)
    simp [hl]
  unfold trimEol at hs ⊢
  rw [crlf, List.append_cons, List.rdropWhile_concat_pos _ _ _ (by decide),
    List.rdropWhile_concat_pos _ _ _ (by decide), hs]

/-! ## Letters -/

/-- `strings.ToUpper`, on a byte of ASCII. -/
def upper (c : UInt8) : UInt8 :=
  if 97 ≤ c.toNat ∧ c.toNat ≤ 122 then UInt8.ofNat (c.toNat - 32) else c

/-- `strings.ToUpper`, compared with names of ASCII: two letters beyond ASCII become letters of
ASCII. -/
def upperText : Bytes → Bytes
  | 0xC4 :: 0xB1 :: rest => 73 :: upperText rest
  | 0xC5 :: 0xBF :: rest => 83 :: upperText rest
  | c :: rest => upper c :: upperText rest
  | [] => []

/-- `strings.ToLower`, on a byte of ASCII. -/
def lower (c : UInt8) : UInt8 :=
  if 65 ≤ c.toNat ∧ c.toNat ≤ 90 then UInt8.ofNat (c.toNat + 32) else c

/-! ## Pieces between separators -/

/-- `strings.Trim` with one byte. -/
def trimByte (sep : UInt8) (s : Bytes) : Bytes := (s.dropWhile (· = sep)).rdropWhile (· = sep)

def trimPieces (pieces : List Bytes) : List Bytes :=
  (pieces.dropWhile (· = [])).rdropWhile (· = [])

/-- `strings.SplitN` for at most `n` pieces: the last one keeps its separators. -/
def splitN (sep : UInt8) : Nat → Bytes → List Bytes
  | 0, _ => []
  | 1, s => [s]
  | n + 2, s =>
    if sep ∈ s then
      s.takeWhile (· ≠ sep) :: splitN sep (n + 1) ((s.dropWhile (· ≠ sep)).drop 1)
    else [s]

theorem splitN_last {sep : UInt8} {s : Bytes} (h : sep ∉ s) (n : Nat) :
    splitN sep (n + 1) s = [s] := by
  cases n with
  | zero => rfl
  | succ n => rw [splitN, if_neg h]

theorem splitN_cut {sep : UInt8} {piece : Bytes} (h : sep ∉ piece) (n : Nat) (s : Bytes) :
    splitN sep (n + 2) (piece ++ sep :: s) = piece :: splitN sep (n + 1) s := by
  have hne : ∀ c ∈ piece, decide (c ≠ sep) = true := by
    intro c hc
    exact decide_eq_true fun he => h (he ▸ hc)
  rw [splitN, if_pos (List.mem_append_right piece List.mem_cons_self),
    List.takeWhile_append_of_pos hne, List.dropWhile_append_of_pos hne]
  simp

theorem splitN_intercalate {sep : UInt8} {pieces : List Bytes} (hne : pieces ≠ [])
    (h : ∀ p ∈ pieces, sep ∉ p) {n : Nat} (hn : pieces.length ≤ n) :
    splitN sep n ([sep].intercalate pieces) = pieces := by
  induction pieces generalizing n with
  | nil => exact absurd rfl hne
  | cons piece rest ih =>
    obtain ⟨hp, hrest⟩ := List.forall_mem_cons.mp h
    cases rest with
    | nil =>
      obtain ⟨m, rfl⟩ := Nat.exists_eq_add_of_le' hn
      rw [intercalate_cons, List.flatMap_nil, List.append_nil]
      exact splitN_last hp m
    | cons second more =>
      obtain ⟨m, rfl⟩ : ∃ m, n = m + 2 := by
        rw [List.length_cons, List.length_cons] at hn
        exact ⟨n - 2, by omega⟩
      rw [List.intercalate_cons_cons, List.append_assoc, List.singleton_append, splitN_cut hp,
        ih (List.cons_ne_nil _ _) hrest (Nat.le_of_succ_le_succ hn)]

section pieces

variable {sep : UInt8}
variable {pieces : List Bytes} {p : Bytes}

theorem sep_notMem_of_mem_splitOn {s piece : Bytes} (h : piece ∈ s.splitOn sep) : sep ∉ piece := by
  induction s generalizing piece with
  | nil =>
    rw [List.splitOn_nil, List.mem_singleton] at h
    simp [h]
  | cons c s ih =>
    unfold List.splitOn at h ih
    rw [List.splitOnP_cons_eq_if_modifyHead] at h
    split at h
    · rcases List.mem_cons.mp h with rfl | h
      · simp
      · exact ih h
    · rename_i hc
      obtain ⟨first, rest, hs⟩ := List.exists_cons_of_ne_nil (List.splitOnP_ne_nil (· == sep) s)
      rw [hs] at h ih
      rw [List.modifyHead_cons] at h
      rcases List.mem_cons.mp h with rfl | h
      · have hne : sep ≠ c := fun heq => hc (by simp [heq])
        simp only [List.mem_cons, not_or]
        exact ⟨hne, ih List.mem_cons_self⟩
      · exact ih (List.mem_cons_of_mem _ h)

theorem intercalate_concat (h : pieces ≠ []) (piece : Bytes) :
    List.intercalate [sep] (pieces ++ [piece]) = List.intercalate [sep] pieces ++ sep :: piece := by
  obtain ⟨first, rest, rfl⟩ := List.exists_cons_of_ne_nil h
  rw [List.cons_append, intercalate_cons, intercalate_cons]
  simp

theorem dropWhile_intercalate (h : ∀ p ∈ pieces, sep ∉ p) :
    (List.intercalate [sep] pieces).dropWhile (· = sep) =
      List.intercalate [sep] (pieces.dropWhile (· = [])) := by
  induction pieces with
  | nil => simp
  | cons first pieces ih =>
    have hr := ih fun p hp => h p (List.mem_cons_of_mem _ hp)
    cases first with
    | nil =>
      cases pieces with
      | nil => simp
      | cons second pieces =>
        rw [List.intercalate_cons_cons, List.dropWhile_cons_of_pos (by simp), ← hr]
        simp
    | cons c first =>
      have hc : c ≠ sep := by
        rintro rfl
        exact h _ List.mem_cons_self List.mem_cons_self
      cases pieces with
      | nil => simp [hc]
      | cons second pieces =>
        rw [List.intercalate_cons_cons, List.dropWhile_cons_of_neg (by simp),
          List.intercalate_cons_cons]
        simp [hc]

theorem rdropWhile_intercalate (h : ∀ p ∈ pieces, sep ∉ p) :
    (List.intercalate [sep] pieces).rdropWhile (· = sep) =
      List.intercalate [sep] (pieces.rdropWhile (· = [])) := by
  induction pieces using List.reverseRecOn with
  | nil => simp
  | append_singleton pieces last ih =>
    have hr := ih fun p hp => h p (List.mem_append_left _ hp)
    rcases List.eq_nil_or_concat last with rfl | ⟨front, c, rfl⟩
    · rw [List.rdropWhile_concat_pos _ _ _ (by simp), ← hr]
      cases pieces with
      | nil => simp
      | cons first pieces =>
        rw [intercalate_concat (List.cons_ne_nil _ _), List.rdropWhile_concat_pos _ _ _ (by simp)]
    · have hc : c ≠ sep := by
        rintro rfl
        exact h _ (List.mem_append_right _ List.mem_cons_self) (by simp)
      rw [List.rdropWhile_concat_neg _ _ _ (by simp)]
      cases pieces with
      | nil =>
        have hl : ¬ decide (c = sep) = true := by simpa using hc
        simpa using List.rdropWhile_concat_neg (fun x => decide (x = sep)) front c hl
      | cons first pieces =>
        rw [intercalate_concat (List.cons_ne_nil _ _), List.concat_eq_append, ← List.cons_append,
          ← List.append_assoc, List.rdropWhile_concat_neg _ _ _ (by simpa using hc)]

theorem trimByte_intercalate (h : ∀ p ∈ pieces, sep ∉ p) :
    trimByte sep (List.intercalate [sep] pieces) = List.intercalate [sep] (trimPieces pieces) := by
  unfold trimByte trimPieces
  rw [dropWhile_intercalate h, rdropWhile_intercalate]
  exact fun p hp => h p (List.dropWhile_sublist _ |>.subset hp)

theorem mem_intercalate {c : UInt8} (hp : p ∈ pieces) (hc : c ∈ p) :
    c ∈ List.intercalate [sep] pieces := by
  induction pieces with
  | nil => exact nomatch hp
  | cons first pieces ih =>
    cases pieces with
    | nil =>
      rw [List.mem_singleton.mp hp] at hc
      simpa using hc
    | cons second pieces =>
      rw [List.intercalate_cons_cons, List.append_assoc, List.mem_append, List.mem_append]
      rcases List.mem_cons.mp hp with rfl | hp
      · exact .inl hc
      · exact .inr (.inr (ih hp))

theorem exists_mem_splitOn {s : Bytes} {c : UInt8} (h : c ∈ s) (hc : c ≠ sep) :
    ∃ p ∈ s.splitOn sep, c ∈ p := by
  have hall : ∀ pieces : List Bytes, c ∈ List.intercalate [sep] pieces → ∃ p ∈ pieces, c ∈ p := by
    intro pieces hmem
    induction pieces with
    | nil => simp at hmem
    | cons first pieces ih =>
      cases pieces with
      | nil => exact ⟨first, List.mem_cons_self, by simpa using hmem⟩
      | cons second pieces =>
        rw [List.intercalate_cons_cons, List.append_assoc, List.mem_append, List.mem_append] at hmem
        rcases hmem with hmem | hmem | hmem
        · exact ⟨first, List.mem_cons_self, hmem⟩
        · exact absurd (List.mem_singleton.mp hmem) hc
        · obtain ⟨p, hp, hcp⟩ := ih hmem
          exact ⟨p, List.mem_cons_of_mem _ hp, hcp⟩
  apply hall
  rw [List.intercalate_splitOn]
  exact h

end pieces

/-! ## Decimal numbers -/

/-- A number as `%d` prints it. -/
def decimal (n : Nat) : Bytes :=
  if n = 0 then [48] else (Nat.digits 10 n).reverse.map fun d => UInt8.ofNat (48 + d)

def IsDigit (c : UInt8) : Prop := 48 ≤ c.toNat ∧ c.toNat ≤ 57

instance (c : UInt8) : Decidable (IsDigit c) := inferInstanceAs (Decidable (_ ∧ _))

/-- The number that a row of digits spells; `none` for anything else. -/
def digitsValue (s : Bytes) : Option Nat :=
  if s ≠ [] ∧ s.all (fun c => decide (IsDigit c)) then
    some (Nat.ofDigits 10 (s.reverse.map fun c => c.toNat - 48))
  else none

/-- `strconv.Atoi`: the value, and whether there was no error. A number that does not fit
gives the nearest one that does. -/
def atoi (s : Bytes) : Int × Bool :=
  let negative := s.head? = some 45
  let digits := if negative ∨ s.head? = some 43 then s.tail else s
  match digitsValue digits with
  | none => (0, false)
  | some n =>
    let x : Int := if negative then -n else n
    if Fits x then (x, true) else (if negative then -2 ^ 63 else 2 ^ 63 - 1, false)

theorem toNat_digit {d : Nat} (h : d < 10) : (UInt8.ofNat (48 + d)).toNat = 48 + d := by
  rw [UInt8.toNat_ofNat']
  omega

theorem decimal_ne_nil (n : Nat) : decimal n ≠ [] := by
  unfold decimal
  split
  · simp
  · rename_i hn
    simpa using Nat.digits_ne_nil_iff_ne_zero.mpr hn

theorem digit_of_mem_decimal (h : c ∈ decimal n) : IsDigit c := by
  unfold decimal at h
  split at h
  · rw [List.mem_singleton.mp h]
    decide
  · obtain ⟨d, hd, rfl⟩ := List.mem_map.mp h
    have hlt : d < 10 := Nat.digits_lt_base (by omega) (List.mem_reverse.mp hd)
    unfold IsDigit
    rw [toNat_digit hlt]
    omega

theorem notMem_decimal {c : UInt8} (hc : ¬ IsDigit c) (n : Nat) : c ∉ decimal n :=
  fun h => hc (digit_of_mem_decimal h)

theorem newline_notMem_decimal (n : Nat) : newline ∉ decimal n :=
  notMem_decimal (by decide) n

theorem trimEol_decimal (s : Bytes) (n : Nat) :
    trimEol (s ++ decimal n ++ crlf) = s ++ decimal n := by
  apply trimEol_crlf
  intro c hc
  rw [List.getLast?_append_of_ne_nil _ (decimal_ne_nil n)] at hc
  have hd := digit_of_mem_decimal (List.mem_of_getLast? hc)
  constructor
  · rintro rfl
    exact absurd hd (by decide)
  · rintro rfl
    exact absurd hd (by decide)

theorem digitsValue_decimal (n : Nat) : digitsValue (decimal n) = some n := by
  have hall : ((decimal n).all fun c => decide (IsDigit c)) = true := by
    rw [List.all_eq_true]
    exact fun c hc => decide_eq_true (digit_of_mem_decimal hc)
  unfold digitsValue
  rw [if_pos ⟨decimal_ne_nil n, hall⟩]
  unfold decimal
  split
  · rename_i hn
    subst hn
    decide
  · have hb : ((Nat.digits 10 n).map fun d => (UInt8.ofNat (48 + d)).toNat - 48) =
        Nat.digits 10 n := by
      conv_rhs => rw [← List.map_id (Nat.digits 10 n)]
      apply List.map_congr_left
      intro d hd
      rw [toNat_digit (Nat.digits_lt_base (by omega) hd)]
      simp
    rw [← List.map_reverse, List.reverse_reverse, List.map_map]
    simp only [Function.comp_def, hb, Nat.ofDigits_digits]

theorem decimal_injective {m n : Nat} (h : decimal m = decimal n) : m = n := by
  have hv := digitsValue_decimal m
  rw [h, digitsValue_decimal n] at hv
  exact (Option.some.inj hv).symm

theorem decimal_of_lt {v : Nat} (h : v < 10) : decimal v = [UInt8.ofNat (48 + v)] := by
  unfold decimal
  split
  · rename_i hv
    subst hv
    rfl
  · rename_i hv
    rw [Nat.digits_of_lt 10 v hv h]
    rfl

theorem decimal_step {v : Nat} (h : v / 10 ≠ 0) :
    decimal v = decimal (v / 10) ++ [UInt8.ofNat (48 + v % 10)] := by
  have hv : v ≠ 0 := by
    rintro rfl
    exact h rfl
  unfold decimal
  rw [if_neg hv, if_neg h, Nat.digits_def' (by omega) (Nat.pos_of_ne_zero hv), List.reverse_cons,
    List.map_append, List.map_singleton]

theorem atoi_decimal (h : n < 2 ^ 63) : atoi (decimal n) = ((n : Int), true) := by
  have hh : ∀ c, ¬ IsDigit c → (decimal n).head? ≠ some c := by
    intro c hc hh
    exact hc (digit_of_mem_decimal (List.mem_of_mem_head? hh))
  have hm := hh 45 (by decide)
  have hp := hh 43 (by decide)
  have hf : Fits n := by
    constructor
    · omega
    · exact_mod_cast h
  simp only [atoi, hm, hp, or_self, if_false, digitsValue_decimal, hf, if_true]

/-- An integer as `%d` prints it. -/
def number (n : Int) : Bytes := if n < 0 then 45 :: decimal n.natAbs else decimal n.natAbs

theorem mem_number {c : UInt8} {n : Int} (h : c ∈ number n) : c = 45 ∨ IsDigit c := by
  unfold number at h
  split at h
  · rcases List.mem_cons.mp h with rfl | hc
    · exact .inl rfl
    · exact .inr (digit_of_mem_decimal hc)
  · exact .inr (digit_of_mem_decimal h)

theorem atoi_number {n : Int} (h : Fits n) : atoi (number n) = (n, true) := by
  unfold Fits at h
  unfold number
  split
  · rename_i hneg
    have hval : -(n.natAbs : Int) = n := by omega
    have hf : Fits n := h
    simp only [atoi, List.head?_cons, true_or, if_true, List.tail_cons, digitsValue_decimal, hval,
      hf]
  · rename_i hpos
    have hval : (n.natAbs : Int) = n := by omega
    rw [atoi_decimal (by omega), hval]

/-! ## Big-endian numbers -/

/-- A number in `width` bytes, the highest first. -/
def bigEndian : Nat → Nat → Bytes
  | 0, _ => []
  | width + 1, n => bigEndian width (n / 256) ++ [UInt8.ofNat n]

/-- `binary.BigEndian`, for any width. -/
def beValue (s : Bytes) : Nat := s.foldl (fun n c => n * 256 + c.toNat) 0

@[simp]
theorem length_bigEndian (width n : Nat) : (bigEndian width n).length = width := by
  induction width generalizing n with
  | zero => rfl
  | succ width ih => simp [bigEndian, ih]

theorem beValue_bigEndian {width : Nat} (h : n < 256 ^ width) :
    beValue (bigEndian width n) = n := by
  induction width generalizing n with
  | zero =>
    simp only [Nat.pow_zero, Nat.lt_one_iff] at h
    simp [bigEndian, beValue, h]
  | succ width ih =>
    have hh : n / 256 < 256 ^ width := by
      rw [Nat.div_lt_iff_lt_mul (by omega), ← Nat.pow_succ]
      exact h
    have hp := ih hh
    unfold beValue at hp ⊢
    rw [bigEndian, List.foldl_append, hp]
    simp only [List.foldl_cons, List.foldl_nil, UInt8.toNat_ofNat']
    omega

/-! ## Words -/

/-- The length of the blank that a text begins with, 0 where it begins with none: the blanks
of ASCII, and those of Unicode in their two or three bytes. -/
def blankLen : Bytes → Nat
  | [] => 0
  | [a] => if a = 32 ∨ (9 ≤ a ∧ a ≤ 13) then 1 else 0
  | [a, b] =>
    if a = 32 ∨ (9 ≤ a ∧ a ≤ 13) then 1
    else if a = 0xC2 ∧ (b = 0x85 ∨ b = 0xA0) then 2
    else 0
  | a :: b :: c :: _ =>
    if a = 32 ∨ (9 ≤ a ∧ a ≤ 13) then 1
    else if a = 0xC2 ∧ (b = 0x85 ∨ b = 0xA0) then 2
    else if (a = 0xE1 ∧ b = 0x9A ∧ c = 0x80) ∨
        (a = 0xE2 ∧ b = 0x80 ∧ ((0x80 ≤ c ∧ c ≤ 0x8A) ∨ c = 0xA8 ∨ c = 0xA9 ∨ c = 0xAF)) ∨
        (a = 0xE2 ∧ b = 0x81 ∧ c = 0x9F) ∨ (a = 0xE3 ∧ b = 0x80 ∧ c = 0x80) then 3
    else 0

/-- The words so far: the bytes of one blank are left out, one word ends before it. -/
def fieldsFrom (skip : Nat) (word : Bytes) : Bytes → List Bytes
  | [] => if word = [] then [] else [word]
  | c :: s =>
    match skip with
    | skip + 1 => fieldsFrom skip word s
    | 0 =>
      match blankLen (c :: s) with
      | 0 => fieldsFrom 0 (word ++ [c]) s
      | len + 1 => (if word = [] then [] else [word]) ++ fieldsFrom len [] s

/-- `strings.Fields`. -/
def fields (s : Bytes) : List Bytes := fieldsFrom 0 [] s

/-- A text from its first byte on that is not of a blank. -/
def trimLeftFrom (skip : Nat) : Bytes → Bytes
  | [] => []
  | c :: s =>
    match skip with
    | skip + 1 => trimLeftFrom skip s
    | 0 =>
      match blankLen (c :: s) with
      | 0 => c :: s
      | len + 1 => trimLeftFrom len s

def trimRight : Bytes → Bytes
  | [] => []
  | c :: s => if trimLeftFrom 0 (c :: s) = [] then [] else c :: trimRight s

/-- `strings.TrimSpace`. -/
def trimSpace (s : Bytes) : Bytes := trimRight (trimLeftFrom 0 s)

theorem length_trimLeftFrom_le (skip : Nat) (s : Bytes) :
    (trimLeftFrom skip s).length ≤ s.length := by
  induction s generalizing skip with
  | nil => simp [trimLeftFrom]
  | cons c s ih =>
    unfold trimLeftFrom
    split
    · have := ih ‹Nat›
      simp only [List.length_cons]
      omega
    · split
      · simp
      · rename_i len _
        have := ih len
        simp only [List.length_cons]
        omega

theorem length_trimRight_le (s : Bytes) : (trimRight s).length ≤ s.length := by
  induction s with
  | nil => simp [trimRight]
  | cons c s ih =>
    unfold trimRight
    split
    · simp
    · simp only [List.length_cons]
      omega

theorem length_trimSpace_le (s : Bytes) : (trimSpace s).length ≤ s.length :=
  (length_trimRight_le _).trans (length_trimLeftFrom_le 0 s)

/-- A blank is read from the bytes of its own length. -/
theorem blankLen_append_left {s : Bytes} (h : blankLen s ≠ 0) (t : Bytes) :
    blankLen (s ++ t) = blankLen s ∧ blankLen s ≤ s.length := by
  match s with
  | [] => exact absurd rfl h
  | [a] =>
    simp only [blankLen] at h ⊢
    split at h
    · rename_i hb
      match t with
      | [] => simp [hb]
      | [b] => simp [hb]
      | b :: c :: t => simp [hb]
    · exact absurd rfl h
  | [a, b] =>
    simp only [blankLen] at h ⊢
    match t with
    | [] =>
      simp only [List.append_nil, true_and]
      split
      · simp
      · split <;> simp
    | c :: t =>
      simp only [List.cons_append, List.nil_append]
      split
      · simp
      · rename_i hone
        split
        · simp
        · rename_i htwo
          simp [hone, htwo] at h
  | a :: b :: c :: s =>
    refine ⟨rfl, ?_⟩
    simp only [blankLen]
    split
    · simp
    · split
      · simp
      · split <;> simp

theorem trimLeftFrom_drop (skip : Nat) (s : Bytes) :
    trimLeftFrom skip s = trimLeftFrom 0 (s.drop skip) := by
  induction s generalizing skip with
  | nil => simp [trimLeftFrom]
  | cons c s ih =>
    cases skip with
    | zero => rfl
    | succ skip => rw [trimLeftFrom, ih, List.drop_succ_cons]

theorem trimLeft_append {s t : Bytes} (hs : trimLeftFrom 0 s = []) (ht : trimLeftFrom 0 t = []) :
    trimLeftFrom 0 (s ++ t) = [] := by
  induction hn : s.length using Nat.strongRecOn generalizing s with
  | ind n ih =>
    cases s with
    | nil => exact ht
    | cons c s =>
      unfold trimLeftFrom at hs
      simp only at hs
      cases hlen : blankLen (c :: s) with
      | zero => simp [hlen] at hs
      | succ len =>
        simp only [hlen] at hs
        obtain ⟨heq, hle⟩ := blankLen_append_left (s := c :: s) (by omega) t
        rw [List.cons_append] at heq
        rw [List.cons_append, trimLeftFrom, heq, hlen]
        simp only
        rw [trimLeftFrom_drop] at hs ⊢
        rw [hlen, List.length_cons] at hle
        rw [List.drop_append_of_le_length (by omega)]
        refine ih (s.drop len).length ?_ hs rfl
        rw [List.length_drop, ← hn, List.length_cons]
        omega

theorem exists_trimRight (s : Bytes) : ∃ t, s = trimRight s ++ t ∧ trimLeftFrom 0 t = [] := by
  induction s with
  | nil => exact ⟨[], rfl, rfl⟩
  | cons c s ih =>
    unfold trimRight
    split
    · rename_i hb
      exact ⟨c :: s, rfl, hb⟩
    · obtain ⟨t, hs, ht⟩ := ih
      exact ⟨t, by rw [List.cons_append, ← hs], ht⟩

theorem trimRight_trimRight (s : Bytes) : trimRight (trimRight s) = trimRight s := by
  induction s with
  | nil => rfl
  | cons c s ih =>
    by_cases hb : trimLeftFrom 0 (c :: s) = []
    · rw [trimRight, if_pos hb, trimRight]
    · rw [trimRight, if_neg hb, trimRight, ih, if_neg]
      intro hnil
      obtain ⟨t, hs, ht⟩ := exists_trimRight s
      apply hb
      rw [hs, ← List.cons_append]
      exact trimLeft_append hnil ht

theorem blankLen_trimLeftFrom (skip : Nat) (s : Bytes) : blankLen (trimLeftFrom skip s) = 0 := by
  induction s generalizing skip with
  | nil => rfl
  | cons c s ih =>
    unfold trimLeftFrom
    split
    · exact ih _
    · split
      · assumption
      · exact ih _

theorem blankLen_trimRight {s : Bytes} (h : blankLen s = 0) : blankLen (trimRight s) = 0 := by
  by_contra hne
  obtain ⟨t, hs, -⟩ := exists_trimRight s
  rw [hs, (blankLen_append_left hne t).1] at h
  exact hne h

@[simp] theorem trimSpace_trimSpace (s : Bytes) : trimSpace (trimSpace s) = trimSpace s := by
  have hl : ∀ u, blankLen u = 0 → trimLeftFrom 0 u = u := by
    intro u hu
    cases u with
    | nil => rfl
    | cons c u => rw [trimLeftFrom, hu]
  unfold trimSpace
  rw [hl _ (blankLen_trimRight (blankLen_trimLeftFrom 0 s)), trimRight_trimRight]

/-- A text without a blank. -/
def IsWord (w : Bytes) : Prop := w ≠ [] ∧ ∀ s, s <:+ w → blankLen s = 0

/-- A blank of one byte. -/
def IsBlank (c : UInt8) : Prop := c = 32 ∨ (9 ≤ c ∧ c ≤ 13)

instance (c : UInt8) : Decidable (IsBlank c) := inferInstanceAs (Decidable (_ ∨ _))

theorem blankLen_blank (h : IsBlank c) (s : Bytes) : blankLen (c :: s) = 1 := by
  unfold IsBlank at h
  match s with
  | [] => simp [blankLen, h]
  | [_] => simp [blankLen, h]
  | _ :: _ :: _ => simp [blankLen, h]

/-- A byte that continues no character. -/
def IsLead (c : UInt8) : Prop := c < 0x80 ∨ 0xC0 ≤ c

theorem blankLen_append_lead {x : Bytes} (hx : x ≠ []) (hc : IsLead c) (y : Bytes) :
    blankLen (x ++ c :: y) = blankLen x := by
  by_cases hb : blankLen x = 0
  · have hne : ∀ d : UInt8, 0x80 ≤ d → d < 0xC0 → c ≠ d := by
      rintro d hlow hh rfl
      rcases hc with hc | hc
      · exact absurd hc (UInt8.not_lt.mpr hlow)
      · exact absurd hh (UInt8.not_lt.mpr hc)
    have hr : ¬ (0x80 ≤ c ∧ c ≤ 0x8A) := by
      rintro ⟨hlow, hh⟩
      exact hne c hlow (UInt8.lt_of_le_of_lt hh (by decide)) rfl
    rw [hb]
    match x, y with
    | [a], [] =>
      simp only [blankLen, ite_eq_right_iff, one_ne_zero, imp_false] at hb
      simp [blankLen, hb, hne]
    | [a], d :: y =>
      simp only [blankLen, ite_eq_right_iff, one_ne_zero, imp_false] at hb
      simp [blankLen, hb, hne]
    | [a, d], y =>
      simp only [blankLen] at hb
      split_ifs at hb with h1 h2
      simp [blankLen, h1, h2, hne, hr]
    | a :: d :: e :: x, y => exact hb
  · exact (blankLen_append_left hb _).1

theorem fieldsFrom_word (hw : ∀ s, s <:+ w → blankLen s = 0) (word : Bytes) {t : Bytes}
    (ht : ∀ c ∈ t.head?, c < 0x80) : fieldsFrom 0 word (w ++ t) = fieldsFrom 0 (word ++ w) t := by
  induction w generalizing word with
  | nil => simp
  | cons a w ih =>
    have hb : blankLen (a :: (w ++ t)) = 0 := by
      cases t with
      | nil => simpa using hw _ List.suffix_rfl
      | cons c t =>
        exact (blankLen_append_lead (List.cons_ne_nil a w) (.inl (ht c rfl)) t).trans
          (hw _ List.suffix_rfl)
    rw [List.cons_append, fieldsFrom, hb]
    dsimp only
    rw [ih (fun s hs => hw s (hs.trans (List.suffix_cons a w))), List.append_assoc,
      List.singleton_append]

theorem fieldsFrom_blank (hc : IsBlank c) (word s : Bytes) :
    fieldsFrom 0 word (c :: s) = (if word = [] then [] else [word]) ++ fieldsFrom 0 [] s := by
  rw [fieldsFrom, blankLen_blank hc]

theorem fields_blanks {b : Bytes} (hb : ∀ c ∈ b, IsBlank c) (s : Bytes) :
    fields (b ++ s) = fields s := by
  unfold fields
  induction b with
  | nil => rfl
  | cons c b ih =>
    rw [List.cons_append, fieldsFrom_blank (hb c List.mem_cons_self), if_pos rfl, List.nil_append]
    exact ih fun c hc => hb c (List.mem_cons_of_mem _ hc)

theorem IsBlank.ascii (hc : IsBlank c) : c < 0x80 := by
  rcases hc with rfl | ⟨-, hle⟩
  · decide
  · exact UInt8.lt_of_le_of_lt hle (by decide)

def spell (more : List (Bytes × Bytes)) : Bytes := more.flatMap fun p => p.1 ++ p.2

theorem fieldsFrom_append_blank (hc : IsBlank c) (y : Bytes) {x : Bytes} {skip : Nat}
    (hs : skip ≤ x.length) (word : Bytes) :
    fieldsFrom skip word (x ++ c :: y) = fieldsFrom skip word x ++ fieldsFrom 0 [] y := by
  induction x generalizing skip word with
  | nil =>
    obtain rfl := Nat.le_zero.mp hs
    rw [List.nil_append, fieldsFrom_blank hc, fieldsFrom]
  | cons a x ih =>
    rw [List.cons_append]
    cases skip with
    | succ skip =>
      rw [fieldsFrom, fieldsFrom]
      exact ih (by simpa using hs) word
    | zero =>
      have hb := blankLen_append_lead (List.cons_ne_nil a x) (.inl hc.ascii) y
      rw [List.cons_append] at hb
      rw [fieldsFrom, fieldsFrom, hb]
      cases hlen : blankLen (a :: x) with
      | zero => exact ih (Nat.zero_le _) _
      | succ len =>
        have hle := (blankLen_append_left (s := a :: x) (by omega) []).2
        rw [hlen, List.length_cons] at hle
        dsimp only
        rw [ih (by omega), List.append_assoc]

/-- A blank of ASCII is in no other one, so the words are those of the two sides. -/
theorem fields_append_blank (hc : IsBlank c) (x y : Bytes) :
    fields (x ++ c :: y) = fields x ++ fields y :=
  fieldsFrom_append_blank hc y (Nat.zero_le _) []

theorem fields_append_gap {b : Bytes} (hb : ∀ c ∈ b, IsBlank c) (hne : b ≠ []) (x y : Bytes) :
    fields (x ++ (b ++ y)) = fields x ++ fields y := by
  cases b with
  | nil => exact absurd rfl hne
  | cons c b =>
    rw [List.cons_append, fields_append_blank (hb c List.mem_cons_self),
      fields_blanks fun c hc => hb c (List.mem_cons_of_mem _ hc)]

theorem fields_of_isWord (hw : IsWord w) : fields w = [w] := by
  have hl := @fieldsFrom_word w hw.2 [] [] (by simp)
  rw [List.append_nil, List.nil_append] at hl
  rw [fields, hl, fieldsFrom, if_neg hw.1]

/-- The words of a line are the words of its parts. -/
theorem fields_spell {more : List (Bytes × Bytes)}
    (hm : ∀ p ∈ more, p.1 ≠ [] ∧ ∀ c ∈ p.1, IsBlank c) {tail : Bytes}
    (ht : ∀ c ∈ tail, IsBlank c) :
    fields (w ++ spell more ++ tail) = fields w ++ more.flatMap fun p => fields p.2 := by
  induction more generalizing w with
  | nil =>
    rw [spell, List.flatMap_nil, List.flatMap_nil, List.append_nil, List.append_nil]
    by_cases hne : tail = []
    · rw [hne, List.append_nil]
    · have hl := fields_append_gap ht hne w []
      have h0 : fields [] = [] := rfl
      rwa [List.append_nil, h0, List.append_nil] at hl
  | cons p more ih =>
    obtain ⟨hne, hbl⟩ := hm p List.mem_cons_self
    have hs : w ++ spell (p :: more) ++ tail = w ++ (p.1 ++ (p.2 ++ spell more ++ tail)) := by
      simp [spell]
    rw [hs, fields_append_gap hbl hne, ih fun q hq => hm q (List.mem_cons_of_mem _ hq),
      List.flatMap_cons]

/-- A visible byte of ASCII. -/
def IsGraphic (c : UInt8) : Prop := 33 ≤ c.toNat ∧ c.toNat ≤ 126

instance (c : UInt8) : Decidable (IsGraphic c) := inferInstanceAs (Decidable (_ ∧ _))

theorem blankLen_visible (h : IsGraphic c) (s : Bytes) : blankLen (c :: s) = 0 := by
  have hne : ∀ b : UInt8, ¬ IsGraphic b → c ≠ b := by
    rintro b hb rfl
    exact hb h
  have hlow : ¬ c ≤ 13 := by
    intro hle
    have hnat : c.toNat ≤ 13 := hle
    have hv := h.1
    omega
  have h32 := hne 32 (by decide)
  have hC2 := hne 0xC2 (by decide)
  have hE1 := hne 0xE1 (by decide)
  have hE2 := hne 0xE2 (by decide)
  have hE3 := hne 0xE3 (by decide)
  match s with
  | [] => simp [blankLen, h32, hlow]
  | [_] => simp [blankLen, h32, hlow, hC2]
  | _ :: _ :: _ => simp [blankLen, h32, hlow, hC2, hE1, hE2, hE3]

theorem isWord_of_visible (hne : w ≠ []) (h : ∀ c ∈ w, IsGraphic c) : IsWord w := by
  refine ⟨hne, fun s hs => ?_⟩
  cases s with
  | nil => simp [blankLen]
  | cons c s => exact blankLen_visible (h c (hs.subset List.mem_cons_self)) s

theorem IsWord.notMem_of_blank (hw : IsWord w) (hc : IsBlank c) : c ∉ w := by
  intro hmem
  obtain ⟨a, b, rfl⟩ := List.append_of_mem hmem
  have hz := hw.2 (c :: b) (List.suffix_append a _)
  rw [blankLen_blank hc] at hz
  omega

theorem graphic_of_digit (h : IsDigit c) : IsGraphic c := by
  unfold IsDigit at h
  unfold IsGraphic
  omega

theorem isWord_decimal (n : Nat) : IsWord (decimal n) := by
  apply isWord_of_visible (decimal_ne_nil n)
  intro c hc
  exact graphic_of_digit (digit_of_mem_decimal hc)

theorem trimSpace_word {w : Bytes} (h : IsWord w) : trimSpace w = w := by
  have hleft : ∀ c s, c :: s <:+ w → trimLeftFrom 0 (c :: s) = c :: s := by
    intro c s hs
    rw [trimLeftFrom, h.2 _ hs]
  have hright : ∀ s, s <:+ w → trimRight s = s := by
    intro s hs
    induction s with
    | nil => rfl
    | cons c s ih =>
      rw [trimRight, hleft c s hs, if_neg (List.cons_ne_nil c s),
        ih ((List.suffix_cons c s).trans hs)]
  obtain ⟨c, s, rfl⟩ := List.exists_cons_of_ne_nil h.1
  rw [trimSpace, hleft c s List.suffix_rfl, hright _ List.suffix_rfl]

end gotext
