-- Globs over SQL texts. The law: a pattern that matches a query as it is written matches it
-- behind Canonicalize as well. It holds for patterns without a star, for a star at the end
-- behind a word that goes on, for one star at the front before text that ends the same in a
-- string literal, and where nothing but the star is left. It fails for others: a star in the
-- middle does not match a slash, an operator is cut in two, or a blank beside it is lost.
import Faultbox.SqlLayout

open gopath gotext faultbox.proxy_rules

namespace faultbox.sqlmatch

variable {c d : UInt8} {p : Place} {s : Bytes}

/-- The pattern matches the text as it is written: a star stands for any text. -/
def StarMatches : Bytes → Bytes → Prop
  | [], q => q = []
  | c :: pattern, q =>
    if c = asterisk then ∃ x y, q = x ++ y ∧ StarMatches pattern y
    else ∃ y, q = c :: y ∧ StarMatches pattern y

/-- The last word of the text goes on with whatever follows. -/
def Solid (x : Bytes) : Prop :=
  ∃ a ∈ x.getLast?, (a ≠ semicolon ∧ a ≠ space) ∧
    ∃ ws word, ∀ y, fields (x ++ y) = ws ++ fieldsFrom 0 (word ++ [a]) y

/-- Behind these texts a star stands for whatever follows. An operator that goes on is cut off
from its word, unless it is `!` behind a blank. -/
def OpenEnd (text : Bytes) : Prop :=
  asterisk ∉ text ∧
    (∀ c ∈ text.getLast?, c ∈ bytes "!<>" → after .text text = .literal ∨ c = 33 ∧
      Outside text.dropLast ∧ ∀ d ∈ (scan .text text.dropLast).getLast?, IsBlank d) ∧
    Solid (scan .text text)

/-- Behind whatever a star stands for, in a string literal as well, these texts end in their one
form. -/
def OpenStart (text : Bytes) : Prop :=
  asterisk ∉ text ∧ canonicalize text ≠ [] ∧ (∀ c ∈ text.head?, isDigit c = false) ∧
    ∀ p ∈ [Place.text, .literal], blankLen (scan p text) = 0 ∧
      (∀ c ∈ (scan p text).head?, IsLead c) ∧ canonicalize text <:+ tidy (fields (scan p text))

/-- Patterns that lose no match. -/
inductive Safe : Bytes → Prop
  | literal {pattern : Bytes} (h : asterisk ∉ pattern) : Safe pattern
  | whole {pattern : Bytes} (h : canonicalize pattern = [asterisk]) : Safe pattern
  | ends {text behind : Bytes} (h : OpenEnd text)
      (hb : canonicalize (text ++ asterisk :: behind) =
        canonicalize (text ++ [asterisk])) : Safe (text ++ asterisk :: behind)
  | starts {front text : Bytes} (h : OpenStart text) (hs : asterisk ∉ front)
      (hf : canonicalize (front ++ asterisk :: text) =
        canonicalize (asterisk :: text)) : Safe (front ++ asterisk :: text)

theorem starMatches_append {text q : Bytes} (h : asterisk ∉ text) :
    StarMatches (text ++ s) q ↔ ∃ y, q = text ++ y ∧ StarMatches s y := by
  induction text generalizing q with
  | nil => simp
  | cons c text ih =>
    rw [List.mem_cons, not_or] at h
    simp only [List.cons_append, StarMatches, if_neg (Ne.symm h.1), ih h.2]
    constructor
    · rintro ⟨_, rfl, y, rfl, hy⟩
      exact ⟨y, rfl, hy⟩
    · rintro ⟨y, rfl, hy⟩
      exact ⟨_, rfl, y, rfl, hy⟩

theorem starMatches_one {front behind : Bytes} (hf : asterisk ∉ front)
    (hb : asterisk ∉ behind) (x : Bytes) :
    StarMatches (front ++ asterisk :: behind) (front ++ (x ++ behind)) := by
  refine (starMatches_append hf).mpr ⟨_, rfl, ?_⟩
  rw [StarMatches, if_pos rfl]
  refine ⟨x, behind, rfl, ?_⟩
  have hend := (starMatches_append (s := []) hb).mpr ⟨[], rfl, rfl⟩
  rwa [List.append_nil] at hend

theorem star_notMem_scan (h : asterisk ∉ s) : asterisk ∉ scan p s := by
  induction s generalizing p with
  | nil => simp [scan]
  | cons c rest ih =>
    rw [List.mem_cons, not_or] at h
    rw [scan_cons, List.mem_append, not_or]
    exact ⟨fun hmem => h.1 (eq_of_mem_turn (.inr rfl) hmem).2.symm, ih h.2⟩

theorem star_notMem_canonicalize (h : asterisk ∉ s) :
    asterisk ∉ canonicalize s := by
  intro hmem
  rw [canonicalize_eq] at hmem
  have hj := (List.rdropWhile_prefix _ _).subset hmem
  obtain ⟨w, hw, hs⟩ : ∃ w ∈ fields (scan .text s), asterisk ∈ w := by
    cases hwo : fields (scan .text s) with
    | nil => simp [hwo] at hj
    | cons w ws =>
      have hsp : asterisk ≠ space := by decide
      rw [hwo, intercalate_cons] at hj
      simpa [hsp] using hj
  exact star_notMem_scan h ((mem_of_mem_fields hw hs).resolve_left List.not_mem_nil)

theorem fields_visible (hc : IsGraphic c) (x : Bytes) : ∃ ws word, ∀ y,
    fields (x ++ c :: y) = ws ++ fieldsFrom 0 (word ++ [c]) y := by
  obtain ⟨ws, word, h⟩ := fields_append x
  refine ⟨ws, word, fun y => ?_⟩
  have hl : IsLead c := .inl (by
    have := hc.2
    exact UInt8.lt_iff_toNat_lt.mpr (by simp; omega))
  rw [h _ (by simpa using hl), fieldsFrom, blankLen_visible hc]

theorem join_split (ws : List Bytes) (w r : Bytes) (rest : List Bytes) :
    List.intercalate [space] (ws ++ (w ++ r) :: rest) =
      List.intercalate [space] (ws ++ [w]) ++ (r ++ rest.flatMap (space :: ·)) := by
  cases ws with
  | nil => simp [intercalate_cons]
  | cons first ws => simp [intercalate_cons]

theorem rdropWhile_append_neg {junk : UInt8 → Bool} (hc : ¬ junk c) (x y : Bytes) :
    (x ++ c :: y).rdropWhile junk = x ++ c :: y.rdropWhile junk := by
  simp only [List.rdropWhile, List.reverse_append, List.reverse_cons, List.append_assoc]
  rw [List.dropWhile_append]
  split
  · rename_i hnil
    simp [List.isEmpty_iff.mp hnil, hc]
  · simp

theorem solid_of_visible (hc : IsGraphic c) (hne : c ≠ semicolon) (x : Bytes) :
    Solid (x ++ [c]) := by
  have hs : c ≠ space := by
    rintro rfl
    exact absurd hc (by decide)
  obtain ⟨ws, word, h⟩ := fields_visible hc x
  refine ⟨c, by simp, ⟨hne, hs⟩, ws, word, fun y => ?_⟩
  rw [List.append_assoc]
  exact h y

theorem tidy_split (hne : c ≠ semicolon) (hs : c ≠ space) (r : Bytes) (more : List Bytes) :
    ∃ t, ∀ ws word, tidy (ws ++ (word ++ [c] ++ r) :: more) =
      List.intercalate [space] (ws ++ [word]) ++ c :: t := by
  refine ⟨(r ++ more.flatMap (space :: ·)).rdropWhile fun c => c = semicolon ∨ c = space,
    fun ws word => ?_⟩
  rw [tidy, List.append_assoc, join_split, List.singleton_append, List.cons_append]
  exact rdropWhile_append_neg (by simp [hne, hs]) _ _

theorem comparison_bytes : ∀ w ∈ comparisons, (∀ c ∈ w.head?, c ∈ bytes "!<>") ∧
    ∀ d ∈ w.getLast?, d ∈ bytes "=>" := by
  decide +kernel

/-- What a byte gives at the end of a text it gives before others as well. -/
theorem turn_starts {next : Bytes} (h : c :: next ∈ comparisons → (turn p c []).2 = .literal) :
    ∃ t, (turn p c next).1 = (turn p c []).1 ++ t := by
  have hone : [c] ∉ comparisons := fun hmem => absurd (comparisons_length _ hmem) (by simp)
  by_cases hc : c :: next ∈ comparisons
  · have hl := h hc
    have hne : c ≠ apostrophe := by
      rintro rfl
      exact absurd ((comparison_bytes _ hc).1 _ rfl) (by decide)
    obtain rfl : p = .literal := by
      unfold turn at hl
      simp only [hone, hne, if_false, List.any_nil, Bool.false_eq_true, and_false] at hl
      split_ifs at hl
      assumption
    exact ⟨[], by simp [turn, hne]⟩
  · unfold turn
    simp only [hc, hone, if_false, List.any_nil, Bool.false_eq_true, and_false]
    split_ifs
    all_goals first | exact ⟨[], (List.append_nil _).symm⟩ | skip
    rename_i hd
    rw [hd.1]
    exact ⟨bytes "?", rfl⟩

theorem scan_starts {text y : Bytes}
    (h : ∀ c ∈ text.getLast?, c :: y.take 1 ∈ comparisons → after p text = .literal) :
    ∃ t, scan p (text ++ y) = scan p text ++ t := by
  induction text generalizing p with
  | nil => exact ⟨_, rfl⟩
  | cons c rest ih =>
    cases rest with
    | nil =>
      obtain ⟨t, ht⟩ := turn_starts (h c rfl)
      rw [List.singleton_append, scan_cons, scan_cons, ht]
      exact ⟨t ++ scan (turn p c (y.take 1)).2 y, by simp [scan]⟩
    | cons d rest =>
      obtain ⟨t, ht⟩ := ih fun c hc => h c (by simpa using hc)
      refine ⟨t, ?_⟩
      rw [List.cons_append, scan_cons, scan_cons, List.append_assoc, ← ht]
      rfl

theorem fields_space {x : Bytes} (h : ∀ d ∈ x.getLast?, IsBlank d) (y : Bytes) :
    fields (x ++ space :: y) = fields (x ++ y) := by
  have hsp : IsBlank space := .inl rfl
  rcases List.eq_nil_or_concat' x with rfl | ⟨x, d, rfl⟩
  · exact fields_append_blank hsp [] y
  · have hd : IsBlank d := h d (by simp)
    rw [List.append_assoc, List.append_assoc, List.singleton_append, List.singleton_append,
      fields_append_blank hd, fields_append_blank hd]
    exact congrArg _ (fields_append_blank hsp [] y)

/-- Whatever follows is added to the words of the text. -/
theorem OpenEnd.fields_eq {text : Bytes} (h : OpenEnd text) (y : Bytes) :
    ∃ t, fields (scan .text (text ++ y)) = fields (scan .text text ++ t) := by
  by_cases hc : ∀ c ∈ text.getLast?, c :: y.take 1 ∈ comparisons → after .text text = .literal
  · obtain ⟨t, ht⟩ := scan_starts hc
    exact ⟨t, by rw [ht]⟩
  · push Not at hc
    obtain ⟨c, hlast, hmem, hout⟩ := hc
    obtain ⟨rfl, hu, hblank⟩ :=
      (h.2.1 c hlast ((comparison_bytes _ hmem).1 c rfl)).resolve_left hout
    obtain ⟨u, rfl⟩ := List.getLast?_eq_some_iff.mp hlast
    rw [List.dropLast_concat] at hu hblank
    -- only `=` goes on behind `!`, and the blank that the scan puts before is there already
    obtain ⟨z, rfl⟩ : ∃ z, y = 61 :: z := by
      cases y with
      | nil => exact absurd hmem (by decide)
      | cons d z =>
        have hd : ∀ d : UInt8, [33, d] ∈ comparisons → d = 61 := by decide +kernel
        exact ⟨z, by rw [hd d (by simpa using hmem)]⟩
    have ha : ∀ post, Apart u (33 :: post) := by
      rintro post c - d hd (hj | ⟨-, hdi⟩)
      · exact absurd ((comparison_bytes _ hj).2 d rfl) (by cases hd; decide)
      · cases hd
        cases hdi
    have hs : scan .text (u ++ (bytes "!=" ++ z)) = _ :=
      scan_whole hu ⟨ha [61], .inl (by decide)⟩
    have hb : scan .text (u ++ [33]) = scan .text u ++ [33] :=
      scan_outside hu (ha []) fun d hd => by cases hd; rfl
    refine ⟨61 :: space :: scan .text z, ?_⟩
    rw [hb, List.append_assoc, List.append_assoc]
    exact (congrArg fields hs).trans (fields_space hblank _)

theorem keeps_ends {text : Bytes} (h : OpenEnd text) (lib : GoLib) (rest : Bytes) :
    sqlMatch lib (text ++ rest) (text ++ [asterisk]) = true := by
  have hst : scan .text (text ++ [asterisk]) = scan .text text ++ [asterisk] := by
    have ha : Apart text [asterisk] := apart_of_head fun d hd => by
      obtain rfl : asterisk = d := by simpa using hd
      decide
    rw [scan_append ha, scan_cons, turn_copied (by decide)
      (after_ne_comparison (.inl (by decide))) (fun _ => by decide)]
    simp [scan]
  -- the pattern keeps its star at the end, and the query goes on from what is before it
  obtain ⟨front, more, hp, hq⟩ : ∃ front more,
      canonicalize (text ++ [asterisk]) = front ++ [asterisk] ∧
      canonicalize (text ++ rest) = front ++ more := by
    rw [canonicalize_eq, canonicalize_eq, hst]
    obtain ⟨after, ha⟩ := h.fields_eq rest
    obtain ⟨a, -, ⟨hse, hsp⟩, ws, word, hf⟩ := h.2.2
    obtain ⟨r, more, hm⟩ := exists_fieldsFrom after
    obtain ⟨t, ht⟩ := tidy_split hse hsp r more
    refine ⟨List.intercalate [space] (ws ++ [word]) ++ [a], t, ?_, ?_⟩
    · have hone : fieldsFrom 0 (word ++ [a]) [asterisk] =
          [word ++ [a] ++ [asterisk]] := by
        simp [fieldsFrom, blankLen, asterisk]
      rw [hf, hone, tidy, List.append_assoc, join_split]
      simp only [List.flatMap_nil, List.append_nil, ← List.append_assoc]
      rw [List.rdropWhile_concat_neg _ _ _ (by decide)]
    · rw [ha, hf, hm _ (by simp), ht]
      simp
  unfold sqlMatch
  rw [if_neg (by simp), hp, hq, matchGlob]
  simp

theorem apart_of_scan {text : Bytes} (hd : ∀ c ∈ text.head?, isDigit c = false)
    (h : blankLen (scan .text text) = 0) (x : Bytes) : Apart x text := by
  have hop : ∀ c ∈ bytes "=>", c ≠ apostrophe ∧ c ∈ bytes "=<>,()" := by decide +kernel
  rintro b - c hc (hj | ⟨-, hdi⟩)
  · obtain ⟨s, rfl⟩ := List.head?_eq_some_iff.mp hc
    obtain ⟨hne, hin⟩ := hop c ((comparison_bytes _ hj).2 c (by simp))
    have hturn : ∃ t, (turn .text c (s.take 1)).1 = space :: t := by
      unfold turn
      simp only [reduceCtorEq, false_and, if_false, hne, hin, if_true]
      split <;> exact ⟨_, rfl⟩
    obtain ⟨t, ht⟩ := hturn
    rw [scan_cons, ht, List.cons_append, space, blankLen_blank (.inl rfl)] at h
    cases h
  · rw [hd c hc] at hdi
    cases hdi

theorem tidy_append {z : Bytes} {more : List Bytes} (hne : tidy (z :: more) ≠ [])
    (ws : List Bytes) (word : Bytes) :
    tidy (ws ++ (word ++ z) :: more) =
      List.intercalate [space] (ws ++ [word]) ++ tidy (z :: more) := by
  have hz := intercalate_cons space z more
  unfold tidy at hne ⊢
  rw [join_split, ← hz]
  simp only [List.rdropWhile, List.reverse_append] at hne ⊢
  rw [List.dropWhile_append, if_neg (by simpa using hne), List.reverse_append, List.reverse_reverse]

theorem fieldsFrom_visible {y : Bytes} (h : blankLen y = 0) (hne : y ≠ []) :
    ∃ z more, ∀ word, fieldsFrom 0 word y = (word ++ z) :: more := by
  obtain ⟨c, s, rfl⟩ := List.exists_cons_of_ne_nil hne
  obtain ⟨r, more, hm⟩ := exists_fieldsFrom s
  refine ⟨c :: r, more, fun word => ?_⟩
  rw [fieldsFrom, h]
  simpa using hm (word ++ [c]) (by simp)

/-- A text that begins with a word stays as it is behind others. -/
theorem tidy_behind {y : Bytes} (h : blankLen y = 0) (hl : ∀ c ∈ y.head?, IsLead c)
    (hne : tidy (fields y) ≠ []) (x : Bytes) :
    ∃ ws word, tidy (fields (x ++ y)) =
      List.intercalate [space] (ws ++ [word]) ++ tidy (fields y) := by
  obtain ⟨ws, word, hf⟩ := fields_append x
  obtain ⟨z, more, hw⟩ := fieldsFrom_visible h (by rintro rfl; exact hne rfl)
  have hy : fields y = z :: more := hw []
  rw [hy] at hne ⊢
  exact ⟨ws, word, by rw [hf y hl, hw, tidy_append hne]⟩

theorem OpenStart.suffix {text : Bytes} (h : OpenStart text) (x : Bytes) :
    canonicalize text <:+ canonicalize (x ++ text) := by
  obtain ⟨-, hne, hd, hp⟩ := h
  obtain ⟨p, hmem, hs⟩ : ∃ p ∈ [Place.text, .literal],
      scan .text (x ++ text) = scan .text x ++ scan p text := by
    rw [scan_append (apart_of_scan hd (hp .text (by simp)).1 x)]
    cases ha : after .text x with
    | text => exact ⟨.text, by simp, rfl⟩
    | literal => exact ⟨.literal, by simp, rfl⟩
    | comparison => exact absurd ha (after_ne_comparison (.inl (by decide)))
    | number => exact ⟨.text, by simp, by rw [scan_number hd]⟩
  obtain ⟨hb, hl, hsuf⟩ := hp p hmem
  have htidy : tidy (fields (scan p text)) ≠ [] := fun hnil =>
    hne (List.suffix_nil.mp (hnil ▸ hsuf))
  obtain ⟨ws, word, hx⟩ := tidy_behind hb hl htidy (scan .text x)
  rw [canonicalize_eq (x ++ text), hs, hx]
  exact hsuf.trans (List.suffix_append _ _)

theorem keeps_starts {text : Bytes} (h : OpenStart text) (lib : GoLib) (rest : Bytes) :
    sqlMatch lib (rest ++ text) (asterisk :: text) = true := by
  have hpa : canonicalize (asterisk :: text) = asterisk :: canonicalize text := by
    obtain ⟨-, hne, hd, hp⟩ := h
    obtain ⟨hb, -, -⟩ := hp .text (by simp)
    rw [canonicalize_eq] at hne
    obtain ⟨z, more, hw⟩ := fieldsFrom_visible hb (by rintro hnil; exact hne (by rw [hnil]; rfl))
    have hn : scan .text [asterisk] = [asterisk] := by decide
    rw [fields, hw] at hne
    rw [canonicalize_eq, canonicalize_eq, ← List.singleton_append,
      scan_append (apart_of_scan hd hb _), hn, List.singleton_append, fields, fields, fieldsFrom,
      blankLen_visible (c := asterisk) (by decide)]
    exact (congrArg tidy (hw _)).trans ((tidy_append hne [] _).trans (by rw [hw]; rfl))
  have hl : (asterisk :: canonicalize text).getLast? ≠ some asterisk := by
    obtain ⟨d, s, hd⟩ := List.exists_cons_of_ne_nil h.2.1
    rw [hd, List.getLast?_cons_cons, ← hd]
    exact fun hmem => star_notMem_canonicalize h.1 (List.mem_of_getLast? hmem)
  obtain ⟨front, hfr⟩ := h.suffix rest
  unfold sqlMatch
  rw [if_neg (by simp), hpa, ← hfr, matchGlob, if_neg (by simp), if_pos (by simp),
    if_neg hl]
  simp

theorem sqlMatch_congr {p q : Bytes} (hp : p ≠ []) (hq : q ≠ [])
    (h : canonicalize p = canonicalize q) (lib : GoLib) (query : Bytes) :
    sqlMatch lib query p = sqlMatch lib query q := by
  rw [sqlMatch, sqlMatch, if_neg hp, if_neg hq, h]

theorem keeps_matches {pattern : Bytes} (h : Safe pattern) (lib : GoLib) (query : Bytes)
    (hmatch : StarMatches pattern query) : sqlMatch lib query pattern = true := by
  cases h with
  | literal h =>
    have hs := (starMatches_append (s := []) h).mp (by simpa using hmatch)
    obtain ⟨_, rfl, rfl⟩ := hs
    rw [List.append_nil]
    unfold sqlMatch
    split
    · rfl
    · have hst := star_notMem_canonicalize h
      unfold matchGlob
      simp [hst, exactLib]
  | whole h =>
    unfold sqlMatch
    rw [h, matchGlob]
    simp
  | ends h hb =>
    obtain ⟨rest, rfl, -⟩ := (starMatches_append h.1).mp hmatch
    rw [sqlMatch_congr (by simp) (by simp) hb]
    exact keeps_ends h lib rest
  | @starts front text h hs hf =>
    obtain ⟨y, rfl, hy⟩ := (starMatches_append hs).mp hmatch
    rw [StarMatches, if_pos rfl] at hy
    obtain ⟨rest, y, rfl, hy⟩ := hy
    obtain ⟨_, rfl, rfl⟩ := (starMatches_append (s := []) h.1).mp (by simpa using hy)
    rw [sqlMatch_congr (by simp) (by simp) hf, List.append_nil, ← List.append_assoc]
    exact keeps_starts h lib (front ++ rest)

/-- A star behind a word; the semicolon behind it does not count. -/
theorem insert_is_kept :
    Safe (bytes "INSERT INTO users" ++ asterisk :: bytes ";") ∧
      sqlMatch literalLib (bytes "INSERT INTO users" ++ (bytes "(a)" ++ bytes ";"))
        (bytes "INSERT INTO users" ++ asterisk :: bytes ";") = true := by
  have hscan : scan .text (bytes "INSERT INTO users") = bytes "insert into user" ++ [115] := by
    decide
  have hs : Safe (bytes "INSERT INTO users" ++ asterisk :: bytes ";") := by
    refine .ends ⟨by decide +kernel, ?_, ?_⟩ (by decide +kernel)
    · exact fun c hc hin => absurd hin (by cases hc; decide)
    · rw [hscan]
      exact solid_of_visible (by decide) (by decide) _
  exact ⟨hs, keeps_matches hs literalLib _
    (starMatches_one (by decide) (by decide) (bytes "(a)"))⟩

/-- A slash under a star in the middle, an operator that the star cuts, a blank before a star
that stands for nothing: the pattern matches as it is written, and is lost. Like `literalLib`,
filepath.Match accepts none of the three in their one form. -/
theorem slash_under_star_is_lost :
    (StarMatches (bytes "SELECT " ++ asterisk :: bytes " FROM users")
        (bytes "SELECT " ++ (bytes "a/b" ++ bytes " FROM users")) ∧
      sqlMatch literalLib (bytes "SELECT a/b FROM users") (bytes "SELECT * FROM users") = false) ∧
    (StarMatches (bytes "a<" ++ [asterisk]) (bytes "a<" ++ (bytes "=b" ++ [])) ∧
      sqlMatch literalLib (bytes "a<=b") (bytes "a<*") = false) ∧
    StarMatches (bytes "SELECT " ++ [asterisk]) (bytes "SELECT " ++ ([] ++ [])) ∧
      sqlMatch literalLib (bytes "SELECT ") (bytes "SELECT *") = false :=
  ⟨⟨starMatches_one (by decide) (by decide) _, by decide⟩,
    ⟨starMatches_one (by decide) (by decide) _, by decide⟩,
    starMatches_one (by decide) (by decide) _, by decide⟩

end faultbox.sqlmatch
