-- The route globs of an HTTP mock (matchGlob), read by segments: a literal is itself, a star is one
-- segment, two stars are any number of them. The law: a pattern matches a path just when the path's
-- segments can be divided so. The root path is split into one empty segment, which a star takes
-- for a segment, and a pattern without stars is compared with its leading slash.
import Faultbox.OpenApiRoutes

open gopath gotext faultbox.openapi_routes

namespace faultbox.route_globs

/-! ## Patterns and paths by segments -/

inductive Segment where
  | literal (text : Bytes)
  | star
  | doubleStar
deriving DecidableEq

def Segment.text : Segment → Bytes
  | .literal text => text
  | .star => [asterisk]
  | .doubleStar => [asterisk, asterisk]

/-- What stands between two slashes. -/
def IsName (s : Bytes) : Prop := s ≠ [] ∧ slash ∉ s

def Segment.Plain : Segment → Prop
  | .literal text => IsName text ∧ ∀ c ∈ text, c ∉ bytes "*?[\\"
  | .star => True
  | .doubleStar => True

def Segment.IsWild (s : Segment) : Prop := s = .star ∨ s = .doubleStar

structure Pattern where
  rooted : Bool
  segments : List Segment
  plain : ∀ s ∈ segments, s.Plain

/-- An absolute path; the root has no segments. -/
structure Path where
  segments : List Bytes
  names : ∀ s ∈ segments, IsName s

def Pattern.text (p : Pattern) : Bytes :=
  (if p.rooted then [slash] else []) ++ List.intercalate [slash] (p.segments.map Segment.text)

def Path.text (path : Path) : Bytes := slash :: List.intercalate [slash] path.segments

/-- The segments can be divided among those of the pattern. -/
inductive Fits : List Segment → List Bytes → Prop
  | nil : Fits [] []
  | literal {text : Bytes} {ps : List Segment} {ts : List Bytes} :
    Fits ps ts → Fits (.literal text :: ps) (text :: ts)
  | star {t : Bytes} {ps : List Segment} {ts : List Bytes} :
    Fits ps ts → Fits (.star :: ps) (t :: ts)
  | doubleStar {ps : List Segment} {ts : List Bytes} (skipped : List Bytes) :
    Fits ps ts → Fits (.doubleStar :: ps) (skipped ++ ts)

/-! ## Segment by segment -/

section segments

variable {ps : List Segment} {ts : List Bytes} {t text : Bytes}

theorem fits_nil_iff : Fits [] ts ↔ ts = [] := by
  refine ⟨fun h => ?_, fun h => h ▸ .nil⟩
  cases h
  rfl

theorem fits_literal_cons : Fits (.literal text :: ps) (t :: ts) ↔ text = t ∧ Fits ps ts := by
  constructor
  · intro h
    cases h with
    | literal h => exact ⟨rfl, h⟩
  · rintro ⟨rfl, h⟩
    exact .literal h

theorem fits_star_cons : Fits (.star :: ps) (t :: ts) ↔ Fits ps ts := by
  refine ⟨fun h => ?_, .star⟩
  cases h with
  | star h => exact h

theorem fits_doubleStar_iff :
    Fits (.doubleStar :: ps) ts ↔ ∃ i ≤ ts.length, Fits ps (ts.drop i) := by
  constructor
  · intro h
    cases h with
    | doubleStar skipped h =>
      refine ⟨skipped.length, by simp, ?_⟩
      rw [List.drop_left]
      exact h
  · rintro ⟨i, -, h⟩
    rw [← List.take_append_drop i ts]
    exact .doubleStar _ h

theorem matchSegments_iff (lib : PathLib) (hp : ∀ s ∈ ps, s.Plain) :
    matchSegments lib (ps.map Segment.text) ts = true ↔ Fits ps ts := by
  induction ps generalizing ts with
  | nil =>
    rw [fits_nil_iff]
    simp [matchSegments]
  | cons s ps ih =>
    have hr (ts : List Bytes) := @ih ts fun s hs => hp s (List.mem_cons_of_mem _ hs)
    rw [List.map_cons]
    cases s with
    | doubleStar =>
      rw [Segment.text, matchSegments.eq_def]
      dsimp only
      rw [if_pos rfl, fits_doubleStar_iff, List.any_eq_true]
      simp only [List.mem_range, Nat.lt_succ_iff, hr]
    | star =>
      rw [Segment.text, matchSegments.eq_def]
      dsimp only
      rw [if_neg (by decide)]
      cases ts with
      | nil => exact ⟨fun h => absurd h (by simp), fun h => (by cases h)⟩
      | cons t ts =>
        rw [fits_star_cons, ← hr]
        simp
    | literal text =>
      obtain ⟨-, hg⟩ : (Segment.literal text).Plain := hp _ List.mem_cons_self
      have ha : asterisk ∉ text := fun h => hg _ h (by decide)
      have h2 : text ≠ [asterisk, asterisk] := by
        rintro rfl
        exact ha (by simp)
      have h1 : text ≠ [asterisk] := by
        rintro rfl
        exact ha (by simp)
      rw [Segment.text, matchSegments.eq_def]
      dsimp only
      rw [if_neg h2]
      cases ts with
      | nil => exact ⟨fun h => absurd h (by simp), fun h => (by cases h)⟩
      | cons t ts =>
        dsimp only
        rw [fits_literal_cons, ← hr, lib.literal _ _ hg]
        by_cases ht : text = t
        · simp [ht]
        · simp [ht, h1]

/-- Only two-star segments fit no segments at all. -/
theorem fits_empty_iff : Fits ps [] ↔ ∀ s ∈ ps, s = .doubleStar := by
  induction ps with
  | nil => simp [fits_nil_iff]
  | cons s ps ih =>
    rw [List.forall_mem_cons]
    cases s with
    | doubleStar => simp [fits_doubleStar_iff, ih]
    | star | literal => exact ⟨fun h => (by cases h), fun h => absurd h.1 (by simp)⟩

/-- One star among two-star segments: it wants one segment. -/
def OneStar (ps : List Segment) : Prop := ps.count .star = 1 ∧ ∀ s ∈ ps, s.IsWild

theorem oneStar_star : OneStar (.star :: ps) ↔ ∀ s ∈ ps, s = .doubleStar := by
  unfold OneStar
  rw [List.count_cons_self, List.forall_mem_cons]
  constructor
  · rintro ⟨hc, -, hw⟩ s hs
    have hz : Segment.star ∉ ps := List.count_eq_zero.mp (by omega)
    exact (hw s hs).resolve_left fun he => hz (he ▸ hs)
  · intro h
    have hz : Segment.star ∉ ps := fun hs => absurd (h _ hs) (by decide)
    exact ⟨by rw [List.count_eq_zero.mpr hz], .inl rfl, fun s hs => .inr (h s hs)⟩

/-- What fits the one empty segment that the root path is split into. -/
theorem fits_blank_iff (hp : ∀ s ∈ ps, s.Plain) (hne : ps ≠ []) :
    Fits ps [[]] ↔ OneStar ps ∨ Fits ps [] := by
  induction ps with
  | nil => exact absurd rfl hne
  | cons s ps ih =>
    cases s with
    | literal text =>
      have hn : text ≠ [] := (hp (.literal text) List.mem_cons_self).1.1
      rw [fits_literal_cons]
      refine ⟨fun h => absurd h.1 hn, fun h => ?_⟩
      obtain h | h := h
      · have hw := h.2 _ List.mem_cons_self
        simp [Segment.IsWild] at hw
      · cases h
    | star =>
      rw [fits_star_cons, oneStar_star, fits_empty_iff]
      exact ⟨.inl, fun h => h.resolve_right fun h => (by cases h)⟩
    | doubleStar =>
      have ho : OneStar (.doubleStar :: ps) ↔ OneStar ps := by
        simp [OneStar, Segment.IsWild]
      have hd : Fits (.doubleStar :: ps) [[]] ↔ Fits ps [[]] ∨ Fits ps [] := by
        rw [fits_doubleStar_iff]
        constructor
        · rintro ⟨i, hi, h⟩
          obtain rfl | rfl : i = 0 ∨ i = 1 := by simp at hi; omega
          · exact .inl h
          · exact .inr h
        · rintro (h | h)
          · exact ⟨0, by simp, h⟩
          · exact ⟨1, by simp, h⟩
      have he : Fits (.doubleStar :: ps) [] ↔ Fits ps [] := by
        rw [fits_empty_iff, fits_empty_iff]
        simp
      rw [hd, ho, he]
      by_cases hnil : ps = []
      · subst hnil
        simp [fits_nil_iff, OneStar]
      · rw [ih (fun s hs => hp s (List.mem_cons_of_mem _ hs)) hnil, or_assoc, or_self]

end segments

/-! ## Texts -/

section texts

variable {pieces pieces' : List Bytes}

theorem trimPieces_names (h : ∀ s ∈ pieces, IsName s) : trimPieces pieces = pieces := by
  unfold trimPieces
  rw [List.dropWhile_eq_self_iff.mpr, List.rdropWhile_eq_self_iff.mpr]
  · intro hne hl
    exact (h _ (List.getLast_mem hne)).1 (of_decide_eq_true hl)
  · intro hlen hl
    exact (h _ (List.getElem_mem hlen)).1 (of_decide_eq_true hl)

theorem splitOn_names (h : ∀ s ∈ pieces, IsName s) :
    (List.intercalate [slash] pieces).splitOn slash = if pieces = [] then [[]] else pieces := by
  split
  · rename_i hnil
    subst hnil
    rfl
  · rename_i hne
    exact List.splitOn_intercalate slash (fun s hs => (h s hs).2) hne

theorem trimByte_names (h : ∀ s ∈ pieces, IsName s) (rooted : Bool) :
    trimByte slash ((if rooted then [slash] else []) ++ List.intercalate [slash] pieces) =
      List.intercalate [slash] pieces := by
  have ht := trimByte_intercalate fun s hs => (h s hs).2
  rw [trimPieces_names h] at ht
  rw [← ht]
  cases rooted with
  | false => exact congrArg _ ht
  | true =>
    rw [ht]
    simpa [trimByte] using ht

theorem intercalate_inj (h : ∀ s ∈ pieces, IsName s) (h' : ∀ s ∈ pieces', IsName s)
    (he : List.intercalate [slash] pieces = List.intercalate [slash] pieces') :
    pieces = pieces' := by
  have hs := splitOn_names h
  rw [he, splitOn_names h'] at hs
  split at hs <;> split at hs
  · simp_all
  · subst hs
    exact absurd rfl (h [] List.mem_cons_self).1
  · subst hs
    exact absurd rfl (h' [] List.mem_cons_self).1
  · exact hs.symm

end texts

/-! ## The law -/

section law

variable (lib : PathLib) (p : Pattern) (path : Path)

/-- The pattern asks for one segment, and the root is taken for one. -/
def RootForStar : Prop := path.segments = [] ∧ OneStar p.segments

/-- The pattern has neither stars nor the slash that every path begins with. -/
def Unrooted : Prop :=
  p.rooted = false ∧ (∀ s ∈ p.segments, ¬ s.IsWild) ∧ p.segments.map Segment.text = path.segments

variable {p path}

theorem Segment.Plain.isName {s : Segment} (h : s.Plain) : IsName s.text := by
  cases s with
  | literal text => exact h.1
  | star => exact ⟨by decide, by decide⟩
  | doubleStar => exact ⟨by decide, by decide⟩

theorem Pattern.names (p : Pattern) : ∀ s ∈ p.segments.map Segment.text, IsName s := by
  intro s hs
  obtain ⟨seg, hseg, rfl⟩ := List.mem_map.mp hs
  exact (p.plain seg hseg).isName

theorem mem_text {c : UInt8} (h : c ∈ p.text) : c = slash ∨ ∃ s ∈ p.segments, c ∈ s.text := by
  by_cases hc : c = slash
  · exact .inl hc
  right
  have hi : c ∈ List.intercalate [slash] (p.segments.map Segment.text) := by
    refine (List.mem_append.mp h).resolve_left fun hs => hc ?_
    split at hs
    · exact List.mem_singleton.mp hs
    · exact absurd hs List.not_mem_nil
  obtain ⟨piece, hp, hcp⟩ := exists_mem_splitOn hi hc
  rw [splitOn_names p.names] at hp
  split at hp
  · rw [List.mem_singleton.mp hp] at hcp
    exact absurd hcp List.not_mem_nil
  · obtain ⟨s, hs, rfl⟩ := List.mem_map.mp hp
    exact ⟨s, hs, hcp⟩

theorem asterisk_mem_text : asterisk ∈ p.text ↔ ∃ s ∈ p.segments, s.IsWild := by
  constructor
  · intro h
    obtain ⟨s, hs, ha⟩ := (mem_text h).resolve_left (by decide)
    refine ⟨s, hs, ?_⟩
    cases s with
    | literal text => exact absurd (by decide) ((p.plain _ hs).2 _ ha)
    | star => exact .inl rfl
    | doubleStar => exact .inr rfl
  · rintro ⟨s, hs, hw⟩
    refine List.mem_append_right _ (mem_intercalate (List.mem_map_of_mem hs) ?_)
    obtain rfl | rfl := hw <;> decide

theorem matchGlob_wild (hw : ∃ s ∈ p.segments, s.IsWild) :
    matchGlob lib p.text path.text = true ↔
      Fits p.segments (if path.segments = [] then [[]] else path.segments) := by
  have hne : p.segments.map Segment.text ≠ [] := by
    obtain ⟨s, hs, -⟩ := hw
    exact List.ne_nil_of_mem (List.mem_map_of_mem hs)
  have hp : (trimByte slash p.text).splitOn slash = p.segments.map Segment.text := by
    unfold Pattern.text
    rw [trimByte_names p.names, splitOn_names p.names, if_neg hne]
  have ht : (trimByte slash path.text).splitOn slash =
      if path.segments = [] then [[]] else path.segments := by
    have hr := trimByte_names path.names true
    rw [← splitOn_names path.names, ← hr]
    rfl
  unfold matchGlob
  rw [if_neg (not_not.mpr (asterisk_mem_text.mpr hw)), hp, ht, matchSegments_iff lib p.plain]

theorem matchGlob_literal (hw : ∀ s ∈ p.segments, ¬ s.IsWild) :
    matchGlob lib p.text path.text = true ↔ p.text = path.text := by
  have ha : asterisk ∉ p.text := by
    rw [asterisk_mem_text]
    rintro ⟨s, hs, h⟩
    exact hw s hs h
  have hg : ∀ c ∈ p.text, c ∉ bytes "*?[\\" := by
    intro c hc
    obtain rfl | ⟨s, hs, hcs⟩ := mem_text hc
    · decide
    cases s with
    | literal text => exact (p.plain _ hs).2 c hcs
    | star => exact absurd (.inl rfl) (hw _ hs)
    | doubleStar => exact absurd (.inr rfl) (hw _ hs)
  unfold matchGlob
  rw [if_pos ha, lib.literal _ _ hg]
  simp

theorem fits_literals_iff {ps : List Segment} {ts : List Bytes} (hw : ∀ s ∈ ps, ¬ s.IsWild) :
    Fits ps ts ↔ ps.map Segment.text = ts := by
  induction ps generalizing ts with
  | nil => rw [fits_nil_iff, List.map_nil, eq_comm]
  | cons s ps ih =>
    have hr (ts : List Bytes) := @ih ts fun s hs => hw s (List.mem_cons_of_mem _ hs)
    cases s with
    | star => exact absurd (.inl rfl) (hw _ List.mem_cons_self)
    | doubleStar => exact absurd (.inr rfl) (hw _ List.mem_cons_self)
    | literal text =>
      cases ts with
      | nil => exact ⟨fun h => (by cases h), fun h => (by cases h)⟩
      | cons t ts =>
        rw [fits_literal_cons, hr, List.map_cons, List.cons.injEq]
        rfl

/-- The texts are the same when the segments are and both have the slash in front. -/
theorem text_eq_iff : p.text = path.text ↔
    p.segments.map Segment.text = path.segments ∧ p.rooted = true := by
  unfold Pattern.text Path.text
  cases hr : p.rooted with
  | true =>
    rw [if_pos rfl, List.singleton_append, List.cons.injEq]
    exact ⟨fun h => ⟨intercalate_inj p.names path.names h.2, rfl⟩, fun h => ⟨rfl, by rw [h.1]⟩⟩
  | false =>
    refine ⟨fun h => ?_, fun h => absurd h.2 (by decide)⟩
    -- trimming changes the text of a path and not that of a relative pattern
    have ht := trimByte_names p.names false
    have hp := trimByte_names path.names true
    rw [h] at ht
    rw [if_neg Bool.false_ne_true, List.nil_append] at h
    rw [if_pos rfl, List.singleton_append, ht, h] at hp
    simpa using congrArg List.length hp

/-- The law of the globs, with the two ways out of it. -/
theorem globs_match_by_segments (lib : PathLib) (p : Pattern) (path : Path) :
    (matchGlob lib p.text path.text = true ↔ Fits p.segments path.segments) ↔
      ¬ RootForStar p path ∧ ¬ Unrooted p path := by
  by_cases hw : ∃ s ∈ p.segments, s.IsWild
  · have hu : ¬ Unrooted p path := by
      rintro ⟨-, hn, -⟩
      obtain ⟨s, hs, h⟩ := hw
      exact hn s hs h
    have hne : p.segments ≠ [] := by
      obtain ⟨s, hs, -⟩ := hw
      exact List.ne_nil_of_mem hs
    rw [matchGlob_wild lib hw]
    by_cases hr : path.segments = []
    · rw [if_pos hr, hr, fits_blank_iff p.plain hne]
      have hx : OneStar p.segments → ¬ Fits p.segments [] := by
        rintro ho hf
        have hs : Segment.star ∈ p.segments := List.count_pos_iff.mp (by rw [ho.1]; decide)
        exact absurd (fits_empty_iff.mp hf _ hs) (by decide)
      unfold RootForStar
      tauto
    · rw [if_neg hr]
      exact ⟨fun _ => ⟨fun h => hr h.1, hu⟩, fun _ => Iff.rfl⟩
  · simp only [not_exists, not_and] at hw
    have hs : ¬ RootForStar p path := by
      rintro ⟨-, hc, -⟩
      have hm : Segment.star ∈ p.segments := List.count_pos_iff.mp (by rw [hc]; decide)
      exact hw _ hm (.inl rfl)
    rw [matchGlob_literal lib hw, text_eq_iff, fits_literals_iff hw]
    unfold Unrooted
    rw [← Bool.not_eq_true]
    tauto

/-- `/*` matches the root path. -/
theorem star_matches_root :
    (∀ lib, matchGlob lib (bytes "/*") (bytes "/") = true) ∧ ¬ Fits [.star] [] :=
  ⟨fun _ => rfl, fun h => (by cases h)⟩

end law

end faultbox.route_globs
