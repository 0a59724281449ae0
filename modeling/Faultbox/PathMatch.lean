-- Paths of files as the engine sees them: sequences of bytes, read from the
-- memory of a process or from /proc. The directory of a path is the one of
-- package filepath; the globs are the dialect of package pathmatch.
import Mathlib.Tactic

namespace gopath

abbrev Bytes : Type := List UInt8

instance instLawfulBEqBytes : LawfulBEq Bytes := inferInstance

def bytes (s : String) : Bytes := s.toList.flatMap String.utf8EncodeChar

/-! ## Package filepath -/

def slash : UInt8 := 47
def asterisk : UInt8 := 42

/-- One element of a path, put on the elements before it, the last one first. -/
def cleanStep (rooted : Bool) (elems : List Bytes) (e : Bytes) : List Bytes :=
  if e = [] ∨ e = bytes "." then elems
  else if e = bytes ".." then
    match elems with
    | [] => if rooted then [] else [e]
    | top :: rest => if top = bytes ".." then e :: elems else rest
  else e :: elems

/-- `filepath.Clean` for a path with slashes. -/
def clean (path : Bytes) : Bytes :=
  let rooted := path.head? == some slash
  let elems := ((path.splitOn slash).foldl (cleanStep rooted) []).reverse
  let joined := List.intercalate [slash] elems
  if rooted then slash :: joined
  else if joined = [] then bytes "."
  else joined

/-- `filepath.Dir`: the path up to its last slash, cleaned. -/
def dir (path : Bytes) : Bytes := clean (path.reverse.dropWhile (· ≠ slash)).reverse

theorem intercalate_cons (sep : UInt8) (piece : Bytes) (pieces : List Bytes) :
    List.intercalate [sep] (piece :: pieces) = piece ++ pieces.flatMap (sep :: ·) := by
  induction pieces generalizing piece with
  | nil => simp
  | cons second pieces ih =>
    rw [List.intercalate_cons_cons, ih, List.flatMap_cons]
    simp

end gopath

open gopath

namespace faultbox.pathmatch

/-! ## Character classes -/

def question : UInt8 := 63
def openClass : UInt8 := 91
def closeClass : UInt8 := 93
def backslash : UInt8 := 92
def bang : UInt8 := 33
def caret : UInt8 := 94
def dash : UInt8 := 45

/-- The loop over the members of a class: what follows the class, and whether
`c` is a member; `none` when the class does not end. -/
def classLoop (c : UInt8) : Bytes → Bool → Bool → Option (Bytes × Bool)
  | [], _, _ => none
  | p :: rest, first, found =>
    if p = closeClass ∧ first = false then some (rest, found)
    else match rest with
      | [] => none
      | q :: more =>
        if p = backslash then classLoop c more false (found || q == c)
        else match more with
          | [] => classLoop c [q] false (found || p == c)
          | hi :: after =>
            -- the dash is literal when it ends the class
            if q = dash ∧ hi ≠ closeClass then
              classLoop c after false (found || (p ≤ c && c ≤ hi))
            else classLoop c (q :: hi :: after) false (found || p == c)

/-- `matchClass`, from the byte after the bracket. -/
def matchClass (pat : Bytes) (c : UInt8) : Option (Bytes × Bool) :=
  match pat with
  | p :: rest =>
    if p = bang ∨ p = caret then (classLoop c rest true false).map fun r => (r.1, !r.2)
    else classLoop c pat true false
  | [] => none

theorem classLoop_length {c : UInt8} {pat : Bytes} {first found : Bool} {r : Bytes × Bool}
    (h : classLoop c pat first found = some r) : r.1.length < pat.length := by
  fun_induction classLoop c pat first found with
  | case1 => cases h
  | case2 =>
    cases h
    simp
  | case3 => cases h
  | case4 => rename_i ih; have := ih h; simp only [List.length_cons]; omega
  | case5 => rename_i ih; have := ih h; simp only [List.length_cons] at this ⊢; omega
  | case6 => rename_i ih; have := ih h; simp only [List.length_cons]; omega
  | case7 => rename_i ih; have := ih h; simp only [List.length_cons] at this ⊢; omega

theorem matchClass_length {c : UInt8} {pat : Bytes} {r : Bytes × Bool}
    (h : matchClass pat c = some r) : r.1.length < pat.length := by
  unfold matchClass at h
  split at h
  · split_ifs at h
    · obtain ⟨r', hr', rfl⟩ := Option.map_eq_some_iff.mp h
      have := classLoop_length hr'
      simp only [List.length_cons]
      omega
    · exact classLoop_length h
  · cases h

/-! ## Globs -/

def starRests : Bytes → List Bytes
  | [] => [[]]
  | c :: s => (c :: s) :: if c = slash then [] else starRests s

/-- `matchHere`: the pattern and the path, walked together. -/
def matchHere (pat s : Bytes) : Bool :=
  if pat = [slash, asterisk, asterisk] ∧ s = [] then true
  else match pat with
    | [] => s.isEmpty
    | p :: rest =>
      if p = asterisk then
        match rest with
        | [] => (starRests s).any fun t => matchHere [] t
        | q :: more =>
          if q = asterisk then
            match more with
            | [] => true
            | m :: after =>
              (m == slash && matchHere after s) || s.tails.any fun t => matchHere (m :: after) t
          else (starRests s).any fun t => matchHere (q :: more) t
      else match s with
        | [] => false
        | c :: s' =>
          if p = question then c != slash && matchHere rest s'
          else if p = openClass then
            if c = slash then false
            else match _hclass : matchClass rest c with
              | some (after, true) => matchHere after s'
              | _ => false
          else if p = backslash then
            match rest with
            | [] => false
            | q :: more => c == q && matchHere more s'
          else c == p && matchHere rest s'
termination_by pat.length
decreasing_by
  all_goals simp only [List.length_cons]
  all_goals first
    | omega
    | (have hshorter := matchClass_length _hclass; simp only at hshorter; omega)

/-- `Match`: the empty pattern filters nothing. -/
def globMatch (pattern path : Bytes) : Bool :=
  if pattern = [] then true else matchHere pattern path

end faultbox.pathmatch
