-- The matching of SQL texts in the rules of the MySQL and Postgres proxies: query and pattern
-- are brought to one form, without the differences between drivers, and then compared as a
-- glob. The law: a pattern with nothing left in that form matches every query.
import Faultbox.GoText
import Faultbox.ProxyRules

open gopath gotext faultbox.proxy_rules

namespace faultbox.sqlmatch

/-! ## One form of a text -/

def semicolon : UInt8 := 59
def apostrophe : UInt8 := 39
def dollar : UInt8 := 36
def questionMark : UInt8 := 63

def dropSemicolons : Nat → Bytes → Bytes
  | 0, s => s
  | turns + 1, s =>
    if s.getLast? = some semicolon then dropSemicolons turns (trimSpace s.dropLast) else s

theorem dropSemicolons_ends {turns : Nat} {s : Bytes} (h : s.length ≤ turns) :
    (dropSemicolons turns s).getLast? ≠ some semicolon := by
  induction turns generalizing s with
  | zero =>
    have hnil : s = [] := by
      apply List.eq_nil_of_length_eq_zero
      omega
    simp [dropSemicolons, hnil]
  | succ turns ih =>
    unfold dropSemicolons
    split
    · apply ih
      have ht := length_trimSpace_le s.dropLast
      rw [List.length_dropLast] at ht
      omega
    · assumption

def comparisons : List Bytes := [bytes "!=", bytes "<>", bytes "<=", bytes ">="]

def isDigit (c : UInt8) : Bool := 48 ≤ c && c ≤ 57

def lower (c : UInt8) : UInt8 := if 65 ≤ c ∧ c ≤ 90 then c + 32 else c

/-- Where the scan is: in the text, in a string literal, behind the first byte of a comparison,
or in the number of a placeholder. -/
inductive Place where
  | text
  | literal
  | comparison
  | number
deriving DecidableEq

/-- The loop of `Canonicalize` over the bytes of a text. -/
def scan : Place → Bytes → Bytes
  | _, [] => []
  | place, c :: rest =>
    if place = .comparison then scan .text rest
    else if place = .number ∧ isDigit c then scan .number rest
    else if c = apostrophe then c :: scan (if place = .literal then .text else .literal) rest
    else if place = .literal then c :: scan .literal rest
    else if c :: rest.take 1 ∈ comparisons then
      space :: c :: rest.take 1 ++ space :: scan .comparison rest
    else if c ∈ bytes "=<>,()" then space :: c :: space :: scan .text rest
    else if c = questionMark then bytes "$?" ++ scan .text rest
    else if c = dollar ∧ (rest.take 1).any isDigit then bytes "$?" ++ scan .number rest
    else lower c :: scan .text rest

def canonicalize (sql : Bytes) : Bytes :=
  let sql := trimSpace sql
  let sql := dropSemicolons sql.length sql
  if sql = [] then [] else List.intercalate [space] (fields (scan .text sql))

example : canonicalize (bytes "SELECT * FROM users WHERE id=?") =
    canonicalize (bytes "select *  from users where id = $12 ;") := by
  decide

/-! ## Matching -/

/-- `matchGlob` of the package: without a star, a pattern is equal to the text. -/
def exactLib (lib : GoLib) : GoLib := ⟨lib.filepathMatch, fun actual pattern => actual == pattern⟩

def sqlMatch (lib : GoLib) (query pattern : Bytes) : Bool :=
  if pattern = [] then true
  else matchGlob (exactLib lib) (canonicalize query) (canonicalize pattern)

end faultbox.sqlmatch
