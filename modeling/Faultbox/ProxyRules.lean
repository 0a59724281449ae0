-- The rules of the protocol proxies, and the glob that all of them match with. A drop rule
-- with a topic and no probability takes every message whose topic its pattern matches.
import Faultbox.ProtocolFaults
import Faultbox.PathMatch

open gopath faultbox.protocol_faults

namespace faultbox.proxy_rules

/-- What the standard library answers: `filepath.Match` for a pattern and a name, `none` for a
bad pattern, and `strings.EqualFold`. -/
structure GoLib where
  filepathMatch : Bytes → Bytes → Option Bool
  equalFold : Bytes → Bytes → Bool

/-- `matchGlob`: what filepath.Match accepts, or a prefix or suffix in front of or behind the
star; without a star, equality up to case. -/
def matchGlob (lib : GoLib) (actual pattern : Bytes) : Bool :=
  if pattern = [] then true
  else if asterisk ∈ pattern then
    if lib.filepathMatch pattern actual = some true then true
    else if pattern.getLast? = some asterisk then pattern.dropLast.isPrefixOf actual
    else if pattern.head? = some asterisk then pattern.tail.isSuffixOf actual
    else false
  else lib.equalFold actual pattern

def sitsOut (rule : ProxyRule) (roll : Bool) : Bool := decide (0 < rule.prob) && roll

/-! ## Drop rules -/

/-- Drop rules with a pattern for the topic and no probability. -/
structure DropRules where
  rules : List ProxyRule
  drops : ∀ r ∈ rules, r.action = .drop
  topics : ∀ r ∈ rules, r.topic ≠ ""
  always : ∀ r ∈ rules, r.prob = 0

def DropRules.hits (lib : GoLib) (rules : DropRules) (topic : Bytes) : Bool :=
  rules.rules.any fun r => matchGlob lib topic (bytes r.topic)

/-- One rule that drops a topic. -/
def DropRules.single (topic : String) (h : topic ≠ "") : DropRules where
  rules := [⟨"", "", "", "", topic, "", .drop, 0, "", "", 0, 0⟩]
  drops := by simp
  topics := by simpa using h
  always := by simp

def literalLib : GoLib := ⟨fun _ _ => some false, fun actual pattern => actual == pattern⟩

end faultbox.proxy_rules
