-- The packet rules of the fault endpoint: what they match and do, what Validate asks of them,
-- and when a trigger lets a rule fire.
import Faultbox.PacketScope
import Mathlib.Data.Rat.Defs
import Mathlib.Algebra.Order.Ring.Unbundled.Rat

open faultbox.packet_scope (Direction PacketView Match)

namespace faultbox.fault_endpoint

inductive Action where
  | pass
  | drop
  | delay
  | duplicate
  | reorder
  | corrupt
  | reset
  | window

inductive Trigger where
  | always
  | nth
  | after
  | every

/-- `Rule`; `addr` is the pointer to it: rule sets that hold one pointer share its counter. -/
structure Rule where
  addr : Nat
  action : Action
  matcher : Match
  delay : Int
  reorderBy : Int
  duplicateCount : Int
  trigger : Trigger
  triggerN : Int
  probability : Rat

/-- What `Validate` asks of the fields that are read here. -/
structure Rule.Valid (r : Rule) : Prop where
  delay : r.action = .delay → 0 < r.delay
  reorder : r.action = .reorder → 1 ≤ r.reorderBy
  duplicate : r.action = .duplicate → 2 ≤ r.duplicateCount
  probability : 0 ≤ r.probability ∧ r.probability ≤ 1
  trigger : r.trigger ≠ .always → 0 < r.triggerN

/-- `shouldTrigger`, once the counter stands at `n`. -/
def Rule.shouldTrigger (r : Rule) (n : Int) : Bool :=
  match r.trigger with
  | .nth => n == r.triggerN
  | .after => r.triggerN < n
  | .every => if r.triggerN ≤ 0 then true else n % r.triggerN == 0
  | .always => true

end faultbox.fault_endpoint
