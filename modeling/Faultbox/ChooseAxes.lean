-- How `faultbox plan` counts the leaves of a test without running it: it reads
-- the choose() calls out of the syntax tree and multiplies their options.
import Faultbox.PlanTree

open goval

namespace faultbox.plan

/-! ## The syntax tree -/

/-- A node of the syntax tree, with its children in the order of syntax.Walk.
Statements and expressions that the scan does not look into are `other`. -/
inductive Node where
  | ident (name : String)
  | string (value : String)
  | literal (text : String)
  | list (elems : List Node)
  | call (fn : Node) (args : List Node)
  | other (children : List Node)

mutual

/-- The nodes in the order in which syntax.Walk visits them. -/
def Node.preorder : Node → List Node
  | .ident name => [.ident name]
  | .string value => [.string value]
  | .literal text => [.literal text]
  | .list elems => .list elems :: Node.preorderAll elems
  | .call fn args => .call fn args :: (fn.preorder ++ Node.preorderAll args)
  | .other children => .other children :: Node.preorderAll children

def Node.preorderAll : List Node → List Node
  | [] => []
  | n :: rest => n.preorder ++ Node.preorderAll rest

end

/-! ## The scan -/

/-- One choose() call that the scan found. `values` is empty when the option
list was not a literal. -/
structure ChooseAxis where
  name : String
  values : List String
  known : Bool

def ChooseAxis.cardinality (a : ChooseAxis) : Int :=
  if !a.known || a.values.isEmpty then 1 else a.values.length

def literalString : Node → String
  | .string value => value
  | .literal text => text
  | .ident name => name
  | _ => "<expr>"

def literalOptions : Node → List String × Bool
  | .list elems => (elems.map literalString, true)
  | _ => ([], false)

def stringLiteral : Node → Option String
  | .string value => some value
  | _ => none

/-- The callback of chooseAxesInNode on one node: the running number of the
anonymous calls, and the axes found so far. -/
def visit (st : Nat × List ChooseAxis) (n : Node) : Nat × List ChooseAxis :=
  match n with
  | .call (.ident "choose") [options] =>
    let (values, known) := literalOptions options
    (st.1 + 1, st.2 ++ [⟨"choose#" ++ toString (st.1 + 1), values, known⟩])
  | .call (.ident "choose") [name, options] =>
    let (values, known) := literalOptions options
    match stringLiteral name with
    | some name => (st.1, st.2 ++ [⟨name, values, known⟩])
    | none => (st.1 + 1, st.2 ++ [⟨"choose#" ++ toString (st.1 + 1), values, known⟩])
  | _ => st

def chooseAxesInNode (root : Node) : List ChooseAxis := (root.preorder.foldl visit (0, [])).2

/-- A statement at the top of a file: a def under its name, or anything else. -/
inductive TopStmt where
  | defStmt (name : String) (body : Node)
  | other (node : Node)

/-- One round of the loop of chooseAxesInSource. -/
def addStmt (out : GoMap String (List ChooseAxis)) (stmt : TopStmt) :
    GoMap String (List ChooseAxis) :=
  match stmt with
  | .defStmt name body =>
    if (chooseAxesInNode body).isEmpty then out else out.insert name (chooseAxesInNode body)
  | .other _ => out

def chooseAxesInSource (file : List TopStmt) : GoMap String (List ChooseAxis) :=
  file.foldl addStmt ∅

def chooseLeafCount (axes : List ChooseAxis) : Int :=
  let n := axes.foldl (fun n a => wrap (n * a.cardinality)) 1
  if n < 1 then 1 else n

def chooseAxesComplete (axes : List ChooseAxis) : Bool := axes.all (·.known)

/-! ## The entry of a test in the plan -/

inductive TestKind where
  | defTest | testBuiltin | faultMatrix | faultScenario | scenario
deriving DecidableEq

inductive CompositionKind where
  | choose | faultMatrix

structure PlanAxis where
  name : String
  values : List String
  estimated : Bool := false

structure PlanComposition where
  kind : CompositionKind
  axes : List PlanAxis

/-- One test of the plan. The texts that are only displayed (the expectation,
the timeout, the fault names) are left out. -/
structure PlanTest where
  name : String
  kind : TestKind
  instances : Int
  estimated : Bool := false
  compositions : List PlanComposition := []
  matrixCells : List String := []

def applyChooseAxes (entry : PlanTest) (axes : List ChooseAxis) : PlanTest :=
  if axes.isEmpty then entry
  else { entry with
    instances := wrap (entry.instances * chooseLeafCount axes)
    compositions := entry.compositions ++
      [⟨.choose, axes.map fun a => ⟨a.name, a.values, !a.known⟩⟩]
    estimated := entry.estimated || !chooseAxesComplete axes }

def defEntry (chooseAxes : GoMap String (List ChooseAxis)) (name : String) : PlanTest :=
  applyChooseAxes ⟨name, .defTest, 1, false, [], []⟩ ((chooseAxes.lookup name).getD [])

/-! ## Bodies that the scan can read -/

/-- What a literal choose() call says: its name, empty if it has none, and the
number of its options. -/
def literalCall : Node → Option (String × Nat)
  | .call (.ident "choose") [.list elems] => some ("", elems.length)
  | .call (.ident "choose") [.string name, .list elems] => some (name, elems.length)
  | _ => none

def chooseCalls (body : Node) : List (String × Nat) := body.preorder.filterMap literalCall

def Node.isChoose : Node → Bool
  | .call (.ident "choose") _ => true
  | _ => false

/-- Every choose() call of the body has a literal list of options, which is not
empty, and a literal name if it has a name. -/
def Literal (body : Node) : Prop :=
  ∀ n ∈ body.preorder, n.isChoose = true → ∃ name count, literalCall n = some (name, count + 1)

end faultbox.plan
