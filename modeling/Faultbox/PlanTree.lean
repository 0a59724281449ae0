-- The plan tree of one test: the axes that its body exposes (choose() calls,
-- exhaustive probability faults, parallel() interleavings) and the leaves that
-- enumerateLeaves expands them to. Go's int is modelled with its wrap-around.
import Faultbox.GoValues

open goval

namespace faultbox.plan_tree

variable {V : Type}

/-! ## The axes -/

/-- The value of a choose() call: its name, empty when the call has none, and
its options. -/
structure ChoiceVal (V : Type) where
  name : String
  options : List V

/-- A fault rule with `probability < 1` and `max_fires`, under its key. -/
structure ProbFaultSite where
  key : String
  maxFires : Int
deriving DecidableEq

/-- The `interleavings=` argument of parallel(), after parsing. -/
inductive InterleavingPolicy where
  | single
  | all
  | critical
  | n (count : Int)
deriving DecidableEq

/-- A parallel() call: its place in the source and the number of its branches. -/
structure ParallelSite where
  key : String
  branches : Int
  policy : InterleavingPolicy

/-- One branch of the plan tree: what it assigns to each axis. A nil map of the
source is the empty one here. -/
structure PlanLeaf where
  index : Int
  choices : GoMap String Int
  probabilityOutcomes : GoMap String (List Bool)
  isDiscovery : Bool
  interleavingIDs : GoMap String Int

/-! ## Cardinalities -/

def ChoiceVal.cardinality (c : ChoiceVal V) : Int :=
  if c.name = "" ∨ c.options.length < 2 then 0 else c.options.length

/-- `1 << MaxFires`. -/
def ProbFaultSite.cardinality (p : ProbFaultSite) : Int :=
  if p.maxFires ≤ 0 then 0 else wrap (2 ^ p.maxFires.toNat)

/-- The factorial loop of interleavingCardinality: `factorial *= i` for `i`
from 2 to the number of branches. -/
def factorialLoop (branches : Int) : Int :=
  (List.range' 2 (branches.toNat - 1)).foldl
    (fun (factorial : Int) (i : Nat) => wrap (factorial * i)) 1

def interleavingCardinality (site : ParallelSite) : Int :=
  if site.branches < 2 then 0
  else
    let factorial := factorialLoop site.branches
    match site.policy with
    | .single => 0
    | .all => factorial
    | .n count => if count < factorial then count else factorial
    | .critical =>
      let c := wrap (2 * site.branches - 1)
      if c > factorial then factorial else c

/-! ## Stamping a digit onto a leaf -/

def ChoiceVal.apply (c : ChoiceVal V) (leaf : PlanLeaf) (digit : Int) : PlanLeaf :=
  if c.name = "" then leaf
  else { leaf with choices := leaf.choices.insert c.name digit }

def fireVector (maxFires : Int) (digit : Int) : List Bool :=
  (List.range maxFires.toNat).map fun (b : Nat) => (digit >>> b) % 2 == 1

def ProbFaultSite.apply (p : ProbFaultSite) (leaf : PlanLeaf) (digit : Int) : PlanLeaf :=
  if p.key = "" ∨ p.maxFires ≤ 0 then leaf
  else { leaf with
    probabilityOutcomes := leaf.probabilityOutcomes.insert p.key (fireVector p.maxFires digit) }

def ParallelSite.apply (p : ParallelSite) (leaf : PlanLeaf) (digit : Int) : PlanLeaf :=
  if p.key = "" then leaf
  else { leaf with interleavingIDs := leaf.interleavingIDs.insert p.key digit }

/-- The three kinds of axes, behind one interface. -/
inductive NonDeterministicChoice (V : Type) where
  | choice (c : ChoiceVal V)
  | prob (p : ProbFaultSite)
  | parallel (p : ParallelSite)

def NonDeterministicChoice.cardinality : NonDeterministicChoice V → Int
  | .choice c => c.cardinality
  | .prob p => p.cardinality
  | .parallel p => interleavingCardinality p

def NonDeterministicChoice.apply : NonDeterministicChoice V → PlanLeaf → Int → PlanLeaf
  | .choice c => c.apply
  | .prob p => p.apply
  | .parallel p => p.apply

/-! ## The enumeration -/

def collectChoices (axes : List (ChoiceVal V)) (probAxes : List ProbFaultSite)
    (parAxes : List ParallelSite) : List (NonDeterministicChoice V) :=
  (axes.filter fun a => 0 < a.cardinality).map .choice ++
    (probAxes.filter fun p => 0 < p.cardinality).map .prob ++
    (parAxes.filter fun p => 0 < interleavingCardinality p).map .parallel

def PlanLeaf.blank (index : Int) : PlanLeaf := ⟨index, ∅, ∅, false, ∅⟩

/-- The inner loop of expandLeaves: each axis takes `rem % card` and hands
`rem / card` on. -/
def applyDigits (leaf : PlanLeaf) (rem : Int) : List (NonDeterministicChoice V) → PlanLeaf
  | [] => leaf
  | c :: rest => applyDigits (c.apply leaf (rem.tmod c.cardinality)) (rem.tdiv c.cardinality) rest

def leafTotal (choices : List (NonDeterministicChoice V)) : Int :=
  choices.foldl (fun total c => wrap (total * c.cardinality)) 1

/-- `make` panics on a negative length: no leaves then. -/
def expandLeaves (choices : List (NonDeterministicChoice V)) : Option (List PlanLeaf) :=
  if choices = [] then some [PlanLeaf.blank 0]
  else if leafTotal choices < 0 then none
  else some ((List.range (leafTotal choices).toNat).map fun i : Nat =>
    applyDigits (.blank i) i choices)

def enumerateLeaves (axes : List (ChoiceVal V)) (probAxes : List ProbFaultSite)
    (parAxes : List ParallelSite) : Option (List PlanLeaf) :=
  expandLeaves (collectChoices axes probAxes parAxes)

/-! ## What discovery records -/

/-- The loop of collectNamedAxes, after the names in `seen`. -/
def namedAxesFrom (seen : List String) : List (ChoiceVal V) → List (ChoiceVal V)
  | [] => []
  | c :: rest =>
    if c.name = "" ∨ c.options.length < 2 then namedAxesFrom seen rest
    else if c.name ∈ seen then namedAxesFrom seen rest
    else c :: namedAxesFrom (c.name :: seen) rest

/-- The axes among the recorded choose() calls: named, with something to
choose, the first one of each name. -/
def collectNamedAxes (choices : List (ChoiceVal V)) : List (ChoiceVal V) := namedAxesFrom [] choices

def recordProbFault (probFaults : List ProbFaultSite) (site : ProbFaultSite) :
    List ProbFaultSite :=
  if site.key = "" ∨ site.maxFires ≤ 0 then probFaults
  else if probFaults.any (·.key == site.key) then probFaults
  else probFaults ++ [site]

def recordParallelSite (parallelSites : List ParallelSite) (site : ParallelSite) :
    List ParallelSite :=
  if site.key = "" ∨ site.branches < 2 then parallelSites
  else if parallelSites.any (·.key == site.key) then parallelSites
  else parallelSites ++ [site]

end faultbox.plan_tree
