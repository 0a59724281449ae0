-- The size of an axis is computed in an int. The law: a parallel() site is
-- explored as asked for up to 20 branches, and a probability site up to 62
-- firings; beyond that the size wraps around and the axis can vanish.
import Faultbox.PlanTree
import Mathlib.Data.Nat.Factorial.Basic

open goval

namespace faultbox.plan_tree

variable {V : Type}

/-! ## What the spec layer accepts -/

/-- The value of a keyword argument: an integer, a string, or something else
with its type and its printed form. -/
inductive KwValue where
  | int (n : Int)
  | str (s : String)
  | other (type text : String)

def KwValue.type : KwValue → String
  | .int _ => "int"
  | .str _ => "string"
  | .other type _ => type

/-- `starlark.AsInt32`. -/
def KwValue.asInt32 : KwValue → Option Int
  | .int n => if -2 ^ 31 ≤ n ∧ n < 2 ^ 31 then some n else none
  | _ => none

/-- `starlark.AsString`, which leaves "" behind when it fails. -/
def KwValue.asString : KwValue → String
  | .str s => s
  | _ => ""

/-- `starKwarg`: the first argument of that name. -/
def starKwarg (kwargs : List (String × KwValue)) (name : String) : Option KwValue :=
  kwargs.lookup name

def parseInterleavingsKwarg (builtinName : String) (kwargs : List (String × KwValue)) :
    Except String InterleavingPolicy :=
  match starKwarg kwargs "interleavings" with
  | none => .ok .single
  | some (.int n) =>
    if ¬ Fits n ∨ n ≤ 0 then
      .error (builtinName ++ "(): interleavings= must be a positive integer, got " ++ toString n)
    else if n = 1 then .ok .single
    else .ok (.n n)
  | some (.str s) =>
    if s = "1" then .ok .single
    else if s = "all" then .ok .all
    else if s = "critical" then .ok .critical
    else if s = "dpor" then
      .error (builtinName ++ "(): interleavings=\"dpor\" is reserved for a future Faultbox " ++
        "release (see RFC-009 — independence-relation refinement)")
    else if s = "sut-internal" then
      .error (builtinName ++ "(): interleavings=\"sut-internal\" requires L5 " ++
        "(instruction-boundary determinism); not available in this release " ++
        "(see RFC-040 Appendix A)")
    else
      .error (builtinName ++ "(): interleavings= must be 1, an integer N, \"all\", or " ++
        "\"critical\"; got " ++ quote s)
  | some (.other type _) =>
    .error (builtinName ++ "(): interleavings= must be int or string, got " ++ type)

/-- The `mode=` of a probability fault; `unset` is the empty string of the source. -/
inductive FanoutMode where
  | unset
  | exhaustive
  | stochastic
deriving DecidableEq

/-- The `max_fires=` part of parseProbabilityFanoutKwargs; zero when it is absent. -/
def parseMaxFires (builtinName : String) (kwargs : List (String × KwValue)) (prob : Rat) :
    Except String Int :=
  match starKwarg kwargs "max_fires" with
  | none => .ok 0
  | some mv =>
    match mv.asInt32 with
    | none => .error (builtinName ++ "(): max_fires must be an integer, got " ++ mv.type)
    | some n =>
      if n ≤ 0 then .error (builtinName ++ "(): max_fires must be > 0, got " ++ toString n)
      else if 1 ≤ prob then
        .error (builtinName ++ "(): max_fires= is only meaningful with probability < 1")
      else .ok n

/-- The `mode=` part. -/
def parseMode (builtinName : String) (kwargs : List (String × KwValue)) :
    Except String FanoutMode :=
  match starKwarg kwargs "mode" with
  | none => .ok .unset
  | some mv =>
    if mv.asString = "exhaustive" then .ok .exhaustive
    else if mv.asString = "stochastic" then .ok .stochastic
    else
      .error (builtinName ++ "(): mode= must be \"exhaustive\" or \"stochastic\", got " ++
        quote mv.asString)

def parseProbabilityFanoutKwargs (builtinName : String) (kwargs : List (String × KwValue))
    (prob : Rat) : Except String (Int × FanoutMode) := do
  let maxFires ← parseMaxFires builtinName kwargs prob
  let mode ← parseMode builtinName kwargs
  if 0 < maxFires ∧ mode = .stochastic then
    throw (builtinName ++ "(): max_fires= is incompatible with mode=\"stochastic\"")
  if mode = .exhaustive ∧ maxFires = 0 then
    throw (builtinName ++ "(): mode=\"exhaustive\" requires max_fires= > 0")
  return (maxFires, if mode = .unset ∧ 0 < maxFires then .exhaustive else mode)

/-- A policy that some parallel() call can have. -/
def InterleavingPolicy.Accepted (policy : InterleavingPolicy) : Prop :=
  ∃ kwargs, parseInterleavingsKwarg "parallel" kwargs = .ok policy

/-- A probability site that some fault of the spec can have: its `max_fires=`
was given and accepted. -/
def ProbFaultSite.Accepted (p : ProbFaultSite) : Prop :=
  1 ≤ p.maxFires ∧ ∃ builtinName kwargs prob mode,
    parseProbabilityFanoutKwargs builtinName kwargs prob = .ok (p.maxFires, mode)

theorem count_of_accepted {count : Int} (h : (InterleavingPolicy.n count).Accepted) :
    2 ≤ count ∧ count < 2 ^ 63 := by
  obtain ⟨kwargs, h⟩ := h
  unfold parseInterleavingsKwarg at h
  split at h
  · cases h
  · rename_i n _
    split at h
    · cases h
    · split at h
      · cases h
      · rename_i hbad hone
        cases h
        push Not at hbad
        have := hbad.1.2
        omega
  · repeat' split at h
    all_goals cases h
  · cases h

/-! ## The factorial loop -/

theorem factorialLoop_eq (n : Nat) : factorialLoop n = wrap (n.factorial : Nat) := by
  unfold factorialLoop
  rw [Int.toNat_natCast]
  induction n with
  | zero => decide
  | succ n ih =>
    cases n with
    | zero => decide
    | succ k =>
      -- The last round of the loop multiplies by the number of branches itself.
      have hr : List.range' 2 (k + 1 + 1 - 1) = List.range' 2 (k + 1 - 1) ++ [k + 1 + 1] := by
        have := List.range'_1_concat (s := 2) (n := k)
        rw [Nat.add_sub_cancel, Nat.add_sub_cancel, this]
        congr 2
        omega
      rw [hr, List.foldl_append, ih, List.foldl_cons, List.foldl_nil, wrap_mul_wrap]
      congr 1
      rw [Nat.factorial_succ (k + 1)]
      push_cast
      ring

theorem factorial_lt_of_le_twenty {n : Nat} (h : n ≤ 20) : n.factorial < 2 ^ 63 := by
  calc n.factorial ≤ Nat.factorial 20 := Nat.factorial_le h
    _ < 2 ^ 63 := by decide

theorem le_factorial_of_twenty_lt {n : Nat} (h : 20 < n) : 2 ^ 63 ≤ n.factorial := by
  calc 2 ^ 63 ≤ Nat.factorial 21 := by decide
    _ ≤ n.factorial := Nat.factorial_le h

/-! ## What the author asked for -/

/-- The most interleavings that the policy takes, if it has a limit. -/
def ParallelSite.cap (site : ParallelSite) : Option Int :=
  match site.policy with
  | .single => some 1
  | .all => none
  | .critical => some (2 * site.branches - 1)
  | .n count => some count

def ParallelSite.fanOut (site : ParallelSite) : Int :=
  match site.cap with
  | none => (site.branches.toNat.factorial : Nat)
  | some cap => min cap (site.branches.toNat.factorial : Nat)

/-- The site counts for as many leaves as its policy asks for, at least one, and
takes part in every enumeration it is recorded for. -/
structure ParallelSite.Explored (V : Type) (site : ParallelSite) : Prop where
  exact : interleavingCardinality site = site.fanOut
  pos : 0 < interleavingCardinality site
  kept : ∀ (axes : List (ChoiceVal V)) probs pars, site ∈ pars →
    .parallel site ∈ collectChoices axes probs pars

/-- The same for a probability site, which asks for every vector of firings. -/
structure ProbFaultSite.Explored (V : Type) (p : ProbFaultSite) : Prop where
  exact : p.cardinality = 2 ^ p.maxFires.toNat
  pos : 0 < p.cardinality
  kept : ∀ (axes : List (ChoiceVal V)) probs pars, p ∈ probs →
    .prob p ∈ collectChoices axes probs pars

def ParallelSite.residue (site : ParallelSite) : Int :=
  wrap (site.branches.toNat.factorial : Nat)

section Sites

variable {site : ParallelSite}

theorem factorialLoop_branches (h2 : 2 ≤ site.branches) :
    factorialLoop site.branches = site.residue := by
  have hc : site.branches = (site.branches.toNat : Int) := by omega
  rw [hc, factorialLoop_eq]
  rfl

theorem residue_of_le_twenty (h : site.branches ≤ 20) :
    site.residue = (site.branches.toNat.factorial : Nat) := by
  have hlt := factorial_lt_of_le_twenty (n := site.branches.toNat) (by omega)
  unfold ParallelSite.residue
  apply wrap_of_fits
  constructor
  · have := Int.natCast_nonneg site.branches.toNat.factorial
    omega
  · exact_mod_cast hlt

theorem residue_lt_of_twenty_lt (h : 20 < site.branches) :
    site.residue < 2 ^ 63 ∧ (2 : Int) ^ 63 ≤ (site.branches.toNat.factorial : Nat) := by
  have hle := le_factorial_of_twenty_lt (n := site.branches.toNat) (by omega)
  exact ⟨(fits_wrap _).2, by exact_mod_cast hle⟩

theorem all_exact_iff (h2 : 2 ≤ site.branches) (hp : site.policy = .all) :
    interleavingCardinality site = site.fanOut ↔ site.branches ≤ 20 := by
  have hc : interleavingCardinality site = site.residue := by
    simp only [interleavingCardinality, hp, if_neg (not_lt.mpr h2)]
    exact factorialLoop_branches h2
  have hfan : site.fanOut = (site.branches.toNat.factorial : Nat) := by
    simp only [ParallelSite.fanOut, ParallelSite.cap, hp]
  rw [hc, hfan]
  constructor
  · intro h
    by_contra hgt
    have := residue_lt_of_twenty_lt (not_le.mp hgt)
    omega
  · exact residue_of_le_twenty

theorem capped_exact_iff {cap : Int} (hc : site.cap = some cap) (hpos : 0 < cap)
    (hca : interleavingCardinality site = min (wrap cap) site.residue)
    (hf : site.branches ≤ 20 → Fits cap)
    (hle : 20 < site.branches → cap ≤ (site.branches.toNat.factorial : Nat)) :
    interleavingCardinality site = site.fanOut ↔ site.branches ≤ 20 ∨ cap ≤ site.residue := by
  have hfan : site.fanOut = min cap (site.branches.toNat.factorial : Nat) := by
    simp only [ParallelSite.fanOut, hc]
  rw [hca, hfan]
  by_cases hb : site.branches ≤ 20
  · rw [residue_of_le_twenty hb, wrap_of_fits (hf hb)]
    simp [hb]
  · have hres := residue_lt_of_twenty_lt (not_le.mp hb)
    rw [min_eq_left (hle (not_le.mp hb))]
    constructor
    · intro h
      right
      rw [← h]
      exact min_le_right _ _
    · rintro (h | h)
      · exact absurd h hb
      · -- A limit below the remainder fits, so it is not wrapped itself.
        have hfit : Fits cap := ⟨by omega, h.trans_lt hres.1⟩
        rw [wrap_of_fits hfit, min_eq_left h]

theorem critical_le_factorial (h : 20 < site.branches) :
    2 * site.branches - 1 ≤ (site.branches.toNat.factorial : Nat) := by
  have hp := Nat.mul_factorial_pred (n := site.branches.toNat) (by omega)
  have hs := Nat.self_le_factorial (site.branches.toNat - 1)
  have htwo : site.branches.toNat * 2 ≤ site.branches.toNat.factorial := by
    rw [← hp]
    apply Nat.mul_le_mul_left
    omega
  omega

theorem critical_exact_iff (h2 : 2 ≤ site.branches) (hp : site.policy = .critical) :
    interleavingCardinality site = site.fanOut ↔
      site.branches ≤ 20 ∨ 2 * site.branches - 1 ≤ site.residue := by
  apply capped_exact_iff
  · simp only [ParallelSite.cap, hp]
  · omega
  · simp only [interleavingCardinality, hp, if_neg (not_lt.mpr h2), factorialLoop_branches h2]
    split
    · rw [min_eq_right (by omega)]
    · rw [min_eq_left (by omega)]
  · intro hb
    constructor <;> omega
  · exact critical_le_factorial

theorem n_exact_iff (h2 : 2 ≤ site.branches) {count : Int} (hp : site.policy = .n count)
    (hc : 2 ≤ count ∧ count < 2 ^ 63) :
    interleavingCardinality site = site.fanOut ↔
      site.branches ≤ 20 ∨ count ≤ site.residue := by
  have hf : Fits count := ⟨by omega, hc.2⟩
  apply capped_exact_iff
  · simp only [ParallelSite.cap, hp]
  · omega
  · simp only [interleavingCardinality, hp, if_neg (not_lt.mpr h2), factorialLoop_branches h2,
      wrap_of_fits hf]
    split
    · rw [min_eq_left (by omega)]
    · rw [min_eq_right (by omega)]
  · intro _
    exact hf
  · intro hb
    have := (residue_lt_of_twenty_lt hb).2
    omega

theorem fanOut_pos (h2 : 2 ≤ site.branches) (hacc : site.policy.Accepted) : 0 < site.fanOut := by
  have hf : (0 : Int) < (site.branches.toNat.factorial : Nat) := by
    exact_mod_cast Nat.factorial_pos _
  unfold ParallelSite.fanOut ParallelSite.cap
  cases hp : site.policy with
  | single => simpa using hf
  | all => simpa using hf
  | critical =>
    apply lt_min
    · omega
    · exact hf
  | n count =>
    rw [hp] at hacc
    apply lt_min
    · have := (count_of_accepted hacc).1
      omega
    · exact hf

theorem explored_iff_exact (h2 : 2 ≤ site.branches) (hacc : site.policy.Accepted) :
    site.Explored V ↔ interleavingCardinality site = site.fanOut := by
  constructor
  · intro h
    exact h.exact
  · intro h
    have hpos : 0 < interleavingCardinality site := h ▸ fanOut_pos h2 hacc
    refine ⟨h, hpos, ?_⟩
    intro axes probs pars hmem
    simp [collectChoices, hmem, hpos]

end Sites

/-! ## Firings -/

theorem prob_exact_iff {p : ProbFaultSite} (hpos : 1 ≤ p.maxFires) :
    p.cardinality = 2 ^ p.maxFires.toNat ↔ p.maxFires ≤ 62 := by
  unfold ProbFaultSite.cardinality
  rw [if_neg (by omega)]
  constructor
  · intro h
    by_contra hgt
    have hfit := fits_wrap (2 ^ p.maxFires.toNat)
    rw [h] at hfit
    have hbig : (2 : Int) ^ 63 ≤ 2 ^ p.maxFires.toNat :=
      pow_le_pow_right₀ (by norm_num) (by omega)
    have := hfit.2
    omega
  · intro h
    have hs : (2 : Int) ^ p.maxFires.toNat ≤ 2 ^ 62 :=
      pow_le_pow_right₀ (by norm_num) (by omega)
    have hn : (0 : Int) ≤ 2 ^ p.maxFires.toNat := by positivity
    apply wrap_of_fits
    constructor
    · omega
    · omega

theorem prob_explored_iff_exact {p : ProbFaultSite} :
    p.Explored V ↔ p.cardinality = 2 ^ p.maxFires.toNat := by
  constructor
  · intro h
    exact h.exact
  · intro h
    have hpos : 0 < p.cardinality := by
      rw [h]
      positivity
    refine ⟨h, hpos, ?_⟩
    intro axes probs pars hmem
    simp [collectChoices, hmem, hpos]

/-! ## The law -/

/-- A parallel() site is explored as asked for exactly when it has at most 20
branches, or a limit that the remainder of the factorial still reaches; a
probability site exactly when it fires at most 62 times. -/
theorem an_axis_is_explored_as_asked_iff (site : ParallelSite) (h2 : 2 ≤ site.branches)
    (hacc : site.policy.Accepted) (hns : site.policy ≠ .single) (p : ProbFaultSite)
    (hp : p.Accepted) :
    (site.Explored V ↔
      site.branches ≤ 20 ∨ ∃ cap, site.cap = some cap ∧ cap ≤ site.residue) ∧
    (p.Explored V ↔ p.maxFires ≤ 62) := by
  constructor
  · rw [explored_iff_exact h2 hacc]
    cases hpol : site.policy with
    | single => exact absurd hpol hns
    | all => simp [all_exact_iff h2 hpol, ParallelSite.cap, hpol]
    | critical => simp [critical_exact_iff h2 hpol, ParallelSite.cap, hpol]
    | n count =>
      rw [hpol] at hacc
      simp [n_exact_iff h2 hpol (count_of_accepted hacc), ParallelSite.cap, hpol]
  · rw [prob_explored_iff_exact, prob_exact_iff hp.1]

def half : Rat := ⟨1, 2, by decide, by decide⟩

theorem a_critical_site_and_four_firings_are_explored :
    ParallelSite.Explored Nat ⟨"spec.star:8", 3, .critical⟩ ∧
      ProbFaultSite.Explored Nat ⟨"wal", 4⟩ := by
  have hacc : InterleavingPolicy.critical.Accepted := ⟨[("interleavings", .str "critical")], rfl⟩
  have hf : ProbFaultSite.Accepted ⟨"wal", 4⟩ :=
    ⟨by decide, "deny", [("max_fires", .int 4)], half, .exhaustive, rfl⟩
  have hlaw := an_axis_is_explored_as_asked_iff (V := Nat) ⟨"spec.star:8", 3, .critical⟩
    (by decide) hacc (by decide) ⟨"wal", 4⟩ hf
  exact ⟨hlaw.1.mpr (.inl (by decide)), hlaw.2.mpr (by decide)⟩

/-- The factorial of 21 and the 63rd power of two turn negative: both axes are
accepted, and both are gone from the enumeration. -/
theorem twenty_one_branches_and_sixty_three_firings_vanish :
    (InterleavingPolicy.all.Accepted ∧
      ¬ ParallelSite.Explored Nat ⟨"spec.star:8", 21, .all⟩ ∧
      collectChoices ([] : List (ChoiceVal Nat)) [] [⟨"spec.star:8", 21, .all⟩] = []) ∧
    (ProbFaultSite.Accepted ⟨"wal", 63⟩ ∧ ¬ ProbFaultSite.Explored Nat ⟨"wal", 63⟩ ∧
      collectChoices ([] : List (ChoiceVal Nat)) [⟨"wal", 63⟩] [] = []) := by
  have hs : interleavingCardinality ⟨"spec.star:8", 21, .all⟩ = -4249290049419214848 := by
    decide +kernel
  have hp : ProbFaultSite.cardinality ⟨"wal", 63⟩ = -9223372036854775808 := by decide
  refine ⟨⟨⟨[("interleavings", .str "all")], rfl⟩, ?_, ?_⟩,
    ⟨by decide, "deny", [("max_fires", .int 63)], half, .exhaustive, rfl⟩, ?_, ?_⟩
  · intro h
    have := h.pos
    omega
  · simp [collectChoices, hs]
  · intro h
    have := h.pos
    omega
  · simp [collectChoices, hp]

end faultbox.plan_tree
