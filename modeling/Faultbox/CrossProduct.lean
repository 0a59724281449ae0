-- The plan tree law: as long as every axis has a name or a key of its own, the
-- leaves are exactly the combinations of what the axes can take, each one once.
import Faultbox.MixedRadix
import Faultbox.PlanTree

open goval mixed_radix

namespace faultbox.plan_tree

variable {V : Type}

/-! ## Combinations -/

def active (pars : List ParallelSite) : List ParallelSite :=
  pars.filter fun p => 0 < interleavingCardinality p

/-- One thing for each axis to do: an option for each choose() axis, a vector of
firings for each probability site, an ordering for each active parallel() site. -/
structure Combination where
  options : List Nat
  fires : List (List Bool)
  orderings : List Nat

/-- The combination stays within what each axis offers. -/
structure Combination.Valid (axes : List (ChoiceVal V)) (probs : List ProbFaultSite)
    (pars : List ParallelSite) (c : Combination) : Prop where
  options : List.Forall₂ (fun d a => d < a.options.length) c.options axes
  fires : List.Forall₂ (fun v p => (v.length : Int) = p.maxFires) c.fires probs
  orderings : List.Forall₂ (fun (d : Nat) p => (d : Int) < interleavingCardinality p)
    c.orderings (active pars)

/-- The combination that leaves every axis at its default. -/
def Combination.zero (axes : List (ChoiceVal V)) (probs : List ProbFaultSite)
    (pars : List ParallelSite) : Combination where
  options := axes.map fun _ => 0
  fires := probs.map fun p => List.replicate p.maxFires.toNat false
  orderings := (active pars).map fun _ => 0

/-- The leaf assigns to each axis what the combination says, and assigns nothing else. -/
structure Carries (axes : List (ChoiceVal V)) (probs : List ProbFaultSite)
    (pars : List ParallelSite) (leaf : PlanLeaf) (c : Combination) : Prop where
  choices : ∀ k, leaf.choices.lookup k =
    ((axes.map (·.name)).zip (c.options.map Int.ofNat)).lookup k
  outcomes : ∀ k, leaf.probabilityOutcomes.lookup k = ((probs.map (·.key)).zip c.fires).lookup k
  orderings : ∀ k, leaf.interleavingIDs.lookup k =
    (((active pars).map (·.key)).zip (c.orderings.map Int.ofNat)).lookup k

/-- The leaves are the cross product of the axes, in order. -/
structure IsCrossProduct (axes : List (ChoiceVal V)) (probs : List ProbFaultSite)
    (pars : List ParallelSite) (leaves : List PlanLeaf) : Prop where
  index : ∀ (i : Nat) (leaf : PlanLeaf), leaves[i]? = some leaf → leaf.index = i
  sound : ∀ leaf ∈ leaves, ∃! c : Combination,
    c.Valid axes probs pars ∧ Carries axes probs pars leaf c
  complete : ∀ c : Combination, c.Valid axes probs pars →
    ∃! i : Nat, ∃ leaf, leaves[i]? = some leaf ∧ Carries axes probs pars leaf c
  first : ∃ leaf, leaves[0]? = some leaf ∧
    Carries axes probs pars leaf (.zero axes probs pars)

/-- No two axes of a kind share a name or a key, and each has something to vary. -/
structure Distinct (axes : List (ChoiceVal V)) (probs : List ProbFaultSite)
    (pars : List ParallelSite) : Prop where
  names : (axes.map (·.name)).Nodup
  options : ∀ a ∈ axes, 2 ≤ a.options.length
  keys : (probs.map (·.key)).Nodup
  fires : ∀ p ∈ probs, 1 ≤ p.maxFires
  sites : (pars.map (·.key)).Nodup

/-- No name and no key is empty. -/
structure Named (axes : List (ChoiceVal V)) (probs : List ProbFaultSite)
    (pars : List ParallelSite) : Prop where
  names : ∀ a ∈ axes, a.name ≠ ""
  keys : ∀ p ∈ probs, p.key ≠ ""
  sites : ∀ p ∈ pars, p.key ≠ ""

def bases (axes : List (ChoiceVal V)) (probs : List ProbFaultSite) (pars : List ParallelSite) :
    List Nat :=
  axes.map (·.options.length) ++ probs.map (fun p => 2 ^ p.maxFires.toNat) ++
    (active pars).map fun p => (interleavingCardinality p).toNat

/-! ## Firing vectors are binary numbers -/

def fireNumber (v : List Bool) : Nat := Nat.ofBits fun i : Fin v.length => v.get i

theorem testBit_fireNumber (v : List Bool) (i : Nat) :
    (fireNumber v).testBit i = v.getD i false := by
  unfold fireNumber
  by_cases hi : i < v.length
  · rw [Nat.testBit_ofBits_lt _ i hi]
    simp [hi]
  · rw [Nat.testBit_ofBits_ge _ i (by omega)]
    simp [List.getElem?_eq_none (Nat.le_of_not_lt hi)]

theorem fireNumber_lt (v : List Bool) : fireNumber v < 2 ^ v.length :=
  Nat.ofBits_lt_two_pow _

/-- `(digit >> b) & 1` is bit `b`. -/
theorem fireVector_eq (m : Int) (d : Nat) :
    fireVector m d = (List.range m.toNat).map fun b => d.testBit b := by
  unfold fireVector
  apply List.map_congr_left
  intro b _
  have hc : (d : Int) >>> b % 2 = ((d >>> b % 2 : Nat) : Int) := by simp
  rw [hc, Nat.testBit_eq_decide_div_mod_eq, Nat.shiftRight_eq_div_pow, Bool.eq_iff_iff,
    beq_iff_eq, decide_eq_true_iff]
  exact_mod_cast Iff.rfl

theorem fireVector_fireNumber (v : List Bool) (m : Int) (h : (v.length : Int) = m) :
    fireVector m (fireNumber v) = v := by
  have hlen : m.toNat = v.length := by omega
  rw [fireVector_eq, hlen]
  apply List.ext_getElem
  · simp
  · intro b hb hb'
    simp [testBit_fireNumber, hb']

theorem fireNumber_fireVector (m : Int) (d : Nat) (h : d < 2 ^ m.toNat) :
    fireNumber (fireVector m d) = d := by
  apply Nat.eq_of_testBit_eq
  intro b
  rw [testBit_fireNumber, fireVector_eq]
  by_cases hb : b < m.toNat
  · simp [hb]
  · have hbig : d < 2 ^ b := h.trans_le (Nat.pow_le_pow_right (by omega) (by omega))
    simp [hb, Nat.testBit_lt_two_pow hbig]

/-! ## The loops of expandLeaves -/

theorem leafTotal_eq (choices : List (NonDeterministicChoice V)) (bs : List Nat)
    (h : choices.map (·.cardinality) = bs.map Int.ofNat) (hfit : bs.prod < 2 ^ 63) :
    leafTotal choices = (bs.prod : Nat) :=
  foldl_wrap_mul_eq _ choices bs h hfit

theorem expandLeaves_length (choices : List (NonDeterministicChoice V)) (bs : List Nat)
    (h : choices.map (·.cardinality) = bs.map Int.ofNat) (hfit : bs.prod < 2 ^ 63) :
    ∃ leaves, expandLeaves choices = some leaves ∧ leaves.length = bs.prod := by
  unfold expandLeaves
  by_cases hnil : choices = []
  · have hbs : bs = [] := by simpa [hnil] using h.symm
    rw [if_pos hnil]
    exact ⟨_, rfl, by simp [hbs]⟩
  · rw [if_neg hnil, leafTotal_eq _ _ h hfit, if_neg (by omega), Int.toNat_natCast]
    exact ⟨_, rfl, by simp⟩

def stamp (leaf : PlanLeaf) : List (NonDeterministicChoice V) → List Nat → PlanLeaf
  | c :: rest, d :: ds => stamp (c.apply leaf d) rest ds
  | _, _ => leaf

theorem applyDigits_eq (choices : List (NonDeterministicChoice V)) (bs : List Nat)
    (h : choices.map (·.cardinality) = bs.map Int.ofNat) (leaf : PlanLeaf) (i : Nat) :
    applyDigits leaf i choices = stamp leaf choices (digits bs i) := by
  induction choices generalizing bs leaf i with
  | nil => simp [applyDigits, stamp]
  | cons c rest ih =>
    cases bs with
    | nil => simp at h
    | cons b bs =>
      simp only [List.map_cons, List.cons.injEq, Int.ofNat_eq_natCast] at h
      obtain ⟨hc, hr⟩ := h
      simp only [applyDigits, digits, stamp, hc]
      have hmod : (i : Int).tmod b = ((i % b : Nat) : Int) := (Int.ofNat_tmod i b).symm
      have hdiv : (i : Int).tdiv b = ((i / b : Nat) : Int) := (Int.ofNat_tdiv i b).symm
      rw [hmod, hdiv]
      exact ih bs hr _ _

theorem stamp_append (cs cs' : List (NonDeterministicChoice V)) (ds ds' : List Nat)
    (h : ds.length = cs.length) (leaf : PlanLeaf) :
    stamp leaf (cs ++ cs') (ds ++ ds') = stamp (stamp leaf cs ds) cs' ds' := by
  induction cs generalizing ds leaf with
  | nil =>
    have hds : ds = [] := List.eq_nil_of_length_eq_zero h
    simp [hds, stamp]
  | cons c rest ih =>
    cases ds with
    | nil => simp at h
    | cons d ds =>
      simp only [List.cons_append, stamp]
      exact ih ds (by simpa using h) _

/-! ## Stamping each kind of axis -/

theorem stamp_choices (axes : List (ChoiceVal V)) (h : ∀ a ∈ axes, a.name ≠ "") (ds : List Nat)
    (leaf : PlanLeaf) :
    stamp leaf (axes.map .choice) ds = { leaf with
      choices := storeAll leaf.choices ((axes.map (·.name)).zip (ds.map Int.ofNat)) } := by
  induction axes generalizing ds leaf with
  | nil => simp [stamp, storeAll]
  | cons a rest ih =>
    cases ds with
    | nil => simp [stamp, storeAll]
    | cons d ds =>
      have ha : a.name ≠ "" := h a (by simp)
      simp only [List.map_cons, stamp, NonDeterministicChoice.apply, ChoiceVal.apply, if_neg ha]
      rw [ih (fun b hb => h b (by simp [hb]))]
      simp [storeAll]

theorem stamp_probs (probs : List ProbFaultSite) (h : ∀ p ∈ probs, p.key ≠ "")
    (hf : ∀ p ∈ probs, 1 ≤ p.maxFires) (vs : List (List Bool))
    (hv : List.Forall₂ (fun v p => (v.length : Int) = p.maxFires) vs probs) (leaf : PlanLeaf) :
    stamp leaf (probs.map (NonDeterministicChoice.prob (V := V))) (vs.map fireNumber) = { leaf with
      probabilityOutcomes := storeAll leaf.probabilityOutcomes ((probs.map (·.key)).zip vs) } := by
  induction hv generalizing leaf with
  | nil => simp [stamp, storeAll]
  | @cons v p vs probs hvp _ ih =>
    have hp : ¬ (p.key = "" ∨ p.maxFires ≤ 0) := by
      have h1 := h p (by simp)
      have h2 := hf p (by simp)
      simp only [h1, false_or]
      omega
    simp only [List.map_cons, stamp, NonDeterministicChoice.apply, ProbFaultSite.apply, if_neg hp,
      fireVector_fireNumber v p.maxFires hvp]
    rw [ih (fun q hq => h q (by simp [hq])) (fun q hq => hf q (by simp [hq]))]
    simp [storeAll]

theorem stamp_parallels (pars : List ParallelSite) (h : ∀ p ∈ pars, p.key ≠ "") (ds : List Nat)
    (leaf : PlanLeaf) :
    stamp leaf (pars.map (NonDeterministicChoice.parallel (V := V))) ds = { leaf with
      interleavingIDs :=
        storeAll leaf.interleavingIDs ((pars.map (·.key)).zip (ds.map Int.ofNat)) } := by
  induction pars generalizing ds leaf with
  | nil => simp [stamp, storeAll]
  | cons p rest ih =>
    cases ds with
    | nil => simp [stamp, storeAll]
    | cons d ds =>
      have hp : p.key ≠ "" := h p (by simp)
      simp only [List.map_cons, stamp, NonDeterministicChoice.apply, ParallelSite.apply, if_neg hp]
      rw [ih (fun q hq => h q (by simp [hq]))]
      simp [storeAll]

/-! ## Combinations and digits -/

def Combination.digits (c : Combination) : List Nat :=
  c.options ++ c.fires.map fireNumber ++ c.orderings

section Combinations

variable {axes : List (ChoiceVal V)} {probs : List ProbFaultSite} {pars : List ParallelSite}

theorem active_pos {p : ParallelSite} (h : p ∈ active pars) : 0 < interleavingCardinality p := by
  simpa [active] using (List.mem_filter.mp h).2

theorem Combination.Valid.digits_below {c : Combination} (h : c.Valid axes probs pars) :
    Below c.digits (bases axes probs pars) := by
  apply List.rel_append
  · apply List.rel_append
    · exact List.forall₂_map_right_iff.mpr h.options
    · rw [List.forall₂_map_left_iff, List.forall₂_map_right_iff]
      apply h.fires.imp
      intro v p hvp
      have hlen : p.maxFires.toNat = v.length := by omega
      rw [hlen]
      exact fireNumber_lt v
  · rw [List.forall₂_map_right_iff]
    apply h.orderings.imp
    intro d p hd
    omega

theorem exists_fires (probs : List ProbFaultSite) (hf : ∀ p ∈ probs, 1 ≤ p.maxFires)
    (ds : List Nat) (h : Below ds (probs.map fun p => 2 ^ p.maxFires.toNat)) :
    ∃ vs : List (List Bool),
      List.Forall₂ (fun v p => (v.length : Int) = p.maxFires) vs probs ∧
      vs.map fireNumber = ds := by
  induction probs generalizing ds with
  | nil =>
    cases h
    exact ⟨[], .nil, rfl⟩
  | cons p rest ih =>
    cases ds with
    | nil => cases h
    | cons d ds =>
      obtain ⟨hd, hds⟩ := List.forall₂_cons.mp h
      obtain ⟨vs, hvs, hmap⟩ := ih (fun q hq => hf q (by simp [hq])) ds hds
      refine ⟨fireVector p.maxFires d :: vs, .cons ?_ hvs, ?_⟩
      · have := hf p (by simp)
        simp only [fireVector, List.length_map, List.length_range]
        omega
      · rw [List.map_cons, hmap, fireNumber_fireVector _ _ hd]

theorem exists_combination (hf : ∀ p ∈ probs, 1 ≤ p.maxFires) {ds : List Nat}
    (h : Below ds (bases axes probs pars)) :
    ∃ c : Combination, c.Valid axes probs pars ∧ c.digits = ds := by
  have h₁₂ := List.forall₂_take_append _ _ _ h
  have h₃ := List.forall₂_drop_append _ _ _ h
  have h₁ := List.forall₂_take_append _ _ _ h₁₂
  obtain ⟨vs, hvs, hmap⟩ := exists_fires probs hf _ (List.forall₂_drop_append _ _ _ h₁₂)
  rw [List.forall₂_map_right_iff] at h₁ h₃
  refine ⟨⟨_, vs, _⟩, ⟨h₁, hvs, h₃.imp ?_⟩, ?_⟩
  · intro d p hd
    omega
  · simp only [Combination.digits, hmap, List.take_append_drop]

theorem Carries.unique (hd : Distinct axes probs pars) {leaf : PlanLeaf} {c c' : Combination}
    (hc : c.Valid axes probs pars) (hc' : c'.Valid axes probs pars)
    (h : Carries axes probs pars leaf c) (h' : Carries axes probs pars leaf c') : c = c' := by
  have hs : ((active pars).map (·.key)).Nodup :=
    hd.sites.sublist (List.Sublist.map _ List.filter_sublist)
  have ho : c.options.map Int.ofNat = c'.options.map Int.ofNat := by
    apply eq_of_lookup_zip hd.names
    · simpa using hc.options.length_eq
    · simpa using hc'.options.length_eq
    · intro k
      rw [← h.choices, h'.choices]
  have hf : c.fires = c'.fires := by
    apply eq_of_lookup_zip hd.keys
    · simpa using hc.fires.length_eq
    · simpa using hc'.fires.length_eq
    · intro k
      rw [← h.outcomes, h'.outcomes]
  have hord : c.orderings.map Int.ofNat = c'.orderings.map Int.ofNat := by
    apply eq_of_lookup_zip hs
    · simpa using hc.orderings.length_eq
    · simpa using hc'.orderings.length_eq
    · intro k
      rw [← h.orderings, h'.orderings]
  have hinj : Function.Injective Int.ofNat := fun _ _ => Int.ofNat.inj
  cases c
  cases c'
  simp only [Combination.mk.injEq]
  exact ⟨hinj.list_map ho, hf, hinj.list_map hord⟩

/-! ## The leaves -/

theorem bases_pos (hd : Distinct axes probs pars) : ∀ b ∈ bases axes probs pars, 0 < b := by
  intro b hb
  simp only [bases, List.mem_append, List.mem_map] at hb
  obtain (⟨a, ha, rfl⟩ | ⟨p, _, rfl⟩) | ⟨p, hp, rfl⟩ := hb
  · have := hd.options a ha
    omega
  · exact Nat.pow_pos (by omega)
  · have := active_pos hp
    omega

theorem prob_cardinality (hd : Distinct axes probs pars)
    (hfit : (bases axes probs pars).prod < 2 ^ 63) {p : ProbFaultSite} (hp : p ∈ probs) :
    p.cardinality = ((2 ^ p.maxFires.toNat : Nat) : Int) := by
  have hmem : 2 ^ p.maxFires.toNat ∈ bases axes probs pars := by
    simp only [bases, List.mem_append, List.mem_map]
    exact .inl (.inr ⟨p, hp, rfl⟩)
  have hpr : 0 < (bases axes probs pars).prod := List.prod_pos (bases_pos hd)
  have hle : 2 ^ p.maxFires.toNat ≤ (bases axes probs pars).prod :=
    Nat.le_of_dvd hpr (List.dvd_prod hmem)
  have hpos := hd.fires p hp
  unfold ProbFaultSite.cardinality
  rw [if_neg (by omega)]
  have hc : (2 : Int) ^ p.maxFires.toNat = ((2 ^ p.maxFires.toNat : Nat) : Int) := by
    push_cast
    rfl
  rw [hc]
  apply wrap_of_fits
  constructor
  · have := Int.natCast_nonneg (2 ^ p.maxFires.toNat)
    omega
  · exact_mod_cast hle.trans_lt hfit

theorem choice_cardinality (hd : Distinct axes probs pars) (hn : Named axes probs pars)
    {a : ChoiceVal V} (ha : a ∈ axes) : a.cardinality = a.options.length := by
  have h1 := hn.names a ha
  have h2 := hd.options a ha
  unfold ChoiceVal.cardinality
  rw [if_neg]
  simp only [h1, false_or]
  omega

theorem apply_index (c : NonDeterministicChoice V) (leaf : PlanLeaf) (d : Int) :
    (c.apply leaf d).index = leaf.index := by
  cases c with
  | choice c =>
    simp only [NonDeterministicChoice.apply, ChoiceVal.apply]
    split <;> rfl
  | prob p =>
    simp only [NonDeterministicChoice.apply, ProbFaultSite.apply]
    split <;> rfl
  | parallel p =>
    simp only [NonDeterministicChoice.apply, ParallelSite.apply]
    split <;> rfl

theorem stamp_index (cs : List (NonDeterministicChoice V)) (ds : List Nat) (leaf : PlanLeaf) :
    (stamp leaf cs ds).index = leaf.index := by
  induction cs generalizing ds leaf with
  | nil => simp [stamp]
  | cons c rest ih =>
    cases ds with
    | nil => rfl
    | cons d ds => rw [stamp, ih, apply_index]

/-- Leaf `i` of the enumeration. -/
def leafAt (axes : List (ChoiceVal V)) (probs : List ProbFaultSite) (pars : List ParallelSite)
    (i : Nat) : PlanLeaf :=
  stamp (.blank i) (collectChoices axes probs pars) (digits (bases axes probs pars) i)

section fitting

variable (hd : Distinct axes probs pars) (hn : Named axes probs pars)
  (hfit : (bases axes probs pars).prod < 2 ^ 63)
include hd hn hfit

theorem collectChoices_eq :
    collectChoices axes probs pars =
      axes.map .choice ++ probs.map .prob ++ (active pars).map .parallel := by
  have hax : axes.filter (fun a => 0 < a.cardinality) = axes := by
    rw [List.filter_eq_self]
    intro a ha
    have := hd.options a ha
    rw [choice_cardinality hd hn ha]
    simp only [decide_eq_true_eq]
    omega
  have hpr : probs.filter (fun p => 0 < p.cardinality) = probs := by
    rw [List.filter_eq_self]
    intro p hp
    rw [prob_cardinality hd hfit hp]
    simp only [decide_eq_true_eq]
    exact_mod_cast Nat.pow_pos (by omega)
  unfold collectChoices
  rw [hax, hpr]
  rfl

theorem cardinalities_eq :
    (collectChoices axes probs pars).map (·.cardinality) =
      (bases axes probs pars).map Int.ofNat := by
  rw [collectChoices_eq hd hn hfit]
  simp only [bases, List.map_append, List.map_map]
  congr 1
  · congr 1
    · apply List.map_congr_left
      intro a ha
      exact choice_cardinality hd hn ha
    · apply List.map_congr_left
      intro p hp
      exact prob_cardinality hd hfit hp
  · apply List.map_congr_left
    intro p hp
    have := active_pos hp
    simp only [Function.comp_apply, NonDeterministicChoice.cardinality, Int.ofNat_eq_natCast]
    omega

theorem enumerateLeaves_eq :
    enumerateLeaves axes probs pars =
      some ((List.range (bases axes probs pars).prod).map (leafAt axes probs pars)) := by
  have hc := cardinalities_eq hd hn hfit
  unfold enumerateLeaves expandLeaves
  by_cases hnil : collectChoices axes probs pars = []
  · have hb : bases axes probs pars = [] := by simpa [hnil] using hc.symm
    rw [if_pos hnil, hb]
    simp [leafAt, hnil, hb, stamp]
  · rw [if_neg hnil, leafTotal_eq _ _ hc hfit, if_neg (by omega), Int.toNat_natCast]
    congr 2
    funext i
    exact applyDigits_eq _ _ hc _ _

theorem stamp_carries {c : Combination}
    (hc : c.Valid axes probs pars) (i : Int) :
    Carries axes probs pars (stamp (.blank i) (collectChoices axes probs pars) c.digits) c := by
  have hlen₁ : c.options.length = (axes.map (NonDeterministicChoice.choice (V := V))).length := by
    simpa using hc.options.length_eq
  have hlen₂ : (c.fires.map fireNumber).length =
      (probs.map (NonDeterministicChoice.prob (V := V))).length := by
    simpa using hc.fires.length_eq
  rw [collectChoices_eq hd hn hfit, Combination.digits,
    stamp_append _ _ _ _ (by simp only [List.length_append, hlen₁, hlen₂]),
    stamp_append _ _ _ _ hlen₁, stamp_choices axes hn.names,
    stamp_probs probs hn.keys hd.fires c.fires hc.fires,
    stamp_parallels (active pars) (fun p hp => hn.sites p (List.mem_of_mem_filter hp))]
  have hs : ((active pars).map (·.key)).Nodup :=
    hd.sites.sublist (List.Sublist.map _ List.filter_sublist)
  refine ⟨fun k => ?_, fun k => ?_, fun k => ?_⟩
  · exact lookup_storeAll_zip hd.names (by simpa using hc.options.length_eq) k
  · exact lookup_storeAll_zip hd.keys (by simpa using hc.fires.length_eq) k
  · exact lookup_storeAll_zip hs (by simpa using hc.orderings.length_eq) k

theorem leafAt_carries {i : Nat}
    (hi : i < (bases axes probs pars).prod) :
    ∃ c : Combination, c.Valid axes probs pars ∧ c.digits = digits (bases axes probs pars) i ∧
      Carries axes probs pars (leafAt axes probs pars i) c := by
  obtain ⟨c, hc, hdig⟩ := exists_combination hd.fires (digits_below _ i hi)
  refine ⟨c, hc, hdig, ?_⟩
  unfold leafAt
  rw [← hdig]
  exact stamp_carries hd hn hfit hc i

theorem leafAt_carries_iff {c : Combination}
    (hc : c.Valid axes probs pars) {i : Nat} (hi : i < (bases axes probs pars).prod) :
    Carries axes probs pars (leafAt axes probs pars i) c ↔
      i = value (bases axes probs pars) c.digits := by
  obtain ⟨c', hc', hdig, hca⟩ := leafAt_carries hd hn hfit hi
  constructor
  · intro h
    rw [Carries.unique hd hc hc' h hca, hdig, value_digits _ i hi]
  · intro h
    have hs : digits (bases axes probs pars) i = c.digits := by
      rw [h, digits_value hc.digits_below]
    unfold leafAt
    rw [hs]
    exact stamp_carries hd hn hfit hc i

end fitting

theorem zero_valid (hd : Distinct axes probs pars) :
    (Combination.zero axes probs pars).Valid axes probs pars := by
  refine ⟨?_, ?_, ?_⟩
  · unfold Combination.zero
    rw [List.forall₂_map_left_iff, List.forall₂_same]
    intro a ha
    have := hd.options a ha
    omega
  · unfold Combination.zero
    rw [List.forall₂_map_left_iff, List.forall₂_same]
    intro p hp
    have := hd.fires p hp
    simp only [List.length_replicate]
    omega
  · unfold Combination.zero
    rw [List.forall₂_map_left_iff, List.forall₂_same]
    intro p hp
    exact active_pos hp

theorem fireNumber_replicate (n : Nat) : fireNumber (List.replicate n false) = 0 := by
  apply Nat.eq_of_testBit_eq
  intro i
  rw [testBit_fireNumber, Nat.zero_testBit]
  by_cases hi : i < n
  · simp [hi]
  · simp [Nat.le_of_not_lt hi]

theorem zero_digits :
    (Combination.zero axes probs pars).digits = digits (bases axes probs pars) 0 := by
  rw [digits_zero]
  simp only [Combination.digits, Combination.zero, bases, List.map_append, List.map_map,
    Function.comp_def, fireNumber_replicate]

end Combinations

/-- Distinct axes, each with a name or key, whose sizes multiply to an int: the
leaves are the cross product of the axes. -/
theorem named_axes_give_the_cross_product (axes : List (ChoiceVal V)) (probs : List ProbFaultSite)
    (pars : List ParallelSite) (hd : Distinct axes probs pars) (hn : Named axes probs pars)
    (hfit : (bases axes probs pars).prod < 2 ^ 63) :
    ∃ leaves, enumerateLeaves axes probs pars = some leaves ∧
      leaves.length = (bases axes probs pars).prod ∧ IsCrossProduct axes probs pars leaves := by
  refine ⟨_, enumerateLeaves_eq hd hn hfit, by simp, ?_, ?_, ?_, ?_⟩
  · intro i leaf h
    obtain ⟨j, hj, rfl⟩ := List.getElem?_eq_some_iff.mp h
    simp [leafAt, stamp_index, PlanLeaf.blank]
  · intro leaf h
    obtain ⟨i, hi, rfl⟩ := List.mem_map.mp h
    obtain ⟨c, hc, -, hca⟩ := leafAt_carries hd hn hfit (List.mem_range.mp hi)
    refine ⟨c, ⟨hc, hca⟩, ?_⟩
    rintro c' ⟨hc', hca'⟩
    exact Carries.unique hd hc' hc hca' hca
  · intro c hc
    have hlt := value_lt hc.digits_below
    have hcar := (leafAt_carries_iff hd hn hfit hc hlt).mpr rfl
    refine ⟨value (bases axes probs pars) c.digits, ⟨_, ?_, hcar⟩, ?_⟩
    · simp [hlt]
    · rintro i ⟨leaf, hl, hca⟩
      obtain ⟨hi, rfl⟩ := List.getElem?_eq_some_iff.mp hl
      simp only [List.length_map, List.length_range] at hi
      simp only [List.getElem_map, List.getElem_range] at hca
      exact (leafAt_carries_iff hd hn hfit hc hi).mp hca
  · have hpos : 0 < (bases axes probs pars).prod := List.prod_pos (bases_pos hd)
    refine ⟨leafAt axes probs pars 0, by simp [hpos], ?_⟩
    unfold leafAt
    rw [← zero_digits]
    exact stamp_carries hd hn hfit (zero_valid hd) 0

/-- One axis of each kind, and a parallel() call that keeps one interleaving. -/
theorem one_axis_of_each_kind_gives_sixteen_leaves :
    ∃ leaves, enumerateLeaves [⟨"retries", [0, 3]⟩] [⟨"wal", 2⟩]
        [⟨"spec.star:8", 2, .all⟩, ⟨"spec.star:9", 3, .single⟩] = some leaves ∧
      leaves.length = 16 ∧
      IsCrossProduct [⟨"retries", [0, 3]⟩] [⟨"wal", 2⟩]
        [⟨"spec.star:8", 2, .all⟩, ⟨"spec.star:9", 3, .single⟩] leaves := by
  apply named_axes_give_the_cross_product
  · refine ⟨?_, ?_, ?_, ?_, ?_⟩ <;> decide
  · refine ⟨?_, ?_, ?_⟩ <;> decide
  · decide

/-- A probability site with an empty key doubles the leaves but pins nothing:
no leaf carries the vector in which it fires. -/
theorem a_site_without_a_key_is_not_enumerated :
    Distinct ([] : List (ChoiceVal Nat)) [⟨"", 1⟩] [] ∧
      (bases ([] : List (ChoiceVal Nat)) [⟨"", 1⟩] []).prod < 2 ^ 63 ∧
      ¬ ∃ leaves, enumerateLeaves ([] : List (ChoiceVal Nat)) [⟨"", 1⟩] [] = some leaves ∧
        IsCrossProduct ([] : List (ChoiceVal Nat)) [⟨"", 1⟩] [] leaves := by
  refine ⟨?_, by decide, ?_⟩
  · refine ⟨?_, ?_, ?_, ?_, ?_⟩ <;> decide
  · rintro ⟨leaves, hl, hc⟩
    have htwo : leaves = [.blank 0, .blank 1] := Option.some.inj hl.symm
    have hv : Combination.Valid ([] : List (ChoiceVal Nat)) [⟨"", 1⟩] [] ⟨[], [[true]], []⟩ :=
      ⟨.nil, .cons rfl .nil, .nil⟩
    obtain ⟨i, ⟨leaf, hle, hca⟩, -⟩ := hc.complete _ hv
    have hmem : leaf ∈ [PlanLeaf.blank 0, .blank 1] := htwo ▸ List.mem_of_getElem? hle
    have hn : leaf.probabilityOutcomes.lookup "" = none := by
      simp only [List.mem_cons, List.not_mem_nil, or_false] at hmem
      rcases hmem with rfl | rfl <;> rfl
    have hs := hca.outcomes ""
    rw [hn] at hs
    simp at hs

end faultbox.plan_tree
