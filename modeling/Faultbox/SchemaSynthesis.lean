-- Placeholder bodies from a schema (synthesizeFromSchema). A document's schemas are nodes that
-- refer to each other, as the loader leaves them. The law: the synthesis returns just when no
-- schema that it can come to leads back to itself, where a default, an example or another type
-- than object and array ends the way.
import Faultbox.GoValues
import Mathlib.Data.Fintype.Order
import Mathlib.Logic.Relation

open goval Relation

namespace faultbox.schema_synthesis

variable {ν α : Type}

/-! ## synthesizeFromSchema -/

/-- `openapi3.Schema`: a reference is a node, or `none` when it or its value is nil. -/
structure Schema (ν α : Type) where
  defaultValue : Option α
  exampleValue : Option α
  types : List String
  items : Option ν
  properties : GoMap String (Option ν)

def Schema.is (s : Schema ν α) (typ : String) : Bool := s.types = [typ]

inductive Value (α : Type) where
  | given (v : α)
  | nil
  | emptyString
  | zero
  | no
  | list (elems : List (Value α))
  | object (fields : List (String × Value α))

/-- The value, or `none` while it is still under way after `fuel` nested calls. -/
def synthesizeFromSchema (doc : ν → Schema ν α) : Nat → Option ν → Option (Value α)
  | _, none => some .nil
  | 0, some _ => none
  | fuel + 1, some node =>
    let s := doc node
    match s.defaultValue.or s.exampleValue with
    | some v => some (.given v)
    | none =>
      if s.is "string" then some .emptyString
      else if s.is "number" || s.is "integer" then some .zero
      else if s.is "boolean" then some .no
      else if s.is "array" then
        match s.items with
        | none => some (.list [])
        | some items => (synthesizeFromSchema doc fuel (some items)).map fun v => .list [v]
      else if s.is "object" then
        ((pairs s.properties).mapM fun p =>
          (synthesizeFromSchema doc fuel p.2).map fun v => (p.1, v)).map .object
      else some (.object [])

/-- The call asks for the schema of `child`. -/
def Asks (doc : ν → Schema ν α) (child node : ν) : Prop :=
  (doc node).defaultValue = none ∧ (doc node).exampleValue = none ∧
    ((doc node).is "array" = true ∧ (doc node).items = some child ∨
      (doc node).is "object" = true ∧ ∃ name, (doc node).properties.lookup name = some (some child))

/-! ## One call -/

section calls

variable {doc : ν → Schema ν α} {fuel : Nat} {node : ν}

theorem isSome_mapM {β γ : Type} (f : β → Option γ) (l : List β) :
    (l.mapM f).isSome = true ↔ ∀ x ∈ l, (f x).isSome = true := by
  induction l with
  | nil => simp
  | cons x l ih =>
    rw [List.forall_mem_cons, ← ih, List.mapM_cons]
    cases f x <;> cases l.mapM f <;> simp

theorem Schema.is_iff {s : Schema ν α} {typ : String} : s.is typ = true ↔ s.types = [typ] :=
  decide_eq_true_iff

/-- A schema of another type asks for nothing. -/
theorem not_asks_of_type {typ : String} (h : (doc node).is typ = true) (ha : typ ≠ "array")
    (ho : typ ≠ "object") (child : ν) : ¬ Asks doc child node := by
  rw [Schema.is_iff] at h
  rintro ⟨-, -, hk⟩
  rw [Schema.is_iff, Schema.is_iff, h] at hk
  obtain ⟨hk, -⟩ | ⟨hk, -⟩ := hk
  · exact ha (List.singleton_inj.mp hk)
  · exact ho (List.singleton_inj.mp hk)

theorem returns_items (hn : (doc node).defaultValue = none ∧ (doc node).exampleValue = none)
    (ha : (doc node).is "array" = true) :
    (match (doc node).items with
      | none => some (Value.list [])
      | some items => (synthesizeFromSchema doc fuel (some items)).map
          fun v => Value.list [v]).isSome = true ↔
    ∀ child, Asks doc child node → (synthesizeFromSchema doc fuel (some child)).isSome = true := by
  have ho : (doc node).is "object" = false := by
    rw [Schema.is_iff] at ha
    rw [Bool.eq_false_iff, Ne, Schema.is_iff, ha]
    decide
  have hk (child : ν) : Asks doc child node ↔ (doc node).items = some child := by
    simp [Asks, hn, ha, ho]
  simp only [hk]
  cases (doc node).items with
  | none => simp
  | some items => simp

theorem returns_properties (hn : (doc node).defaultValue = none ∧ (doc node).exampleValue = none)
    (ho : (doc node).is "object" = true) :
    (((pairs (doc node).properties).mapM fun p =>
      (synthesizeFromSchema doc fuel p.2).map fun v => (p.1, v)).map Value.object).isSome = true ↔
    ∀ child, Asks doc child node → (synthesizeFromSchema doc fuel (some child)).isSome = true := by
  have ha : (doc node).is "array" = false := by
    rw [Schema.is_iff] at ho
    rw [Bool.eq_false_iff, Ne, Schema.is_iff, ho]
    decide
  have hk (child : ν) : Asks doc child node ↔
      ∃ name, (doc node).properties.lookup name = some (some child) := by
    simp [Asks, hn, ha, ho]
  rw [Option.isSome_map, isSome_mapM]
  simp only [hk, Option.isSome_map]
  constructor
  · rintro h child ⟨name, hl⟩
    exact h (name, some child) (mem_pairs.mpr hl)
  · rintro h ⟨name, child | child⟩ hp
    · cases fuel <;> rfl
    · exact h child ⟨name, mem_pairs.mp hp⟩

/-- A call returns when those do that it makes. -/
theorem returns_succ : (synthesizeFromSchema doc (fuel + 1) (some node)).isSome = true ↔
    ∀ child, Asks doc child node → (synthesizeFromSchema doc fuel (some child)).isSome = true := by
  rw [synthesizeFromSchema]
  split
  · rename_i v hv
    refine iff_of_true rfl fun child hk => ?_
    rw [hk.1, hk.2.1] at hv
    cases hv
  · rename_i hv
    have hn := Option.or_eq_none_iff.mp hv
    split_ifs with h1 h2 h3 h4 h5
    · exact iff_of_true rfl fun c hk => absurd hk (not_asks_of_type h1 (by decide) (by decide) c)
    · refine iff_of_true rfl fun c hk => ?_
      obtain h2 | h2 := Bool.or_eq_true_iff.mp h2
      · exact absurd hk (not_asks_of_type h2 (by decide) (by decide) c)
      · exact absurd hk (not_asks_of_type h2 (by decide) (by decide) c)
    · exact iff_of_true rfl fun c hk => absurd hk (not_asks_of_type h3 (by decide) (by decide) c)
    · exact returns_items hn h4
    · exact returns_properties hn h5
    · refine iff_of_true rfl fun c hk => ?_
      obtain ⟨ha, -⟩ | ⟨ho, -⟩ := hk.2.2
      · exact absurd ha h4
      · exact absurd ho h5

theorem returns_mono {fuel' : Nat} (hle : fuel ≤ fuel')
    (h : (synthesizeFromSchema doc fuel (some node)).isSome = true) :
    (synthesizeFromSchema doc fuel' (some node)).isSome = true := by
  induction fuel generalizing fuel' node with
  | zero => cases h
  | succ n ih =>
    obtain ⟨m, rfl⟩ : ∃ m, fuel' = m + 1 := ⟨fuel' - 1, by omega⟩
    rw [returns_succ] at h ⊢
    exact fun child hk => ih (by omega) (h child hk)

end calls

/-! ## The law -/

/-- A node of a finite graph is at the top of finite ways only, unless a cycle lies below it. -/
theorem acc_iff_no_cycle [Finite ν] {R : ν → ν → Prop} {s : ν} :
    Acc R s ↔ ¬ ∃ t, ReflTransGen R t s ∧ TransGen R t t := by
  constructor
  · rintro h ⟨t, hts, ht⟩
    have hacc : Acc (TransGen R) t := by
      rw [acc_transGen_iff]
      induction hts with
      | refl => exact h
      | tail _ hr ih => exact ih (h.inv hr)
    induction hacc with
    | intro x _ ih => exact ih x ht hts ht
  · intro hc
    let below := { t // ReflTransGen R t s }
    let under : below → below → Prop := fun a b => TransGen R a.1 b.1
    have : IsTrans below under := ⟨fun _ _ _ => TransGen.trans⟩
    have : Std.Irrefl under := ⟨fun a ha => hc ⟨a.1, a.2, ha⟩⟩
    have hwf := Finite.wellFounded_of_trans_of_irrefl under
    have hacc (a : below) : Acc R a.1 := by
      induction hwf.apply a with
      | intro a _ ih =>
        refine ⟨a.1, fun u hu => ?_⟩
        exact ih ⟨u, .head hu a.2⟩ (.single hu)
    exact hacc ⟨s, .refl⟩

section law

variable {doc : ν → Schema ν α}

theorem acc_of_returns {fuel : Nat} {node : ν}
    (h : (synthesizeFromSchema doc fuel (some node)).isSome = true) : Acc (Asks doc) node := by
  induction fuel generalizing node with
  | zero => cases h
  | succ n ih => exact ⟨node, fun child hk => ih (returns_succ.mp h child hk)⟩

theorem returns_of_acc [Finite ν] {node : ν} (h : Acc (Asks doc) node) :
    ∃ fuel, (synthesizeFromSchema doc fuel (some node)).isSome = true := by
  induction h with
  | intro node _ ih =>
    have hf (child : ν) : ∃ fuel, Asks doc child node →
        (synthesizeFromSchema doc fuel (some child)).isSome = true := by
      by_cases hk : Asks doc child node
      · obtain ⟨fuel, h⟩ := ih child hk
        exact ⟨fuel, fun _ => h⟩
      · exact ⟨0, fun h => absurd h hk⟩
    choose fuel hf using hf
    obtain ⟨most, hm⟩ := (Set.finite_range fuel).bddAbove
    refine ⟨most + 1, returns_succ.mpr fun child hk => ?_⟩
    exact returns_mono (hm ⟨child, rfl⟩) (hf child hk)

end law

/-- The schemas of a document, in some order. -/
structure Doc (α : Type) where
  size : Nat
  schemas : Fin size → Schema (Fin size) α

def Doc.Returns (doc : Doc α) (r : Option (Fin doc.size)) : Prop :=
  ∃ fuel v, synthesizeFromSchema doc.schemas fuel r = some v

/-- Some schema that the call can come to asks, over any number of calls, for itself. -/
def Doc.Cyclic (doc : Doc α) (node : Fin doc.size) : Prop :=
  ∃ t, ReflTransGen (Asks doc.schemas) t node ∧ TransGen (Asks doc.schemas) t t

/-- The law of the synthesis. -/
theorem synthesis_returns_iff (doc : Doc α) (r : Option (Fin doc.size)) :
    doc.Returns r ↔ ∀ node, r = some node → ¬ doc.Cyclic node := by
  cases r with
  | none => exact iff_of_true ⟨0, .nil, rfl⟩ fun node h => (by cases h)
  | some node =>
    have hn : (∀ s, some node = some s → ¬ doc.Cyclic s) ↔ Acc (Asks doc.schemas) node := by
      rw [acc_iff_no_cycle]
      exact ⟨fun h => h node rfl, fun h s hs => Option.some.inj hs ▸ h⟩
    rw [hn]
    constructor
    · rintro ⟨fuel, v, h⟩
      exact acc_of_returns (Option.isSome_iff_exists.mpr ⟨v, h⟩)
    · intro h
      obtain ⟨fuel, hf⟩ := returns_of_acc h
      exact ⟨fuel, Option.isSome_iff_exists.mp hf⟩

/-- A list node: an object whose property `next` is another such node. -/
def linked : Doc Unit := ⟨1, fun _ => ⟨none, none, ["object"], none, storeAll ∅ [("next", some 0)]⟩⟩

def linkedNode : Fin linked.size := (0 : Fin 1)

theorem linked_never_returns : ¬ linked.Returns (some linkedNode) := by
  have h (fuel : Nat) : synthesizeFromSchema linked.schemas fuel (some linkedNode) = none := by
    induction fuel with
    | zero => rfl
    | succ n ih =>
      have hs : Asks linked.schemas linkedNode linkedNode := ⟨rfl, rfl, .inr ⟨rfl, "next", rfl⟩⟩
      rw [← Option.not_isSome_iff_eq_none, returns_succ]
      intro hr
      have h0 := hr linkedNode hs
      rw [ih] at h0
      cases h0
  rintro ⟨fuel, v, hv⟩
  rw [h fuel] at hv
  cases hv

end faultbox.schema_synthesis
