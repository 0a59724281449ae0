-- The order in which the services of a topology start: DependencyOrder visits them by their
-- depends_on entries, with marks for the services on the way and the services done.
-- The law: where every entry names a service, the call fails exactly on a cycle, and otherwise
-- every service is in the list once, behind the services it depends on, whatever the order of
-- the map.
import Faultbox.GoValues
import Faultbox.GoText
import Faultbox.DepthFirst

open goval gopath depthfirst Relation

namespace faultbox.start_order

/-! ## The source -/

abbrev Name : Type := Bytes

structure ServiceConfig where
  dependsOn : List Name

abbrev Services : Type := GoMap Name ServiceConfig

/-- The three variables that the visits share. -/
structure Marks where
  visited : List Name
  visiting : List Name
  order : List Name

inductive Failure where
  | message (text : Bytes)
  | fuel
deriving DecidableEq

def circular (quote : Name → Bytes) (name : Name) : Failure :=
  .message (bytes "circular dependency involving " ++ quote name)

/-- A name that is no service has the zero value. -/
def dependenciesOf (services : Services) (name : Name) : List Name :=
  match services.lookup name with
  | some svc => svc.dependsOn
  | none => []

section source

variable (quote : Name → Bytes) (services : Services)

def visit : Nat → Marks → Name → Except Failure Marks
  | 0, _, _ => .error .fuel
  | fuel + 1, m, name =>
    if name ∈ m.visited then .ok m
    else if name ∈ m.visiting then .error (circular quote name)
    else
      match (dependenciesOf services name).foldlM (visit fuel)
          { m with visiting := name :: m.visiting } with
      | .error err => .error err
      | .ok m => .ok {
          visiting := m.visiting.erase name
          visited := m.visited ++ [name]
          order := m.order ++ [name] }

def dependencyOrder (range : MapOrder) : Except Failure (List Name) :=
  let start := (range.order services.keys).foldlM (visit quote services (services.keys.length + 1))
    ⟨[], [], []⟩
  match start with
  | .error err => .error err
  | .ok m => .ok m.order

end source

/-! ## What it is for -/

def DependsOn (services : Services) (a b : Name) : Prop := b ∈ dependenciesOf services a

/-- Some service depends on itself through others. -/
def HasCycle (services : Services) : Prop :=
  ∃ name ∈ services, TransGen (DependsOn services) name name

structure Starts (services : Services) (order : List Name) : Prop where
  once : order.Nodup
  all : ∀ name, name ∈ order ↔ name ∈ services
  after : ∀ before name rest, order = before ++ name :: rest →
    ∀ dep, DependsOn services name dep → dep ∈ before

/-! ## The marks of a search -/

section search

variable (quote : Name → Bytes) {services : Services}

/-- The services done are those of the list, the services on the way are those of the path. -/
def marksOf (path done : List Name) : Marks := ⟨done, path, done⟩

def failureOf : Stop Name → Failure
  | .cycle name => circular quote name
  | .fuel => .fuel

def standing (path : List Name) : Except (Stop Name) (List Name) → Except Failure Marks
  | .error e => .error (failureOf quote e)
  | .ok done => .ok (marksOf path done)

theorem foldlM_standing {path : List Name} {f : Marks → Name → Except Failure Marks}
    {g : List Name → Name → Except (Stop Name) (List Name)}
    (hfg : ∀ done name, f (marksOf path done) name = standing quote path (g done name))
    (names done : List Name) :
    names.foldlM f (marksOf path done) = standing quote path (names.foldlM g done) := by
  induction names generalizing done with
  | nil => rfl
  | cons name rest ih =>
    rw [List.foldlM_cons, List.foldlM_cons, hfg]
    cases g done name with
    | error e => rfl
    | ok done' => exact ih done'

/-- A visit is one of a strict search. -/
theorem visit_eq (fuel : Nat) (path done : List Name) (name : Name) :
    visit quote services fuel (marksOf path done) name =
      standing quote path
        (depthfirst.visit true (dependenciesOf services) fuel path done name) := by
  induction fuel generalizing path done name with
  | zero => rfl
  | succ fuel ih =>
    unfold visit depthfirst.visit
    by_cases hd : name ∈ done
    · simp [marksOf, standing, hd]
    · by_cases hp : name ∈ path
      · simp [marksOf, standing, failureOf, hd, hp]
      · have hfold := foldlM_standing quote (ih (name :: path)) (dependenciesOf services name) done
        simp only [marksOf] at hfold ⊢
        simp only [hd, hp, if_false, hfold]
        cases (dependenciesOf services name).foldlM
            (depthfirst.visit true (dependenciesOf services) fuel (name :: path)) done with
        | error e => rfl
        | ok done' => simp [standing, marksOf]

theorem dependencyOrder_eq (range : MapOrder) :
    dependencyOrder quote services range =
      match sort true (dependenciesOf services) (services.keys.length + 1)
          (range.order services.keys) with
      | .error e => .error (failureOf quote e)
      | .ok order => .ok order := by
  unfold dependencyOrder sort
  have hfold := foldlM_standing quote
    (@visit_eq quote services (services.keys.length + 1) []) (range.order services.keys) []
  simp only [marksOf] at hfold
  simp only [hfold]
  cases (range.order services.keys).foldlM
      (depthfirst.visit true (dependenciesOf services) (services.keys.length + 1) []) [] with
  | error e => rfl
  | ok done => rfl

end search

/-! ## The law -/

/-- Every entry names a service. -/
def Known (services : Services) : Prop :=
  ∀ name ∈ services, ∀ dep, DependsOn services name dep → dep ∈ services

theorem starts_or_cycle (quote : Name → Bytes) {services : Services} (hk : Known services)
    (range : MapOrder) :
    (∃ order, dependencyOrder quote services range = .ok order ∧ Starts services order) ∨
      ∃ name ∈ services, dependencyOrder quote services range = .error (circular quote name) ∧
        TransGen (DependsOn services) name name := by
  have hperm := range.perm services.keys
  have hclosed : ∀ x ∈ services.keys, ∀ y ∈ dependenciesOf services x, y ∈ services.keys :=
    fun x hx y hy => AList.mem_keys.mp (hk x (AList.mem_keys.mpr hx) y hy)
  rw [dependencyOrder_eq]
  cases hs : sort true (dependenciesOf services) (services.keys.length + 1)
      (range.order services.keys) with
  | error e =>
    obtain ⟨-, name, hn, rfl, hc⟩ := sort_error hclosed hperm.subset (Nat.lt_succ_self _) hs
    exact .inr ⟨name, AList.mem_keys.mpr hn, rfl, hc⟩
  | ok order =>
    refine .inl ⟨order, rfl, sort_nodup hs, ?_, sort_ordered (fun _ _ hd => hd) (by simp) hs⟩
    intro name
    rw [AList.mem_keys]
    exact ⟨fun h => sort_subset hclosed hperm.subset hs h,
      fun h => subset_sort hs (hperm.mem_iff.mpr h)⟩

theorem Starts.acyclic {services : Services} {order : List Name} (h : Starts services order) :
    ¬HasCycle services := by
  rintro ⟨name, hn, hc⟩
  exact Ordered.acyclic h.after ((h.all name).mpr hn) hc

/-- `DependencyOrder` fails exactly on a cycle, and names a service of one. Otherwise it lists
every service once, behind the services it depends on. -/
theorem services_start_in_order (quote : Name → Bytes) (services : Services)
    (hk : Known services) (range : MapOrder) :
    ((∃ err, dependencyOrder quote services range = .error err) ↔ HasCycle services) ∧
      (HasCycle services → ∃ name ∈ services,
        dependencyOrder quote services range = .error (circular quote name)) ∧
      (¬HasCycle services →
        ∃ order, dependencyOrder quote services range = .ok order ∧ Starts services order) := by
  rcases starts_or_cycle quote hk range with ⟨order, ho, hst⟩ | ⟨name, hn, he, hc⟩
  · refine ⟨⟨?_, fun h => absurd h hst.acyclic⟩, fun h => absurd h hst.acyclic,
      fun _ => ⟨order, ho, hst⟩⟩
    rintro ⟨err, he⟩
    rw [ho] at he
    cases he
  · have hcyc : HasCycle services := ⟨name, hn, hc⟩
    exact ⟨⟨fun _ => hcyc, fun _ => ⟨_, he⟩⟩, fun _ => ⟨name, hn, he⟩, fun h => absurd hcyc h⟩

/-- An API in front of a database. -/
def shop : Services :=
  storeAll ∅ [(bytes "api", ⟨[bytes "db"]⟩), (bytes "db", ⟨[]⟩)]

theorem shop_starts_database_first :
    Known shop ∧ dependencyOrder id shop .asStored = .ok [bytes "db", bytes "api"] ∧
      ((∃ err, dependencyOrder id shop .asStored = .error err) ↔ HasCycle shop) := by
  have hk : Known shop := by
    intro name hn dep hd
    have hmem : ∀ n ∈ shop.keys, ∀ d ∈ dependenciesOf shop n, d ∈ shop.keys := by decide
    exact AList.mem_keys.mpr (hmem name (AList.mem_keys.mp hn) dep hd)
  exact ⟨hk, by decide, (services_start_in_order id shop hk .asStored).1⟩

end faultbox.start_order
