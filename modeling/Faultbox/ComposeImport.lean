-- Services of a compose file: Parse gives every one a name that is an identifier, a protocol, a
-- port and its dependencies, and sorts them by depth-first search.
-- The law: every service of the file is in the list once, and behind those it depends on if
-- there is no cycle. The sort goes by the rewritten names, so it takes that no two services
-- become one name, and no entry that names no service closes a cycle.
import Faultbox.GoValues
import Faultbox.GoText
import Faultbox.Rewriting
import Faultbox.DepthFirst
import Mathlib.Data.Finmap
import Mathlib.Data.List.Sort

open goval gopath gotext rewriting Relation

namespace faultbox.compose

/-! ## The file -/

abbrev Name : Type := Bytes

/-- A value that YAML has as a list or as a mapping: the strings of a list (`none` for an item
that is no string), or the members of a mapping. -/
inductive Listing (V : Type) where
  | list (items : List (Option Bytes))
  | mapping (members : GoMap Bytes V)
  | other

structure ComposeService (V : Type) where
  image : Bytes
  ports : List Bytes
  dependsOn : Listing V
  environment : Listing V

structure ComposeFile (V : Type) where
  services : GoMap Name (ComposeService V)

inductive Protocol where
  | postgres
  | mysql
  | redis
  | mongodb
  | kafka
  | nats
  | amqp
  | memcached
  | http
  | grpc
  | tcp
deriving DecidableEq

structure Service where
  name : Name
  image : Bytes
  protocol : Protocol
  port : Int
  dependsOn : List Name
  env : Finmap fun _ : Bytes => Bytes
  healthcheck : Bytes
deriving DecidableEq

/-! ## Helpers of the parser -/

/-- What the package takes from others: `strings.ToLower`, and the verbs `%v` and `%q`. -/
structure Lib (V : Type) where
  toLower : Bytes → Bytes
  sprint : V → Bytes
  quote : Bytes → Bytes

def portProtocol : List (Int × Protocol) :=
  [(5432, .postgres), (3306, .mysql), (6379, .redis), (27017, .mongodb), (9092, .kafka),
    (4222, .nats), (5672, .amqp), (11211, .memcached), (80, .http), (443, .http), (8080, .http),
    (8000, .http), (3000, .http), (9090, .http), (50051, .grpc)]

def imageProtocol : List (Bytes × Protocol) :=
  [(bytes "postgres", .postgres), (bytes "mysql", .mysql), (bytes "mariadb", .mysql),
    (bytes "redis", .redis), (bytes "valkey", .redis), (bytes "mongo", .mongodb),
    (bytes "mongodb", .mongodb), (bytes "kafka", .kafka), (bytes "nats", .nats),
    (bytes "rabbitmq", .amqp), (bytes "memcached", .memcached), (bytes "nginx", .http),
    (bytes "envoy", .http), (bytes "traefik", .http)]

/-- Both tables are maps of the source, and the loops over them end at the first hit. -/
def detectProtocol {V : Type} (lib : Lib V) (range : MapOrder) (image : Bytes) (port : Int) :
    Protocol :=
  let img := lib.toLower image
  match (range.order imageProtocol).find? fun e => decide (e.1 <:+: img) with
  | some e => e.2
  | none =>
    match portProtocol.lookup port with
    | some proto => proto
    | none => if 0 < port then .http else .tcp

def defaultPort (range : MapOrder) (protocol : Protocol) : Int :=
  match (range.order portProtocol).find? fun e => e.2 = protocol with
  | some e => e.1
  | none => 8080

def generateHealthcheck (protocol : Protocol) (port : Int) : Bytes :=
  match protocol with
  | .http => bytes "http(\"localhost:" ++ number port ++ bytes "/health\")"
  | _ => bytes "tcp(\"localhost:" ++ number port ++ bytes "\")"

def parsePort (portSpec : Bytes) : Int :=
  let portStr := match portSpec.splitOn 58 with
    | [_, container] => container
    | parts => parts.headD []
  (atoi ((portStr.splitOn slash).headD [])).1

def sanitizeName (name : Name) : Name := replaceAll [46] [95] (replaceAll [45] [95] name)

def parseDependsOn {V : Type} (range : MapOrder) : Listing V → List Name
  | .list items => items.reduceOption.map sanitizeName
  | .mapping members => ((range.order members.keys).map sanitizeName).insertionSort (· ≤ ·)
  | .other => []

def envItem (item : Bytes) : Option (Bytes × Bytes) :=
  match splitN 61 2 item with
  | [key, value] => some (key, value)
  | _ => none

def parseEnv {V : Type} (lib : Lib V) (range : MapOrder) :
    Listing V → Finmap fun _ : Bytes => Bytes
  | .list items => (storeAll ∅ (items.reduceOption.filterMap envItem)).toFinmap
  | .mapping members =>
    (storeAll ∅ ((range.order (pairs members)).map fun e => (e.1, lib.sprint e.2))).toFinmap
  | .other => ∅

/-! ## The sort -/

structure Visits where
  visited : List Name
  result : List Service

/-- `nameMap` as a function. A name that is no service is marked and nothing else. -/
def visit (nameMap : Name → Option Service) : Nat → Visits → Name → Option Visits
  | 0, _, _ => none
  | fuel + 1, v, name =>
    if name ∈ v.visited then some v
    else
      let v := { v with visited := name :: v.visited }
      match nameMap name with
      | none => some v
      | some svc =>
        match svc.dependsOn.foldlM (visit nameMap fuel) v with
        | none => none
        | some v => some { v with result := v.result ++ [svc] }

def nameMap (services : List Service) (name : Name) : Option Service :=
  (storeAll ∅ (services.map fun svc => (svc.name, svc))).lookup name

/-- More than the visits that can be open at once. -/
def depth (services : List Service) : Nat :=
  (services.map Service.name ++ services.flatMap Service.dependsOn).length + 1

def topoSort (services : List Service) : Option (List Service) :=
  let names := (services.map Service.name).insertionSort (· ≤ ·)
  (names.foldlM (visit (nameMap services) (depth services)) ⟨[], []⟩).map Visits.result

/-! ## The parser -/

/-- The orders of the loops over maps: over the services, and for every service over the tables
and over its own mappings. -/
structure Ranges where
  services : MapOrder
  within : Name → MapOrder

def imageOf {V : Type} (name : Name) (cs : ComposeService V) : Bytes :=
  if cs.image = [] then name ++ bytes ":latest" else cs.image

/-- The first port of the list, 0 for none. -/
def exposedPort {V : Type} (cs : ComposeService V) : Int :=
  match cs.ports with
  | [] => 0
  | first :: _ => parsePort first

/-- One turn of the loop over the services. -/
def serviceOf {V : Type} (lib : Lib V) (ranges : Ranges) (entry : Name × ComposeService V) :
    Service :=
  let (name, cs) := entry
  let range := ranges.within name
  let image := imageOf name cs
  let protocol := detectProtocol lib range image (exposedPort cs)
  let port := if exposedPort cs = 0 then defaultPort range protocol else exposedPort cs
  { name := sanitizeName name
    image := image
    protocol := protocol
    port := port
    dependsOn := parseDependsOn range cs.dependsOn
    env := parseEnv lib range cs.environment
    healthcheck := generateHealthcheck protocol port }

inductive Failure where
  | noServices
  | fuel
deriving DecidableEq

def parse {V : Type} (lib : Lib V) (ranges : Ranges) (file : ComposeFile V) :
    Except Failure (List Service) :=
  if file.services.keys = [] then .error .noServices
  else
    match topoSort ((ranges.services.order (pairs file.services)).map (serviceOf lib ranges)) with
    | none => .error .fuel
    | some services => .ok services

/-! ## The sort as a search -/

section sort

variable {services : List Service}

def dependenciesOf (services : List Service) (name : Name) : List Name :=
  match nameMap services name with
  | some svc => svc.dependsOn
  | none => []

/-- The marks and the list of the source, in terms of the path and the nodes of a search. -/
structure Agrees (services : List Service) (path done : List Name) (v : Visits) : Prop where
  marks : ∀ name, name ∈ v.visited ↔ name ∈ path ∨ name ∈ done
  listed : v.result = done.filterMap (nameMap services)

theorem foldlM_agrees {path names done done' : List Name} {v : Visits}
    {f : List Name → Name → Except (depthfirst.Stop Name) (List Name)}
    (g : Visits → Name → Option Visits) (h : names.foldlM f done = .ok done')
    (hv : Agrees services path done v)
    (hfg : ∀ done name done' v, f done name = .ok done' → Agrees services path done v →
      ∃ v', g v name = some v' ∧ Agrees services path done' v') :
    ∃ v', names.foldlM g v = some v' ∧ Agrees services path done' v' := by
  induction names generalizing done v with
  | nil =>
    cases h
    exact ⟨v, rfl, hv⟩
  | cons name rest ih =>
    obtain ⟨mid, hm, h⟩ := depthfirst.foldlM_cons_ok h
    obtain ⟨w, hw, hvw⟩ := hfg done name mid v hm hv
    obtain ⟨v', hv', hag⟩ := ih h hvw
    refine ⟨v', ?_, hag⟩
    rw [List.foldlM_cons, hw]
    exact hv'

theorem visit_agrees {fuel : Nat} {path done done' : List Name} {name : Name} {v : Visits}
    (h : depthfirst.visit false (dependenciesOf services) fuel path done name = .ok done')
    (hv : Agrees services path done v) :
    ∃ v', visit (nameMap services) fuel v name = some v' ∧ Agrees services path done' v' := by
  induction fuel generalizing path done done' name v with
  | zero => cases h
  | succ fuel ih =>
    unfold visit
    rcases depthfirst.visit_cases h with ⟨hd, rfl⟩ | ⟨hp, -, rfl⟩ | ⟨hd, hp, mid, hm, rfl⟩
    · rw [if_pos ((hv.marks name).mpr (.inr hd))]
      exact ⟨v, rfl, hv⟩
    · rw [if_pos ((hv.marks name).mpr (.inl hp))]
      exact ⟨v, rfl, hv⟩
    · have hnot : name ∉ v.visited := by
        rw [hv.marks]
        exact not_or.mpr ⟨hp, hd⟩
      rw [if_neg hnot]
      have hopen : Agrees services (name :: path) done { v with visited := name :: v.visited } :=
        ⟨fun n => by simp [hv.marks n, or_assoc], hv.listed⟩
      have hclose : ∀ w, Agrees services (name :: path) mid w → ∀ n,
          n ∈ w.visited ↔ n ∈ path ∨ n ∈ mid ++ [name] := by
        intro w hw n
        rw [hw.marks n]
        simp only [List.mem_cons, List.mem_append, List.not_mem_nil, or_false]
        tauto
      cases hs : nameMap services name with
      | none =>
        have hnone : dependenciesOf services name = [] := by simp [dependenciesOf, hs]
        rw [hnone] at hm
        cases hm
        exact ⟨_, rfl, hclose _ hopen, by simp [hv.listed, hs]⟩
      | some svc =>
        have hsome : dependenciesOf services name = svc.dependsOn := by simp [dependenciesOf, hs]
        rw [hsome] at hm
        obtain ⟨w, hw, hag⟩ := foldlM_agrees (visit (nameMap services) fuel) hm hopen
          fun _ _ _ _ hstep hag => ih hstep hag
        simp only [hw]
        exact ⟨_, rfl, hclose w hag, by simp [hag.listed, hs]⟩

/-- Services under one name are one service. -/
def Keyed (services : List Service) : Prop :=
  ∀ s ∈ services, ∀ t ∈ services, s.name = t.name → s = t

theorem Keyed.of_nodup (hn : (services.map Service.name).Nodup) : Keyed services :=
  fun _ hs _ ht => List.inj_on_of_nodup_map hn hs ht

theorem nameMap_eq_some (hk : Keyed services) {name : Name} {svc : Service} :
    nameMap services name = some svc ↔ svc ∈ services ∧ svc.name = name := by
  have hkeys : (services.map fun s => (s.name, s)).map Prod.fst = services.map Service.name := by
    simp [Function.comp_def]
  have hfound : ∀ s ∈ services, nameMap services s.name = some s := by
    intro s hs
    have hmem : s.name ∈ (services.map fun s => (s.name, s)).map Prod.fst := by
      rw [hkeys]
      exact List.mem_map_of_mem hs
    obtain ⟨t, ht, hl⟩ := lookup_storeAll_of_mem ∅ hmem
    obtain ⟨u, hu, he⟩ := List.mem_map.mp ht
    obtain ⟨hname, rfl⟩ := Prod.mk.inj he
    unfold nameMap
    rw [hl, hk u hu s hs hname]
  refine ⟨?_, fun h => h.2 ▸ hfound svc h.1⟩
  intro h
  by_cases hmem : name ∈ (services.map fun s => (s.name, s)).map Prod.fst
  · rw [hkeys] at hmem
    obtain ⟨s, hs, rfl⟩ := List.mem_map.mp hmem
    rw [hfound s hs] at h
    cases h
    exact ⟨hs, rfl⟩
  · unfold nameMap at h
    rw [lookup_storeAll_of_notMem ∅ hmem] at h
    cases h

theorem mem_dependenciesOf (hn : (services.map Service.name).Nodup) {name dep : Name} :
    dep ∈ dependenciesOf services name ↔
      ∃ svc ∈ services, svc.name = name ∧ dep ∈ svc.dependsOn := by
  unfold dependenciesOf
  cases hs : nameMap services name with
  | none =>
    refine ⟨by simp, ?_⟩
    rintro ⟨svc, hsvc, hname, -⟩
    rw [(nameMap_eq_some (.of_nodup hn)).mpr ⟨hsvc, hname⟩] at hs
    cases hs
  | some svc =>
    obtain ⟨hsvc, hname⟩ := (nameMap_eq_some (.of_nodup hn)).mp hs
    refine ⟨fun hd => ⟨svc, hsvc, hname, hd⟩, ?_⟩
    rintro ⟨s, hs', hsn, hd⟩
    rwa [← List.inj_on_of_nodup_map hn hs' hsvc (hsn.trans hname.symm)]

/-- The search behind `topoSort` ends, and gives its list. -/
theorem topoSort_eq (hn : (services.map Service.name).Nodup) :
    ∃ order, depthfirst.sort false (dependenciesOf services) (depth services)
        ((services.map Service.name).insertionSort (· ≤ ·)) = .ok order ∧
      topoSort services = some (order.filterMap (nameMap services)) := by
  have hclosed : ∀ x ∈ services.map Service.name ++ services.flatMap Service.dependsOn,
      ∀ y ∈ dependenciesOf services x,
        y ∈ services.map Service.name ++ services.flatMap Service.dependsOn := by
    intro x _ y hy
    obtain ⟨svc, hs, -, hd⟩ := (mem_dependenciesOf hn).mp hy
    exact List.mem_append_right _ (List.mem_flatMap.mpr ⟨svc, hs, hd⟩)
  have hnames : (services.map Service.name).insertionSort (· ≤ ·) ⊆
      services.map Service.name ++ services.flatMap Service.dependsOn := by
    intro x hx
    exact List.mem_append_left _ ((List.mem_insertionSort _).mp hx)
  cases h : depthfirst.sort false (dependenciesOf services) (depth services)
      ((services.map Service.name).insertionSort (· ≤ ·)) with
  | error e =>
    obtain ⟨hfalse, -⟩ := depthfirst.sort_error hclosed hnames (Nat.lt_succ_self _) h
    cases hfalse
  | ok order =>
    have hstart : Agrees services [] [] ⟨[], []⟩ := ⟨by simp, rfl⟩
    obtain ⟨v, hv, hag⟩ := foldlM_agrees (visit (nameMap services) (depth services)) h hstart
      fun _ _ _ _ hstep hag => visit_agrees hstep hag
    refine ⟨order, rfl, ?_⟩
    unfold topoSort
    simp only [hv, Option.map_some, hag.listed]

/-- Services with different names are all in the list, and behind those they depend on that do
not lead back to them. -/
theorem topoSort_spec (hn : (services.map Service.name).Nodup) :
    ∃ result, topoSort services = some result ∧ result.Perm services ∧
      ∀ before svc rest, result = before ++ svc :: rest →
        ∀ s ∈ services, s.name ∈ svc.dependsOn →
          ¬ReflTransGen (depthfirst.Edge (dependenciesOf services)) s.name svc.name →
            s ∈ before := by
  obtain ⟨order, ho, ht⟩ := topoSort_eq hn
  have hlook : ∀ {name svc}, nameMap services name = some svc ↔ svc ∈ services ∧ svc.name = name :=
    nameMap_eq_some (.of_nodup hn)
  refine ⟨_, ht, ?_, ?_⟩
  · refine (List.perm_ext_iff_of_nodup ?_ (List.Nodup.of_map _ hn)).mpr ?_
    · refine (depthfirst.sort_nodup ho).filterMap ?_
      intro a b svc ha hb
      exact (hlook.mp ha).2.symm.trans (hlook.mp hb).2
    · intro svc
      rw [List.mem_filterMap]
      constructor
      · rintro ⟨name, -, h⟩
        exact (hlook.mp h).1
      · intro h
        refine ⟨svc.name, depthfirst.subset_sort ho ?_, hlook.mpr ⟨h, rfl⟩⟩
        exact (List.mem_insertionSort _).mpr (List.mem_map_of_mem h)
  · intro before svc rest heq s hs hd hback
    obtain ⟨l, r, rfl, hl, hr⟩ := List.filterMap_eq_append_iff.mp heq
    obtain ⟨skipped, name, r', rfl, hskip, hname, -⟩ := List.filterMap_eq_cons_iff.mp hr
    obtain ⟨hsvc, rfl⟩ := hlook.mp hname
    let needs : Name → Name → Prop := fun x y => y ∈ dependenciesOf services x ∧
      ¬ReflTransGen (depthfirst.Edge (dependenciesOf services)) y x
    have hord : depthfirst.Ordered needs (l ++ (skipped ++ svc.name :: r')) :=
      depthfirst.sort_ordered (fun _ _ hxy => hxy.1) (fun _ _ _ hxy => hxy.2) ho
    have hmem := hord (l ++ skipped) svc.name r' (by simp) s.name
      ⟨(mem_dependenciesOf hn).mpr ⟨svc, hsvc, rfl, hd⟩, hback⟩
    rw [← hl, List.mem_filterMap]
    rcases List.mem_append.mp hmem with hin | hin
    · exact ⟨s.name, hin, hlook.mpr ⟨hs, rfl⟩⟩
    · have hnone := hskip s.name hin
      rw [hlook.mpr ⟨hs, rfl⟩] at hnone
      cases hnone

end sort

/-! ## Names of the file -/

section names

variable {V : Type}

/-- The names that a `depends_on` value mentions. -/
def mentions : Listing V → List Name
  | .list items => items.reduceOption
  | .mapping members => members.keys
  | .other => []

theorem mem_parseDependsOn (range : MapOrder) (raw : Listing V) (dep : Name) :
    dep ∈ parseDependsOn range raw ↔ ∃ name ∈ mentions raw, sanitizeName name = dep := by
  cases raw with
  | list items => simp [parseDependsOn, mentions]
  | mapping members =>
    simp [parseDependsOn, mentions, (range.perm members.keys).mem_iff]
  | other => simp [parseDependsOn, mentions]

def DependsOn (file : ComposeFile V) (a b : Name) : Prop :=
  ∃ cs, file.services.lookup a = some cs ∧ b ∈ mentions cs.dependsOn

def Acyclic (file : ComposeFile V) : Prop := ∀ name, ¬TransGen (DependsOn file) name name

/-- The services of the file are all in the list, once, under different names. -/
structure Imported (lib : Lib V) (ranges : Ranges) (file : ComposeFile V)
    (result : List Service) : Prop where
  all : result.Perm ((pairs file.services).map (serviceOf lib ranges))
  distinct : (result.map Service.name).Nodup
  after : Acyclic file → ∀ before svc rest, result = before ++ svc :: rest →
    ∀ a b, a ∈ file.services → b ∈ file.services → svc.name = sanitizeName a →
      DependsOn file a b → ∃ s ∈ before, s.name = sanitizeName b

/-- The file has services, and no two become one name. -/
structure Apart (file : ComposeFile V) : Prop where
  nonempty : file.services.keys ≠ []
  services : ∀ a ∈ file.services, ∀ b ∈ file.services, sanitizeName a = sanitizeName b → a = b

/-- The dependencies of the file, under the rewritten names. -/
def Leads (file : ComposeFile V) (s t : Name) : Prop :=
  ∃ a b, DependsOn file a b ∧ sanitizeName a = s ∧ sanitizeName b = t

/-- No dependency on a service is closed to a cycle by an entry that becomes the name of a
service and is not one. -/
def Unturned (file : ComposeFile V) : Prop :=
  Acyclic file → ∀ a b, b ∈ file.services → DependsOn file a b →
    ¬ReflTransGen (Leads file) (sanitizeName b) (sanitizeName a)

/-- No entry of `depends_on` becomes the name of a service that it does not name. -/
def Meant (file : ComposeFile V) : Prop :=
  ∀ a b c, DependsOn file a b → c ∈ file.services → sanitizeName b = sanitizeName c → b = c

end names

/-! ## The law -/

section law

variable {V : Type} {lib : Lib V} {ranges : Ranges} {file : ComposeFile V}

theorem dependsOn_serviceOf (entry : Name × ComposeService V) :
    (serviceOf lib ranges entry).dependsOn =
      parseDependsOn (ranges.within entry.1) entry.2.dependsOn := rfl

theorem mem_of_pair {entries : List (Name × ComposeService V)}
    (hp : entries.Perm (pairs file.services)) {entry : Name × ComposeService V}
    (he : entry ∈ entries) : entry.1 ∈ file.services := by
  rw [← AList.lookup_isSome, mem_pairs.mp (hp.subset he)]
  rfl

theorem nodup_names
    (h : ∀ a ∈ file.services, ∀ b ∈ file.services, sanitizeName a = sanitizeName b → a = b)
    {entries : List (Name × ComposeService V)}
    (hp : entries.Perm (pairs file.services)) :
    ((entries.map (serviceOf lib ranges)).map Service.name).Nodup := by
  have hkeys : (entries.map Prod.fst).Nodup :=
    (hp.map Prod.fst).nodup_iff.mpr (nodup_pairs file.services)
  rw [List.map_map]
  refine List.Nodup.map_on ?_ (List.Nodup.of_map _ hkeys)
  intro x hx y hy hxy
  exact List.inj_on_of_nodup_map hkeys hx hy
    (h x.1 (mem_of_pair hp hx) y.1 (mem_of_pair hp hy) hxy)

/-- The dependencies that the sort sees are those of the file, under the rewritten names. -/
theorem edge_iff (h : Apart file) {entries : List (Name × ComposeService V)}
    (hp : entries.Perm (pairs file.services)) {s t : Name} :
    depthfirst.Edge (dependenciesOf (entries.map (serviceOf lib ranges))) s t ↔
      Leads file s t := by
  unfold depthfirst.Edge
  rw [mem_dependenciesOf (nodup_names h.services hp)]
  constructor
  · rintro ⟨svc, hsvc, hname, hd⟩
    obtain ⟨entry, he, rfl⟩ := List.mem_map.mp hsvc
    rw [dependsOn_serviceOf, mem_parseDependsOn] at hd
    obtain ⟨b, hb, hbt⟩ := hd
    exact ⟨entry.1, b, ⟨entry.2, mem_pairs.mp (hp.subset he), hb⟩, hname, hbt⟩
  · rintro ⟨a, b, ⟨cs, hcs, hb⟩, ha, hbt⟩
    refine ⟨serviceOf lib ranges (a, cs), List.mem_map_of_mem ?_, ha, ?_⟩
    · exact hp.symm.subset (mem_pairs.mpr hcs)
    · rw [dependsOn_serviceOf, mem_parseDependsOn]
      exact ⟨b, hb, hbt⟩

theorem DependsOn.mem {a b : Name} (h : DependsOn file a b) : a ∈ file.services := by
  obtain ⟨cs, hcs, -⟩ := h
  rw [← AList.lookup_isSome, hcs]
  rfl

/-- A way between rewritten names is one between the services of the file. -/
theorem way_in_file (hm : Meant file) {s t : Name} (hst : ReflTransGen (Leads file) s t)
    {c : Name} (hc : c ∈ file.services) (hct : sanitizeName c = t) :
    ∃ a ∈ file.services, sanitizeName a = s ∧ ReflTransGen (DependsOn file) a c := by
  induction hst using ReflTransGen.head_induction_on with
  | refl => exact ⟨c, hc, hct, .refl⟩
  | head he _ ih =>
    obtain ⟨m, hms, hmt, hmc⟩ := ih
    obtain ⟨a, b, hab, ha, hb⟩ := he
    rw [hm a b m hab hms (hb.trans hmt.symm)] at hab
    exact ⟨a, hab.mem, ha, .head hab hmc⟩

theorem Meant.unturned (hm : Meant file) (h : Apart file) : Unturned file := by
  intro hac a b hb hab hback
  obtain ⟨b', hb', hname, hway⟩ := way_in_file hm hback hab.mem rfl
  rw [h.services b' hb' b hb hname] at hway
  exact hac a (TransGen.head' hab hway)

/-- Distinct services in the list had names that stay apart. -/
theorem Imported.apart {result : List Service} (hr : parse lib ranges file = .ok result)
    (h : Imported lib ranges file result) : Apart file where
  nonempty := by
    intro hnil
    unfold parse at hr
    rw [if_pos hnil] at hr
    cases hr
  services := by
    have hn := ((h.all.map Service.name).nodup_iff).mp h.distinct
    rw [List.map_map] at hn
    intro a ha b hb hab
    obtain ⟨ca, hca⟩ := Option.isSome_iff_exists.mp (AList.lookup_isSome.mpr ha)
    obtain ⟨cb, hcb⟩ := Option.isSome_iff_exists.mp (AList.lookup_isSome.mpr hb)
    have heq : (a, ca) = (b, cb) :=
      List.inj_on_of_nodup_map hn (mem_pairs.mpr hca) (mem_pairs.mpr hcb) hab
    exact (Prod.mk.inj heq).1

/-- A file with names that stay apart and no turned dependency is imported whole. -/
theorem Apart.imported (h : Apart file) (hu : Unturned file) :
    ∃ result, parse lib ranges file = .ok result ∧ Imported lib ranges file result := by
  have hp := ranges.services.perm (pairs file.services)
  have hn : (((ranges.services.order (pairs file.services)).map
      (serviceOf lib ranges)).map Service.name).Nodup :=
    nodup_names h.services hp
  obtain ⟨result, ht, hperm, hafter⟩ := topoSort_spec hn
  refine ⟨result, ?_, hperm.trans (hp.map _), (hperm.map _).nodup_iff.mpr hn, ?_⟩
  · unfold parse
    rw [if_neg h.nonempty, ht]
  · intro hac before svc rest heq a b ha hb hname hab
    obtain ⟨cs, hcs, hmem⟩ := hab
    obtain ⟨cb, hcb⟩ := Option.isSome_iff_exists.mp (AList.lookup_isSome.mpr hb)
    have hin : ∀ {n : Name} {c : ComposeService V}, file.services.lookup n = some c →
        serviceOf lib ranges (n, c) ∈
          (ranges.services.order (pairs file.services)).map (serviceOf lib ranges) :=
      fun hl => List.mem_map_of_mem (hp.symm.subset (mem_pairs.mpr hl))
    have hsvc : svc = serviceOf lib ranges (a, cs) := by
      refine List.inj_on_of_nodup_map hn (hperm.subset ?_) (hin hcs) hname
      rw [heq]
      exact List.mem_append_right before List.mem_cons_self
    refine ⟨serviceOf lib ranges (b, cb), ?_, rfl⟩
    refine hafter before svc rest heq _ (hin hcb) ?_ ?_
    · rw [hsvc, dependsOn_serviceOf, mem_parseDependsOn]
      exact ⟨b, hmem, rfl⟩
    · intro hback
      refine hu hac a b hb ⟨cs, hcs, hmem⟩ ?_
      rw [← hname]
      exact ReflTransGen.mono (fun _ _ he => (edge_iff h hp).mp he) _ _ hback

end law

/-- A file imported whole has services with names that stay apart. Then it is imported whole as
long as no dependency is turned, and none is where the entries mean what they become. -/
theorem services_survive_import {V : Type} (lib : Lib V) (ranges : Ranges)
    (file : ComposeFile V) :
    ((∃ result, parse lib ranges file = .ok result ∧ Imported lib ranges file result) →
      Apart file) ∧
    (Apart file → Unturned file →
      ∃ result, parse lib ranges file = .ok result ∧ Imported lib ranges file result) ∧
    (Apart file → Meant file → Unturned file) := by
  refine ⟨?_, Apart.imported, fun h hm => hm.unturned h⟩
  rintro ⟨result, hr, himp⟩
  exact himp.apart hr

/-! ## Two files -/

def plainLib : Lib Bytes := ⟨List.map lower, id, fun s => 34 :: s ++ [34]⟩

def stored : Ranges := ⟨.asStored, fun _ => .asStored⟩

def serviceWith (image : Bytes) (deps : List Bytes) : ComposeService Bytes :=
  ⟨image, [], .list (deps.map some), .other⟩

/-- A web service with a dash in its name, and the database it depends on. -/
def webFile : ComposeFile Bytes :=
  ⟨storeAll ∅ [(bytes "web-app", serviceWith (bytes "web") [bytes "my.db"]),
    (bytes "my.db", serviceWith (bytes "postgres") [])]⟩

theorem webFile_survives :
    (parse plainLib stored webFile).map (List.map Service.name) =
      .ok [bytes "my_db", bytes "web_app"] ∧
    ∃ result, parse plainLib stored webFile = .ok result ∧
      Imported plainLib stored webFile result := by
  have hs : ∀ a ∈ webFile.services.keys, ∀ b ∈ webFile.services.keys,
      sanitizeName a = sanitizeName b → a = b := by decide
  have hm : ∀ e ∈ pairs webFile.services, ∀ b ∈ mentions e.2.dependsOn,
      ∀ c ∈ webFile.services.keys, sanitizeName b = sanitizeName c → b = c := by decide
  obtain ⟨-, hwhole, hunturned⟩ := services_survive_import plainLib stored webFile
  have hapart : Apart webFile := ⟨by decide, hs⟩
  refine ⟨by decide, hwhole hapart (hunturned hapart ?_)⟩
  rintro a b c ⟨cs, hcs, hb⟩ hc
  exact hm (a, cs) (mem_pairs.mpr hcs) b hb c hc

/-- Two services with names that differ only in a dash and a dot. -/
def clashFile : ComposeFile Bytes :=
  ⟨storeAll ∅ [(bytes "api-v1", serviceWith (bytes "api:1") []),
    (bytes "api.v1", serviceWith (bytes "api:2") [])]⟩

theorem clash_loses_service :
    clashFile.services.keys.length = 2 ∧
    (parse plainLib stored clashFile).map (List.map Service.image) = .ok [bytes "api:1"] ∧
    ∀ result, parse plainLib stored clashFile = .ok result →
      ¬Imported plainLib stored clashFile result := by
  have hone : (parse plainLib stored clashFile).map (List.map Service.image) =
      .ok [bytes "api:1"] := by decide
  refine ⟨by decide, hone, ?_⟩
  intro result hr himp
  rw [hr] at hone
  have hlen := himp.all.length_eq
  have hsingle := congrArg List.length (Except.ok.inj hone)
  rw [List.length_map] at hsingle hlen
  have htwo : (pairs clashFile.services).length = 2 := by decide
  rw [htwo, hsingle] at hlen
  revert hlen
  decide

end faultbox.compose
