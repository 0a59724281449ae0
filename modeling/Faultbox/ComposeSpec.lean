-- The spec that GenerateSpec writes for the services of a compose file.
-- The law: the text is a function of the file, whatever the order of the loops over maps. The
-- loops over the tables of images and ports stop at their first hit, so it holds as long as the
-- hits agree: one protocol for an image, no default port asked for http, and services built
-- alike where they become one name.
import Faultbox.ComposeImport
import Mathlib.Data.Finset.Sort

open goval gopath gotext

namespace faultbox.compose

/-! ## The source -/

def Protocol.text : Protocol → Bytes
  | .postgres => bytes "postgres"
  | .mysql => bytes "mysql"
  | .redis => bytes "redis"
  | .mongodb => bytes "mongodb"
  | .kafka => bytes "kafka"
  | .nats => bytes "nats"
  | .amqp => bytes "amqp"
  | .memcached => bytes "memcached"
  | .http => bytes "http"
  | .grpc => bytes "grpc"
  | .tcp => bytes "tcp"

def interfaceName : Protocol → Bytes
  | .http => bytes "http"
  | .grpc => bytes "grpc"
  | .postgres => bytes "pg"
  | .mysql => bytes "mysql"
  | .redis => bytes "redis"
  | .kafka => bytes "kafka"
  | .nats => bytes "nats"
  | .amqp => bytes "amqp"
  | .mongodb => bytes "mongo"
  | .memcached => bytes "memcached"
  | .tcp => bytes "main"

/-- A range over the map and `sort.Strings`. -/
def sortedKeys (m : Finmap fun _ : Bytes => Bytes) : List Bytes := m.keys.sort (· ≤ ·)

def join (pieces : List Bytes) : Bytes := (bytes ", ").intercalate pieces

section text

variable {V : Type} (lib : Lib V)

def envText (svc : Service) : Bytes :=
  if svc.env.keys.card = 0 then []
  else
    bytes "    env=\x7b" ++
      join ((sortedKeys svc.env).map fun k =>
        lib.quote k ++ bytes ": " ++ lib.quote ((svc.env.lookup k).getD [])) ++
      bytes "\x7d,\n"

def dependsText (services : List Service) (svc : Service) : Bytes :=
  let deps := svc.dependsOn.filter fun d => d ∈ services.map Service.name
  if deps = [] then [] else bytes "    depends_on=[" ++ join deps ++ bytes "],\n"

def serviceText (services : List Service) (svc : Service) : Bytes :=
  svc.name ++ bytes " = service(\"" ++ svc.name ++ bytes "\",\n" ++
    (bytes "    interface(\"" ++ interfaceName svc.protocol ++ bytes "\", \"" ++
      svc.protocol.text ++ bytes "\", " ++ number svc.port ++ bytes "),\n") ++
    (bytes "    image=\"" ++ svc.image ++ bytes "\",\n") ++
    envText lib svc ++ dependsText services svc ++
    (bytes "    healthcheck=" ++ svc.healthcheck ++ bytes ",\n") ++ bytes ")\n\n"

def probeText (svc : Service) : Bytes :=
  let call := bytes "    resp = " ++ svc.name ++ bytes "." ++ interfaceName svc.protocol
  let respond := bytes ", \"" ++ svc.name ++ bytes " should respond\")\n"
  match svc.protocol with
  | .http =>
    call ++ bytes ".get(path=\"/\")\n" ++ bytes "    assert_true(resp.status < 500" ++ respond
  | .postgres =>
    call ++ bytes ".query(\"SELECT 1\")\n" ++
      bytes "    assert_true(resp.status == \"ok\"" ++ respond
  | .redis => call ++ bytes ".command(\"PING\")\n" ++ bytes "    assert_eq(resp, \"PONG\")\n"
  | .tcp =>
    call ++ bytes ".send(data=\"PING\")\n" ++ bytes "    assert_true(len(resp) > 0" ++ respond
  | protocol =>
    bytes "    # TODO: add health check for " ++ svc.name ++ bytes " (" ++ protocol.text ++
      bytes ")\n"

/-- The first service with the most dependencies so far. -/
def moreDeps (best : Option Service) (svc : Service) : Option Service :=
  match best with
  | none => some svc
  | some b => if b.dependsOn.length < svc.dependsOn.length then some svc else some b

def findMainService (services : List Service) : Option Service :=
  let best := services.foldl moreDeps none
  if (best.map fun b => b.dependsOn).getD [] = [] then
    (services.find? fun svc => svc.protocol = .http).or best
  else best

def faultText (name : Name) : Bytes :=
  bytes "\n# --- Fault scenarios ---\n\ndef test_write_failure():\n    \"\"\"What happens when " ++
    name ++ bytes " can't write?\"\"\"\n    def scenario():\n" ++
    bytes "        # TODO: exercise the service and check error handling\n        pass\n" ++
    bytes "    fault(" ++ name ++ bytes ", write=deny(\"EIO\"), run=scenario)\n"

def generateSpec (services : List Service) : Bytes :=
  bytes "# faultbox.star — generated from docker-compose.yml\n#\n" ++
    bytes "# Run:   faultbox test faultbox.star\n" ++
    bytes "# JSON:  faultbox test faultbox.star --format json\n\n" ++
    services.flatMap (serviceText lib services) ++
    bytes "# --- Tests ---\n\ndef test_happy_path():\n" ++
    bytes "    \"\"\"Verify all services start and respond.\"\"\"\n" ++
    services.flatMap probeText ++ bytes "\nscenario(test_happy_path)\n" ++
    match findMainService services with
    | none => []
    | some mainSvc => faultText mainSvc.name

/-- `Parse` and then `GenerateSpec`. -/
def importSpec (ranges : Ranges) (file : ComposeFile V) : Except Failure Bytes :=
  (parse lib ranges file).map (generateSpec lib)

end text

/-! ## Loops that do not depend on the order -/

theorem find?_perm {α β : Type} {l l' : List α} (h : l.Perm l') {p : α → Bool} {f : α → β}
    (hf : ∀ x ∈ l, ∀ y ∈ l, p x = true → p y = true → f x = f y) :
    (l.find? p).map f = (l'.find? p).map f := by
  cases hl : l.find? p with
  | none =>
    have hnone : l'.find? p = none := by
      rw [List.find?_eq_none] at hl ⊢
      intro x hx
      exact hl x (h.symm.subset hx)
    rw [hnone]
  | some x =>
    have hsome : (l'.find? p).isSome := by
      rw [List.find?_isSome]
      exact ⟨x, h.subset (List.mem_of_find?_eq_some hl), List.find?_some hl⟩
    obtain ⟨y, hy⟩ := Option.isSome_iff_exists.mp hsome
    rw [hy, Option.map_some, Option.map_some, hf x (List.mem_of_find?_eq_some hl) y
      (h.symm.subset (List.mem_of_find?_eq_some hy)) (List.find?_some hl) (List.find?_some hy)]

theorem lookup_storeAll_perm {α : Type} {kvs kvs' : List (Bytes × α)} (h : kvs.Perm kvs')
    (hn : (kvs.map Prod.fst).Nodup) (k : Bytes) :
    (storeAll ∅ kvs).lookup k = (storeAll ∅ kvs').lookup k := by
  have hk : k ∈ kvs.map Prod.fst ↔ k ∈ kvs'.map Prod.fst := (h.map Prod.fst).mem_iff
  by_cases hmem : k ∈ kvs.map Prod.fst
  · obtain ⟨x, hx, hl⟩ := lookup_storeAll_of_mem ∅ hmem
    obtain ⟨y, hy, hl'⟩ := lookup_storeAll_of_mem ∅ (hk.mp hmem)
    have heq := List.inj_on_of_nodup_map hn hx (h.symm.subset hy) rfl
    rw [hl, hl', (Prod.mk.inj heq).2]
  · rw [lookup_storeAll_of_notMem ∅ hmem, lookup_storeAll_of_notMem ∅ (mt hk.mpr hmem)]

section loops

variable {V : Type} {lib : Lib V} (range range' : MapOrder)

theorem detectProtocol_congr {image : Bytes} (port : Int)
    (h : ∀ x ∈ imageProtocol, ∀ y ∈ imageProtocol, x.1 <:+: lib.toLower image →
      y.1 <:+: lib.toLower image → x.2 = y.2) :
    detectProtocol lib range image port = detectProtocol lib range' image port := by
  have hfind : ((range.order imageProtocol).find? fun e =>
        decide (e.1 <:+: lib.toLower image)).map Prod.snd =
      ((range'.order imageProtocol).find? fun e =>
        decide (e.1 <:+: lib.toLower image)).map Prod.snd := by
    refine find?_perm ((range.perm imageProtocol).trans (range'.perm imageProtocol).symm) ?_
    intro x hx y hy hpx hpy
    exact h x ((range.perm _).subset hx) y ((range.perm _).subset hy) (of_decide_eq_true hpx)
      (of_decide_eq_true hpy)
  unfold detectProtocol
  dsimp only
  generalize (range.order imageProtocol).find? _ = found at hfind ⊢
  generalize (range'.order imageProtocol).find? _ = found' at hfind ⊢
  cases found <;> cases found' <;> simp_all

theorem one_default_port : ∀ x ∈ portProtocol, ∀ y ∈ portProtocol, x.2 ≠ .http → x.2 = y.2 →
    x.1 = y.1 := by
  decide

theorem defaultPort_congr {protocol : Protocol} (h : protocol ≠ .http) :
    defaultPort range protocol = defaultPort range' protocol := by
  have hfind : ((range.order portProtocol).find? fun e => e.2 = protocol).map Prod.fst =
      ((range'.order portProtocol).find? fun e => e.2 = protocol).map Prod.fst := by
    refine find?_perm ((range.perm portProtocol).trans (range'.perm portProtocol).symm) ?_
    intro x hx y hy hpx hpy
    have hx2 : x.2 = protocol := of_decide_eq_true hpx
    exact one_default_port x ((range.perm _).subset hx) y ((range.perm _).subset hy)
      (by rwa [hx2]) (hx2.trans (of_decide_eq_true hpy).symm)
  unfold defaultPort
  generalize (range.order portProtocol).find? _ = found at hfind ⊢
  generalize (range'.order portProtocol).find? _ = found' at hfind ⊢
  cases found <;> cases found' <;> simp_all

theorem parseDependsOn_congr (raw : Listing V) :
    parseDependsOn range raw = parseDependsOn range' raw := by
  cases raw with
  | list items => rfl
  | mapping members =>
    exact insertionSort_congr
      (((range.perm members.keys).trans (range'.perm members.keys).symm).map _)
  | other => rfl

theorem parseEnv_congr (raw : Listing V) : parseEnv lib range raw = parseEnv lib range' raw := by
  cases raw with
  | list items => rfl
  | mapping members =>
    have hp := ((range.perm (pairs members)).trans (range'.perm (pairs members)).symm).map
      fun e => (e.1, lib.sprint e.2)
    apply Finmap.ext_lookup
    intro k
    refine lookup_storeAll_perm hp ?_ k
    rw [List.map_map]
    exact ((range.perm (pairs members)).map Prod.fst).nodup_iff.mpr (nodup_pairs members)
  | other => rfl

end loops

/-! ## The law -/

/-- Two services of a file that differ in their names alone. -/
structure Alike {V : Type} (lib : Lib V) (e e' : Name × ComposeService V) : Prop where
  image : imageOf e.1 e.2 = imageOf e'.1 e'.2
  port : exposedPort e.2 = exposedPort e'.2
  dependsOn : parseDependsOn .asStored e.2.dependsOn = parseDependsOn .asStored e'.2.dependsOn
  env : parseEnv lib .asStored e.2.environment = parseEnv lib .asStored e'.2.environment

/-- Nothing in the file depends on which hit comes first. -/
structure Settled {V : Type} (lib : Lib V) (file : ComposeFile V) : Prop where
  names : ∀ e ∈ pairs file.services, ∀ e' ∈ pairs file.services,
    sanitizeName e.1 = sanitizeName e'.1 → Alike lib e e'
  images : ∀ e ∈ pairs file.services, ∀ x ∈ imageProtocol, ∀ y ∈ imageProtocol,
    x.1 <:+: lib.toLower (imageOf e.1 e.2) → y.1 <:+: lib.toLower (imageOf e.1 e.2) → x.2 = y.2
  ports : ∀ e ∈ pairs file.services, exposedPort e.2 = 0 →
    ∀ x ∈ imageProtocol, x.1 <:+: lib.toLower (imageOf e.1 e.2) → x.2 ≠ .http

section law

variable {V : Type} {lib : Lib V} {file : ComposeFile V}

theorem detectProtocol_ne_http (h : Settled lib file) (range : MapOrder)
    {e : Name × ComposeService V} (he : e ∈ pairs file.services) (hport : exposedPort e.2 = 0) :
    detectProtocol lib range (imageOf e.1 e.2) (exposedPort e.2) ≠ .http := by
  unfold detectProtocol
  dsimp only
  split
  · rename_i x hx
    have hhit := List.find?_some hx
    exact h.ports e he hport x ((range.perm _).subset (List.mem_of_find?_eq_some hx))
      (of_decide_eq_true hhit)
  · rw [hport]
    decide

theorem serviceOf_congr (h : Settled lib file) (ranges ranges' : Ranges)
    {e e' : Name × ComposeService V} (he : e ∈ pairs file.services)
    (he' : e' ∈ pairs file.services) (hname : sanitizeName e.1 = sanitizeName e'.1) :
    serviceOf lib ranges e = serviceOf lib ranges' e' := by
  have ha := h.names e he e' he' hname
  have hproto := detectProtocol_congr (ranges.within e.1) (ranges'.within e'.1) (exposedPort e.2)
    (h.images e he)
  have hdefault : exposedPort e.2 = 0 →
      defaultPort (ranges.within e.1)
          (detectProtocol lib (ranges'.within e'.1) (imageOf e.1 e.2) (exposedPort e.2)) =
        defaultPort (ranges'.within e'.1)
          (detectProtocol lib (ranges'.within e'.1) (imageOf e.1 e.2) (exposedPort e.2)) :=
    fun hport => defaultPort_congr _ _ (detectProtocol_ne_http h _ he hport)
  have hdeps := (parseDependsOn_congr (ranges.within e.1) .asStored e.2.dependsOn).trans
    (ha.dependsOn.trans (parseDependsOn_congr .asStored (ranges'.within e'.1) _))
  have henv := (parseEnv_congr (ranges.within e.1) .asStored e.2.environment).trans
    (ha.env.trans (parseEnv_congr .asStored (ranges'.within e'.1) _))
  unfold serviceOf
  dsimp only
  rw [hname, hdeps, henv, hproto, ← ha.image, ← ha.port]
  by_cases hport : exposedPort e.2 = 0
  · rw [if_pos hport, if_pos hport, hdefault hport]
  · rw [if_neg hport, if_neg hport]

theorem topoSort_perm {services services' : List Service} (h : services.Perm services')
    (hk : Keyed services) : topoSort services = topoSort services' := by
  have hk' : Keyed services' :=
    fun s hs t ht => hk s (h.symm.subset hs) t (h.symm.subset ht)
  have hmap : nameMap services = nameMap services' := by
    funext name
    apply Option.ext
    intro svc
    rw [nameMap_eq_some hk, nameMap_eq_some hk', h.mem_iff]
  have hdepth : depth services = depth services' := by
    unfold depth
    rw [((h.map Service.name).append (h.flatMap_right Service.dependsOn)).length_eq]
  unfold topoSort
  rw [hmap, hdepth, insertionSort_congr (h.map Service.name)]

theorem parse_congr (h : Settled lib file) (ranges ranges' : Ranges) :
    parse lib ranges file = parse lib ranges' file := by
  have hp := ranges.services.perm (pairs file.services)
  have hp' := ranges'.services.perm (pairs file.services)
  have hsame : (ranges'.services.order (pairs file.services)).map (serviceOf lib ranges') =
      (ranges'.services.order (pairs file.services)).map (serviceOf lib ranges) := by
    apply List.map_congr_left
    intro e he
    exact serviceOf_congr h ranges' ranges (hp'.subset he) (hp'.subset he) rfl
  have hkeyed : Keyed ((ranges.services.order (pairs file.services)).map
      (serviceOf lib ranges)) := by
    intro s hs t ht hst
    obtain ⟨e, he, rfl⟩ := List.mem_map.mp hs
    obtain ⟨e', he', rfl⟩ := List.mem_map.mp ht
    exact serviceOf_congr h ranges ranges (hp.subset he) (hp.subset he') hst
  unfold parse
  rw [hsame, topoSort_perm ((hp.trans hp'.symm).map _) hkeyed]

end law

/-- Where the hits agree, the spec is the same for any orders of the maps. -/
theorem spec_is_reproducible {V : Type} (lib : Lib V) (file : ComposeFile V)
    (h : Settled lib file) (ranges ranges' : Ranges) :
    importSpec lib ranges file = importSpec lib ranges' file := by
  unfold importSpec
  rw [parse_congr h ranges ranges']

def reversed : Ranges :=
  ⟨⟨List.reverse, List.reverse_perm⟩, fun _ => ⟨List.reverse, List.reverse_perm⟩⟩

/-- Two releases of a service with one image, under names that become one. -/
def twinFile : ComposeFile Bytes :=
  ⟨storeAll ∅ [(bytes "cache-1", serviceWith (bytes "redis:7") []),
    (bytes "cache.1", serviceWith (bytes "redis:7") [])]⟩

theorem twinFile_reproducible :
    Settled plainLib twinFile ∧
    importSpec plainLib stored twinFile = importSpec plainLib reversed twinFile := by
  have h : Settled plainLib twinFile := by
    refine ⟨?_, by decide, by decide⟩
    have hone : ∀ e ∈ pairs twinFile.services, e.2 = serviceWith (bytes "redis:7") [] := by
      intro e he
      have hpairs : pairs twinFile.services =
          [(bytes "cache.1", serviceWith (bytes "redis:7") []),
            (bytes "cache-1", serviceWith (bytes "redis:7") [])] := rfl
      rw [hpairs] at he
      rcases List.mem_pair.mp he with rfl | rfl <;> rfl
    rintro ⟨a, cs⟩ he ⟨b, cs'⟩ he' _
    obtain rfl : cs = _ := hone _ he
    obtain rfl : cs' = _ := hone _ he'
    exact ⟨rfl, rfl, rfl, rfl⟩
  exact ⟨h, spec_is_reproducible plainLib twinFile h stored reversed⟩

/-- One service, an image of nginx, with no ports. -/
def nginxFile : ComposeFile Bytes :=
  ⟨storeAll ∅ [(bytes "web", serviceWith (bytes "nginx:alpine") [])]⟩

set_option maxRecDepth 8000 in
/-- The default port of http is one of six. -/
theorem nginx_port_depends_on_order :
    (parse plainLib stored nginxFile).map (List.map Service.port) = .ok [80] ∧
    (parse plainLib reversed nginxFile).map (List.map Service.port) = .ok [9090] ∧
    importSpec plainLib stored nginxFile ≠ importSpec plainLib reversed nginxFile := by
  refine ⟨by decide, by decide, by decide⟩

end faultbox.compose
