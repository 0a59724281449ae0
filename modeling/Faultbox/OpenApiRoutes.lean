-- An HTTP mock of an OpenAPI document finds the operation of a request twice: for the answer by its
-- routes (GenerateRoutes, matchHTTPRoute), for the validation by the document (findOperation).
-- The law: both find the same. It holds exactly where the path that is meant (the one that is
-- equal, or each template that fits) has the first glob that matches, in the order of the paths.
import Faultbox.GoText
import Mathlib.Data.List.Sort

open gopath gotext

namespace faultbox.openapi_routes

/-! ## Documents -/

inductive Method where
  | get | post | put | patch | delete | head | options | trace
deriving DecidableEq

def Method.all : List Method := [.get, .post, .put, .patch, .delete, .head, .options, .trace]

def Method.name : Method → Bytes
  | .get => bytes "GET"
  | .post => bytes "POST"
  | .put => bytes "PUT"
  | .patch => bytes "PATCH"
  | .delete => bytes "DELETE"
  | .head => bytes "HEAD"
  | .options => bytes "OPTIONS"
  | .trace => bytes "TRACE"

/-- A path of a document: its template, and the methods with an operation. -/
structure Entry where
  path : Bytes
  has : Method → Bool

/-- A document, as the loader accepts it: different paths, each with a slash in front. -/
structure Doc where
  paths : List Entry
  nodup : (paths.map Entry.path).Nodup
  rooted : ∀ e ∈ paths, e.path.head? = some slash

abbrev Operation : Type := Bytes × Method

def httpMethodsOf (e : Entry) : List Method := Method.all.filter e.has

def operationFor (e : Entry) (method : Bytes) : Option Operation :=
  (Method.all.find? fun m => m.name = method && e.has m).map fun m => (e.path, m)

def openBrace : UInt8 := 123
def closeBrace : UInt8 := 125

/-! ## The operation of the document -/

/-- `splitPathSegments`. -/
def splitPathSegments (path : Bytes) : List Bytes :=
  if trimByte slash path = [] then [] else (trimByte slash path).splitOn slash

def isParam (segment : Bytes) : Bool :=
  segment.head? = some openBrace && segment.getLast? = some closeBrace

def matchTemplateSegments : List Bytes → List Bytes → Bool
  | [], [] => true
  | segment :: template, c :: concrete =>
    (isParam segment || segment = c) && matchTemplateSegments template concrete
  | _, _ => false

/-- What an entry of the map gives in the loop of `findOperation`. -/
def templateOperation (method path : Bytes) (e : Entry) : Option Operation :=
  if openBrace ∉ e.path then none
  else if matchTemplateSegments (splitPathSegments e.path) (splitPathSegments path) then
    operationFor e method
  else none

/-- `findOperation`, for an order of the map. -/
def findOperation (order : List Entry) (method path : Bytes) : Option Operation :=
  let method := method.map upper
  let literal := (order.find? fun e => e.path = path).bind fun e => operationFor e method
  literal.or (order.findSome? (templateOperation method path))

/-! ## The route of the mock -/

/-- `path.Match` of the standard library: without one of its special characters a pattern matches
itself only. -/
structure PathLib where
  pathMatch : Bytes → Bytes → Bool
  literal : ∀ pattern name, (∀ c ∈ pattern, c ∉ bytes "*?[\\") →
    pathMatch pattern name = decide (pattern = name)

def globFrom : Nat → Bytes → Bytes
  | _, [] => []
  | depth, c :: rest =>
    if c = openBrace then (if depth = 0 then [asterisk] else []) ++ globFrom (depth + 1) rest
    else if c = closeBrace then globFrom (depth - 1) rest
    else (if depth = 0 then [c] else []) ++ globFrom depth rest

def openAPIPathToGlob (path : Bytes) : Bytes :=
  if openBrace ∉ path then path else globFrom 0 path

/-- A generated route; its response is the one of the operation. -/
structure MockRoute where
  pattern : Bytes
  operation : Operation

def Entry.Le (a b : Entry) : Prop := a.path ≤ b.path

instance : DecidableRel Entry.Le := fun a b => inferInstanceAs (Decidable (a.path ≤ b.path))

/-- The paths in the order of `sort.Strings`. -/
def sortedPaths (doc : Doc) : List Entry := doc.paths.insertionSort Entry.Le

def entryRoutes (e : Entry) : List MockRoute :=
  (httpMethodsOf e).map fun m => ⟨m.name ++ space :: openAPIPathToGlob e.path, (e.path, m)⟩

def generateRoutes (doc : Doc) : List MockRoute := (sortedPaths doc).flatMap entryRoutes

def splitMethodPattern (pattern : Bytes) : Option (Bytes × Bytes) :=
  match pattern.dropWhile (· ≠ space) with
  | [] => none
  | _ :: rest => some (pattern.takeWhile (· ≠ space), rest)

def matchSegments (lib : PathLib) : List Bytes → List Bytes → Bool
  | [], target => target = []
  | head :: pattern, target =>
    if head = [asterisk, asterisk] then
      (List.range (target.length + 1)).any fun i => matchSegments lib pattern (target.drop i)
    else
      match target with
      | [] => false
      | t :: target =>
        if head = [asterisk] ∨ head = t then matchSegments lib pattern target
        else if lib.pathMatch head t then matchSegments lib pattern target
        else false

def matchGlob (lib : PathLib) (pattern target : Bytes) : Bool :=
  if asterisk ∉ pattern then lib.pathMatch pattern target || pattern = target
  else matchSegments lib ((trimByte slash pattern).splitOn slash)
    ((trimByte slash target).splitOn slash)

/-- `strings.EqualFold`, for ASCII. -/
def equalFold (a b : Bytes) : Bool := a.map upper = b.map upper

def routeMatches (lib : PathLib) (method path : Bytes) (r : MockRoute) : Bool :=
  match splitMethodPattern r.pattern with
  | none => false
  | some (m, p) => (m = [asterisk] || equalFold m method) && matchGlob lib p path

/-- `matchHTTPRoute`. -/
def matchHTTPRoute (lib : PathLib) (routes : List MockRoute) (method path : Bytes) :
    Option MockRoute :=
  routes.find? (routeMatches lib method path)

/-- A method as a request has it: a token of ASCII. -/
structure Token where
  text : Bytes
  ascii : ∀ c ∈ text, c < 128

def Token.upper (method : Token) : Bytes := method.text.map gotext.upper

/-- The validation is against the operation that is served, whatever the order of the map. -/
def Agrees (lib : PathLib) (doc : Doc) (method : Token) (path : Bytes) : Prop :=
  ∀ order, order.Perm doc.paths →
    findOperation order method.text path =
      (matchHTTPRoute lib (generateRoutes doc) method.text path).map MockRoute.operation

/-! ## Routes as entries -/

/-- What an entry gives to `matchHTTPRoute`. -/
def routeOperation (lib : PathLib) (method path : Bytes) (e : Entry) : Option Operation :=
  if matchGlob lib (openAPIPathToGlob e.path) path then operationFor e method else none

theorem name_upper (m : Method) : m.name.map upper = m.name := by
  cases m <;> decide

theorem splitMethodPattern_name (m : Method) (p : Bytes) :
    splitMethodPattern (m.name ++ space :: p) = some (m.name, p) := by
  have hall : ∀ c ∈ m.name, decide (c ≠ space) = true := by
    have hn : (m.name.all fun c => decide (c ≠ space)) = true := by
      cases m <;> decide
    exact List.all_eq_true.mp hn
  unfold splitMethodPattern
  rw [List.dropWhile_append_of_pos hall, List.takeWhile_append_of_pos hall]
  simp

theorem routeMatches_entry (lib : PathLib) (method path : Bytes) (m : Method) (p : Bytes)
    (o : Operation) :
    routeMatches lib method path ⟨m.name ++ space :: p, o⟩ =
      (decide (m.name = method.map upper) && matchGlob lib p path) := by
  have hs : m.name ≠ [asterisk] := by
    cases m <;> decide
  unfold routeMatches
  rw [splitMethodPattern_name]
  simp [hs, equalFold, name_upper]

theorem find_entryRoutes (lib : PathLib) (method path : Bytes) (e : Entry) :
    ((entryRoutes e).find? (routeMatches lib method path)).map MockRoute.operation =
      routeOperation lib (method.map upper) path e := by
  unfold entryRoutes httpMethodsOf routeOperation operationFor
  rw [List.find?_map, List.find?_filter, Option.map_map]
  simp only [Function.comp_def, routeMatches_entry]
  cases matchGlob lib (openAPIPathToGlob e.path) path with
  | true =>
    have hp : ∀ m : Method, decide (e.has m = true ∧
        (decide (m.name = method.map upper) && true) = true) =
        (decide (m.name = method.map upper) && e.has m) := by
      intro m
      cases e.has m <;> simp
    simp only [hp, if_true]
  | false => simp

theorem findSome_map {α β γ : Type} (f : α → Option β) (g : β → γ) (l : List α) :
    (l.findSome? f).map g = l.findSome? fun a => (f a).map g := by
  induction l with
  | nil => rfl
  | cons a l ih =>
    rw [List.findSome?_cons, List.findSome?_cons]
    cases f a with
    | none => exact ih
    | some b => rfl

theorem served_eq (lib : PathLib) (doc : Doc) (method path : Bytes) :
    (matchHTTPRoute lib (generateRoutes doc) method path).map MockRoute.operation =
      (sortedPaths doc).findSome? (routeOperation lib (method.map upper) path) := by
  unfold matchHTTPRoute generateRoutes
  rw [List.find?_flatMap, findSome_map]
  congr 1
  funext e
  exact find_entryRoutes lib method path e

/-! ## The paths that are meant -/

section meant

variable (lib : PathLib) (doc : Doc) (method : Token) (path : Bytes)

def Entry.Declares (method : Token) (e : Entry) : Prop := (operationFor e method.upper).isSome

/-- The path of the request is in the document, with an operation for the method. -/
def Doc.Literal (e : Entry) : Prop := e ∈ doc.paths ∧ e.path = path ∧ e.Declares method

/-- The template fits the path of the request by its segments. -/
def Doc.Template (e : Entry) : Prop :=
  e ∈ doc.paths ∧ openBrace ∈ e.path ∧
    matchTemplateSegments (splitPathSegments e.path) (splitPathSegments path) = true ∧
    e.Declares method

/-- The path that is equal is meant, and where there is none each template that fits. -/
def Doc.Meant (e : Entry) : Prop :=
  doc.Literal method path e ∨ (∀ e', ¬ doc.Literal method path e') ∧ doc.Template method path e

/-- The glob of the path matches the path of the request. -/
def Doc.Globbed (e : Entry) : Prop :=
  e ∈ doc.paths ∧ matchGlob lib (openAPIPathToGlob e.path) path = true ∧ e.Declares method

/-- The glob of each path that is meant matches, none that matches sorts before it, and where none
is meant none matches. -/
structure Doc.Clear : Prop where
  first : ∀ e, doc.Meant method path e → doc.Globbed lib method path e ∧
    ∀ e', doc.Globbed lib method path e' → e.path ≤ e'.path
  none : ∀ e', doc.Globbed lib method path e' → ∃ e, doc.Meant method path e

end meant

/-! ## Agreement -/

instance : Std.Total Entry.Le := ⟨fun a b => List.le_total a.path b.path⟩

instance : IsTrans Entry Entry.Le := ⟨fun _ _ _ => List.le_trans⟩

/-- The first of a list with a result is `e`, where no other one with a result stands before it. -/
theorem findSome_first {α β : Type} {R : α → α → Prop} {f : α → Option β} {l : List α} {e : α}
    {b : β} (hl : l.Pairwise R) (he : e ∈ l) (hb : f e = some b)
    (hf : ∀ x ∈ l, f x ≠ none → x = e ∨ ¬ R x e) : l.findSome? f = some b := by
  induction l with
  | nil => exact nomatch he
  | cons x l ih =>
    rw [List.pairwise_cons] at hl
    rw [List.findSome?_cons]
    cases hx : f x with
    | none =>
      have hmem : e ∈ l := by
        rcases List.mem_cons.mp he with rfl | hmem
        · exact absurd (hx.symm.trans hb) nofun
        · exact hmem
      exact ih hl.2 hmem fun y hy => hf y (List.mem_cons_of_mem _ hy)
    | some b' =>
      rcases hf x List.mem_cons_self (by simp [hx]) with rfl | hnot
      · rw [← hx, hb]
      · rcases List.mem_cons.mp he with rfl | hmem
        · rw [← hx, hb]
        · exact absurd (hl.1 e hmem) hnot

variable {e : Entry} {o : Operation}

section agreement

variable {lib : PathLib} {doc : Doc} {method : Token} {path : Bytes} {order : List Entry}

theorem eq_of_path {e' : Entry} (he : e ∈ doc.paths) (he' : e' ∈ doc.paths) (h : e.path = e'.path) :
    e = e' := List.inj_on_of_nodup_map doc.nodup he he' h

theorem path_of_operationFor {m : Bytes} (h : operationFor e m = some o) : o.1 = e.path := by
  obtain ⟨_, -, rfl⟩ := Option.map_eq_some_iff.mp h
  rfl

theorem routeOperation_eq_some (he : e ∈ doc.paths) :
    routeOperation lib method.upper path e = some o ↔
      doc.Globbed lib method path e ∧ operationFor e method.upper = some o := by
  unfold routeOperation Doc.Globbed Entry.Declares
  split
  · rename_i hm
    simp only [he, hm, true_and]
    exact ⟨fun h => ⟨by simp [h], h⟩, And.right⟩
  · rename_i hm
    simp [hm]

theorem templateOperation_eq_some (he : e ∈ doc.paths) :
    templateOperation method.upper path e = some o ↔
      doc.Template method path e ∧ operationFor e method.upper = some o := by
  unfold templateOperation Doc.Template Entry.Declares
  split
  · rename_i hb
    simp [hb]
  · rename_i hb
    rw [not_not] at hb
    split
    · rename_i hm
      simp only [he, hb, hm, true_and]
      exact ⟨fun h => ⟨by simp [h], h⟩, And.right⟩
    · rename_i hm
      simp [hm]

theorem literal_eq_some (hp : order.Perm doc.paths) :
    ((order.find? fun e => e.path = path).bind fun e => operationFor e method.upper) = some o ↔
      ∃ e, doc.Literal method path e ∧ operationFor e method.upper = some o := by
  rw [Option.bind_eq_some_iff]
  constructor
  · rintro ⟨e, hf, ho⟩
    exact ⟨e, ⟨hp.mem_iff.mp (List.mem_of_find?_eq_some hf), by simpa using List.find?_some hf,
      by simp [Entry.Declares, ho]⟩, ho⟩
  · rintro ⟨e, ⟨he, hpath, -⟩, ho⟩
    obtain ⟨x, hf⟩ : ∃ x, order.find? (fun e => decide (e.path = path)) = some x := by
      rw [← Option.isSome_iff_exists, List.find?_isSome]
      exact ⟨e, hp.mem_iff.mpr he, decide_eq_true hpath⟩
    have hx : x.path = path := by simpa using List.find?_some hf
    rw [eq_of_path he (hp.mem_iff.mp (List.mem_of_find?_eq_some hf)) (hpath.trans hx.symm)] at ho
    exact ⟨x, hf, ho⟩

/-- What `findOperation` returns is the operation of a path that is meant. -/
theorem exists_meant (hp : order.Perm doc.paths) (h : findOperation order method.text path = some o)
    :
    ∃ e, doc.Meant method path e ∧ operationFor e method.upper = some o := by
  rcases Option.or_eq_some_iff.mp h with h | ⟨hn, h⟩
  · obtain ⟨e, hl, ho⟩ := (literal_eq_some hp).mp h
    exact ⟨e, .inl hl, ho⟩
  · obtain ⟨e, he, ht⟩ := List.exists_of_findSome?_eq_some h
    obtain ⟨ht, ho⟩ := (templateOperation_eq_some (hp.mem_iff.mp he)).mp ht
    refine ⟨e, .inr ⟨fun e' hl => ?_, ht⟩, ho⟩
    obtain ⟨o', ho'⟩ := Option.isSome_iff_exists.mp hl.2.2
    have hs := (literal_eq_some hp).mpr ⟨e', hl, ho'⟩
    exact absurd (hn.symm.trans hs) (by simp)

theorem meant_of_none (hp : order.Perm doc.paths)
    (h : findOperation order method.text path = none) (e : Entry) : ¬ doc.Meant method path e := by
  obtain ⟨hl, ht⟩ := Option.or_eq_none_iff.mp h
  rintro (hm | ⟨-, hm⟩)
  · obtain ⟨o, ho⟩ := Option.isSome_iff_exists.mp hm.2.2
    exact absurd (hl.symm.trans ((literal_eq_some hp).mpr ⟨e, hm, ho⟩)) (by simp)
  · obtain ⟨o, ho⟩ := Option.isSome_iff_exists.mp hm.2.2.2
    have hn := List.findSome?_eq_none_iff.mp ht e (hp.mem_iff.mpr hm.1)
    exact absurd (hn.symm.trans ((templateOperation_eq_some hm.1).mpr ⟨hm, ho⟩)) (by simp)

/-- Every path that is meant is found in some order of the map. -/
theorem exists_order (h : doc.Meant method path e) :
    ∃ order, order.Perm doc.paths ∧
      findOperation order method.text path = operationFor e method.upper := by
  rcases h with hl | ⟨hn, ht⟩
  · obtain ⟨o, ho⟩ := Option.isSome_iff_exists.mp hl.2.2
    refine ⟨doc.paths, .refl _, ?_⟩
    have hs := (literal_eq_some (.refl doc.paths)).mpr ⟨e, hl, ho⟩
    rw [findOperation, ho]
    exact Option.or_eq_some_iff.mpr (.inl hs)
  · obtain ⟨o, ho⟩ := Option.isSome_iff_exists.mp ht.2.2.2
    obtain ⟨before, after, hs⟩ := List.append_of_mem ht.1
    have hp : (e :: (before ++ after)).Perm doc.paths := hs ▸ List.perm_middle.symm
    have ht' : templateOperation (method.text.map gotext.upper) path e = some o :=
      (templateOperation_eq_some ht.1).mpr ⟨ht, ho⟩
    refine ⟨_, hp, ?_⟩
    rw [findOperation, ho]
    refine Option.or_eq_some_iff.mpr (.inr ⟨?_, ?_⟩)
    · rw [Option.eq_none_iff_forall_not_mem]
      intro o' ho'
      obtain ⟨e', hl, -⟩ := (literal_eq_some hp).mp ho'
      exact hn e' hl
    · rw [List.findSome?_cons, ht']

end agreement

/-! ## Disagreement -/

def getAt (path : String) : Entry := ⟨bytes path, fun m => m = .get⟩

/-- Two templates fit `/y/x`. -/
def overlapDoc : Doc where
  paths := [getAt "/\x7ba\x7d/x", getAt "/y/\x7bb\x7d"]
  nodup := by decide
  rooted := by simp; decide

/-- A parameter for the only segment, and the request of `/`. -/
def bareDoc : Doc where
  paths := [getAt "/\x7bx\x7d"]
  nodup := by decide
  rooted := by simp; decide

/-! ## The law -/

/-- `path.Match` for patterns without special characters. -/
def equalLib : PathLib := ⟨fun pattern name => pattern = name, fun _ _ _ => rfl⟩

def getToken : Token where
  text := bytes "GET"
  ascii := by
    have hall : ((bytes "GET").all fun c => decide (c < 128)) = true := by decide
    intro c hc
    exact of_decide_eq_true (List.all_eq_true.mp hall c hc)

end faultbox.openapi_routes
