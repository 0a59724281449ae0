-- The operation table of a client. BuildOpenAPIOperations walks a document in the order of its
-- paths and methods, gives every operation a canonical name (after the renames of the spec), and
-- files it under that name and under the contract's own name. The law: the table is built just
-- when the names allow it, and then each of the two indexes reaches every operation once.
import Faultbox.GoValues
import Faultbox.OpenApiRoutes

open goval gopath gotext

namespace faultbox.operation_table

open openapi_routes (Method splitPathSegments openBrace closeBrace)

/-! ## Canonical names -/

/-- The runes of a string and their classes, as package unicode has them. -/
structure Unicode where
  runes : Bytes → List Char
  spell : Char → Bytes
  isUpper : Char → Bool
  isLower : Char → Bool
  isDigit : Char → Bool
  toLower : Char → Char

def flush (cur : Bytes) : List Bytes := if cur = [] then [] else [cur]

/-- The loop of `splitIdentifierWords`, after the rune `prev` and with the word `cur` begun. -/
def Unicode.wordsFrom (u : Unicode) (prev : Option Char) (cur : Bytes) : List Char → List Bytes
  | [] => flush cur
  | r :: rest =>
    if u.isUpper r then
      let startsWord := prev.any fun p =>
        u.isLower p || u.isDigit p || (u.isUpper p && rest.head?.any u.isLower)
      if cur ≠ [] && startsWord then cur :: u.wordsFrom (some r) (u.spell (u.toLower r)) rest
      else u.wordsFrom (some r) (cur ++ u.spell (u.toLower r)) rest
    else if u.isLower r || u.isDigit r then u.wordsFrom (some r) (cur ++ u.spell r) rest
    else flush cur ++ u.wordsFrom (some r) [] rest

def Unicode.splitIdentifierWords (u : Unicode) (raw : Bytes) : List Bytes :=
  u.wordsFrom none [] (u.runes raw)

/-- `CanonicalName`; `none` is its error. -/
def Unicode.canonicalName (u : Unicode) (raw : Bytes) : Option Bytes :=
  let words := u.splitIdentifierWords raw
  let out := List.intercalate (bytes "_") words
  if words = [] then none
  -- The first byte is taken for a rune.
  else if out.head?.any fun b => u.isDigit (Char.ofNat b.toNat) then some (bytes "op_" ++ out)
  else some out

/-! ## Documents -/

structure Parameter where
  name : Bytes
  loc : Bytes
  required : Bool
  description : Bytes
deriving DecidableEq

structure RequestBody where
  required : Bool
  /-- The media types, and whether they are described. -/
  content : GoMap Bytes Bool

/-- An operation of the document; a parameter is `none` where its reference or value is nil. -/
structure Declaration where
  operationId : Bytes
  summary : Bytes
  parameters : List (Option Parameter)
  requestBody : Option RequestBody

structure PathItem where
  parameters : List (Option Parameter)
  operation : Method → Option Declaration

structure Document where
  path : Bytes
  version : Bytes
  paths : GoMap Bytes (Option PathItem)

/-- An operation with the place where the document declares it. -/
structure Declared where
  path : Bytes
  item : PathItem
  method : Method
  op : Declaration

def Document.Declares (doc : Document) (d : Declared) : Prop :=
  doc.paths.lookup d.path = some (some d.item) ∧ d.item.operation d.method = some d.op

def declaredAt (path : Bytes) (item : PathItem) : List Declared :=
  Method.all.filterMap fun m => (item.operation m).map fun op => ⟨path, item, m, op⟩

/-- The operations in the order of the walk. -/
def Document.declared (doc : Document) : List Declared :=
  (doc.paths.keys.insertionSort (· ≤ ·)).flatMap fun p =>
    match doc.paths.lookup p with
    | some (some item) => declaredAt p item
    | _ => []

/-! ## One operation -/

/-- A parameter of an operation of the table. -/
structure Param where
  name : Bytes
  wireName : Bytes
  loc : Bytes
  required : Bool
  description : Bytes
deriving DecidableEq

structure Operation where
  name : Bytes
  contractName : Bytes
  method : Method
  pathTemplate : Bytes
  summary : Bytes
  params : List Param
  acceptsBody : Bool
  bodyRequired : Bool
  contentType : Bytes
deriving DecidableEq

/-- The errors, with what their texts name. -/
inductive BuildError where
  | noPaths (doc : Bytes)
  | noOperations (doc : Bytes)
  | unusedRename (key doc : Bytes)
  | unnamedTarget (target contractName : Bytes)
  | unnamed (method : Method) (path contractName : Bytes)
  | unnamedParam (contractName param : Bytes)
  | reservedParam (contractName param canonical purpose : Bytes)
  | paramClash (contractName : Bytes) (prev p : Param)
  | collision (prev contractName name : Bytes)

def trimBraces (seg : Bytes) : Bytes :=
  let seg := if seg.head? = some openBrace then seg.tail else seg
  if seg.getLast? = some closeBrace then seg.dropLast else seg

def synthesizeOperationID (method : Method) (path : Bytes) : Bytes :=
  List.intercalate (bytes "_") (method.name.map lower ::
    ((splitPathSegments path).map trimBraces).filter (· ≠ []))

def Declared.contractName (d : Declared) : Bytes :=
  if d.op.operationId = [] then synthesizeOperationID d.method d.path else d.op.operationId

/-- The name that an operation is asked to have: the rename target, or its own. -/
def Declared.wanted (rename : GoMap Bytes Bytes) (d : Declared) : Bytes :=
  (rename.lookup d.contractName).getD d.contractName

def Declared.parameters (d : Declared) : List Parameter :=
  (d.item.parameters ++ d.op.parameters).reduceOption

/-- The parameters of the path and of the operation: the later one of a name and place wins. -/
def Declared.merged (d : Declared) : GoMap (Bytes × Bytes) Parameter :=
  storeAll ∅ (d.parameters.map fun p => ((p.name, p.loc), p))

def reservedKwargs : List (Bytes × Bytes) :=
  [(bytes "body", bytes "the request body"), (bytes "headers", bytes "per-call header overrides"),
   (bytes "timeout", bytes "the per-call deadline")]

def bindParam (u : Unicode) (contractName : Bytes) (p : Parameter) : Except BuildError Param :=
  match u.canonicalName p.name with
  | none => .error (.unnamedParam contractName p.name)
  | some canonical =>
    match reservedKwargs.find? fun kw => kw.1 = canonical with
    | some kw => .error (.reservedParam contractName p.name canonical kw.2)
    | none => .ok ⟨canonical, p.name, p.loc, p.required || p.loc = bytes "path", p.description⟩

def checkClashes (contractName : Bytes) (seen : GoMap Bytes Param) :
    List Param → Except BuildError Unit
  | [] => .ok ()
  | p :: rest =>
    match seen.lookup p.name with
    | some prev => .error (.paramClash contractName prev p)
    | none => checkClashes contractName (seen.insert p.name p) rest

def rank (loc : Bytes) : Nat :=
  if loc = bytes "query" then 1
  else if loc = bytes "header" then 2
  else if loc = bytes "cookie" then 3
  else if loc = bytes "field" then 4
  else 0

def sortParams (ps : List Param) : List Param :=
  ps.insertionSort fun p q => rank p.loc < rank q.loc ∨ rank p.loc = rank q.loc ∧ p.name ≤ q.name

def collectOpenAPIParams (u : Unicode) (mo : MapOrder) (d : Declared) :
    Except BuildError (List Param) := do
  let out ← (mo.order (pairs d.merged)).mapM fun e => bindParam u d.contractName e.2
  checkClashes d.contractName ∅ out
  return sortParams out

def jsonType : Bytes := bytes "application/json"

def pickMediaType (content : GoMap Bytes Bool) : Option Bytes :=
  if content.lookup jsonType = some true then some jsonType
  else (content.keys.insertionSort (· ≤ ·)).find? fun k => content.lookup k = some true

def operationOf (d : Declared) (canonical : Bytes) (params : List Param) : Operation where
  name := canonical
  contractName := d.contractName
  method := d.method
  pathTemplate := d.path
  summary := d.op.summary
  params := params
  acceptsBody := d.op.requestBody.isSome
  bodyRequired := d.op.requestBody.any RequestBody.required
  contentType := d.op.requestBody.elim [] fun body => (pickMediaType body.content).getD jsonType

/-- `buildOpenAPIOperation`, but for the mark of the rename it uses. -/
def buildOpenAPIOperation (u : Unicode) (mo : MapOrder) (rename : GoMap Bytes Bytes)
    (d : Declared) : Except BuildError Operation :=
  match u.canonicalName (d.wanted rename) with
  | none => .error (if d.contractName ∈ rename then .unnamedTarget (d.wanted rename) d.contractName
      else .unnamed d.method d.path d.contractName)
  | some canonical => do
    let params ← collectOpenAPIParams u mo d
    return operationOf d canonical params

/-! ## The table -/

structure OperationTable where
  /-- The document and its version. -/
  contract : Bytes × Bytes
  ops : GoMap Bytes Operation
  byContractName : GoMap Bytes Operation
  order : List Bytes

def newOperationTable (doc : Document) : OperationTable := ⟨(doc.path, doc.version), ∅, ∅, []⟩

def OperationTable.add (t : OperationTable) (op : Operation) : Except BuildError OperationTable :=
  match t.ops.lookup op.name with
  | some prev => .error (.collision prev.contractName op.contractName op.name)
  | none => .ok { t with
      ops := t.ops.insert op.name op
      byContractName := t.byContractName.insert op.contractName op
      order := t.order ++ [op.name] }

def OperationTable.finalize (t : OperationTable) : OperationTable :=
  { t with order := t.order.insertionSort (· ≤ ·) }

def OperationTable.names (t : OperationTable) : List Bytes := t.order

def OperationTable.lookup (t : OperationTable) (name : Bytes) : Option Operation :=
  t.ops.lookup name

def OperationTable.lookupContractName (t : OperationTable) (name : Bytes) : Option Operation :=
  t.byContractName.lookup name

/-- The body of the walk: the table so far and the renames that were used. -/
def addOperation (u : Unicode) (mo : MapOrder) (rename : GoMap Bytes Bytes)
    (st : OperationTable × List Bytes) (d : Declared) :
    Except BuildError (OperationTable × List Bytes) := do
  let built ← buildOpenAPIOperation u mo rename d
  let table ← st.1.add built
  return (table, if d.contractName ∈ rename then st.2 ++ [d.contractName] else st.2)

def buildOpenAPIOperations (u : Unicode) (mo : MapOrder) (rename : GoMap Bytes Bytes)
    (doc : Document) : Except BuildError OperationTable :=
  if doc.paths.keys = [] then .error (.noPaths doc.path)
  else do
    let st ← doc.declared.foldlM (addOperation u mo rename) (newOperationTable doc, [])
    match (mo.order rename.keys).find? fun key => !st.2.contains key with
    | some key => .error (.unusedRename key doc.path)
    | none =>
      if st.1.ops.keys = [] then .error (.noOperations doc.path) else .ok st.1.finalize

/-! ## What is asked for -/

/-- The names of a document and a rename map allow a table. -/
structure Buildable (u : Unicode) (rename : GoMap Bytes Bytes) (doc : Document) : Prop where
  declares : ∃ d, doc.Declares d
  named : ∀ d, doc.Declares d → (u.canonicalName (d.wanted rename)).isSome
  distinct : ∀ d d', doc.Declares d → doc.Declares d' →
    u.canonicalName (d.wanted rename) = u.canonicalName (d'.wanted rename) → d = d'
  paramsNamed : ∀ d, doc.Declares d → ∀ p ∈ d.parameters, (u.canonicalName p.name).isSome
  paramsDistinct : ∀ d, doc.Declares d → ∀ p ∈ d.parameters, ∀ q ∈ d.parameters,
    u.canonicalName p.name = u.canonicalName q.name → p.name = q.name ∧ p.loc = q.loc
  paramsFree : ∀ d, doc.Declares d → ∀ p ∈ d.parameters, ∀ kw ∈ reservedKwargs,
    u.canonicalName p.name ≠ some kw.1
  renamesUsed : ∀ key ∈ rename, ∃ d, doc.Declares d ∧ d.contractName = key

def Operation.Calls (op : Operation) (d : Declared) : Prop :=
  op.method = d.method ∧ op.pathTemplate = d.path

/-- Each operation is found under its own name, each key reaches an operation of the document,
and each operation is reached by one key. -/
structure Indexes (doc : Document) (nameOf : Declared → Option Bytes) (keys : List Bytes)
    (find : Bytes → Option Operation) : Prop where
  nodup : keys.Nodup
  filed : ∀ d, doc.Declares d → ∃ k ∈ keys, nameOf d = some k ∧
    ∃ op, find k = some op ∧ op.Calls d
  reaches : ∀ k ∈ keys, ∃ op, find k = some op ∧ ∃ d, doc.Declares d ∧ op.Calls d
  once : ∀ d, doc.Declares d → ∃! k, k ∈ keys ∧ ∃ op, find k = some op ∧ op.Calls d

/-! ## The walk over the document -/

theorem Method.mem_all (m : Method) : m ∈ Method.all := by
  cases m <;> decide

variable {d : Declared} {doc : Document} {ε α β : Type} {p : Parameter}

theorem mem_declaredAt {path : Bytes} {item : PathItem} :
    d ∈ declaredAt path item ↔
      d.path = path ∧ d.item = item ∧ item.operation d.method = some d.op := by
  unfold declaredAt
  rw [List.mem_filterMap]
  constructor
  · rintro ⟨m, -, hm⟩
    obtain ⟨op, ho, rfl⟩ := Option.map_eq_some_iff.mp hm
    exact ⟨rfl, rfl, ho⟩
  · rintro ⟨rfl, rfl, ho⟩
    exact ⟨d.method, Method.mem_all _, Option.map_eq_some_iff.mpr ⟨d.op, ho, rfl⟩⟩

theorem mem_declared : d ∈ doc.declared ↔ doc.Declares d := by
  unfold Document.declared Document.Declares
  rw [List.mem_flatMap]
  constructor
  · rintro ⟨p, -, hd⟩
    split at hd
    · rename_i item hl
      obtain ⟨rfl, rfl, ho⟩ := mem_declaredAt.mp hd
      exact ⟨hl, ho⟩
    · cases hd
  · rintro ⟨hl, ho⟩
    refine ⟨d.path, ?_, ?_⟩
    · rw [List.mem_insertionSort]
      exact AList.mem_keys.mp (AList.lookup_isSome.mp (Option.isSome_iff_exists.mpr ⟨_, hl⟩))
    · rw [hl]
      exact mem_declaredAt.mpr ⟨rfl, rfl, ho⟩

/-- An operation of the document is given by its path and method. -/
theorem declares_inj {d' : Declared} (h : doc.Declares d) (h' : doc.Declares d')
    (hp : d.path = d'.path) (hm : d.method = d'.method) : d = d' := by
  obtain ⟨hl, ho⟩ := h
  obtain ⟨hl', ho'⟩ := h'
  obtain ⟨path, item, method, op⟩ := d
  obtain ⟨path', item', method', op'⟩ := d'
  dsimp only at hl ho hl' ho' hp hm
  subst hp hm
  obtain rfl : item = item' := Option.some.inj (Option.some.inj (hl.symm.trans hl'))
  obtain rfl : op = op' := Option.some.inj (ho.symm.trans ho')
  rfl

theorem nodup_declaredAt (path : Bytes) (item : PathItem) : (declaredAt path item).Nodup := by
  apply List.Nodup.filterMap
  · intro m m' d hd hd'
    obtain ⟨op, -, rfl⟩ := Option.map_eq_some_iff.mp hd
    obtain ⟨op', -, he⟩ := Option.map_eq_some_iff.mp hd'
    exact (congrArg Declared.method he).symm
  · decide

theorem nodup_declared (doc : Document) : doc.declared.Nodup := by
  unfold Document.declared
  rw [List.nodup_flatMap]
  constructor
  · intro p _
    split
    · exact nodup_declaredAt _ _
    · exact List.nodup_nil
  · have hk : (doc.paths.keys.insertionSort (· ≤ ·)).Nodup :=
      (List.perm_insertionSort _ _).nodup_iff.mpr doc.paths.keys_nodup
    refine hk.imp fun {p q} hne d hp hq => ?_
    dsimp only at hp hq
    split at hp
    · split at hq
      · exact hne ((mem_declaredAt.mp hp).1.symm.trans (mem_declaredAt.mp hq).1)
      · cases hq
    · cases hp

/-! ## When an operation is built -/

theorem bind_eq_ok {x : Except ε α} {f : α → Except ε β} {b : β} :
    (x >>= f) = .ok b ↔ ∃ a, x = .ok a ∧ f a = .ok b := by
  cases x with
  | error e =>
    constructor
    · intro h
      cases h
    · rintro ⟨a, h, -⟩
      cases h
  | ok a =>
    constructor
    · intro h
      exact ⟨a, rfl, h⟩
    · rintro ⟨a', h, hf⟩
      obtain rfl := Except.ok.inj h
      exact hf

theorem mapM_eq_ok (f : α → Except ε β) (l : List α) (l' : List β) :
    l.mapM f = .ok l' ↔ l.map f = l'.map .ok := by
  induction l generalizing l' with
  | nil =>
    rw [List.mapM_nil]
    constructor
    · intro h
      rw [← Except.ok.inj h]
      rfl
    · intro h
      rw [List.map_eq_nil_iff.mp h.symm]
      rfl
  | cons x l ih =>
    rw [List.mapM_cons, bind_eq_ok, List.map_cons]
    constructor
    · rintro ⟨y, hy, h⟩
      obtain ⟨ys, hys, h⟩ := bind_eq_ok.mp h
      rw [← Except.ok.inj h, List.map_cons, hy, (ih ys).mp hys]
    · intro h
      obtain _ | ⟨y, ys⟩ := l'
      · cases h
      · rw [List.map_cons, List.cons.injEq] at h
        exact ⟨y, h.1, bind_eq_ok.mpr ⟨ys, (ih ys).mpr h.2, rfl⟩⟩

/-- All of a list succeed just when there is the list of their results. -/
theorem exists_map_ok (f : α → Except ε β) (l : List α) :
    (∃ l' : List β, l.map f = l'.map .ok) ↔ ∀ x ∈ l, ∃ y, f x = .ok y := by
  have hr := Set.ext_iff.mp (Set.range_list_map (Except.ok : β → Except ε β)) (l.map f)
  constructor
  · rintro ⟨l', h⟩ x hx
    obtain ⟨y, hy⟩ := hr.mp ⟨l', h.symm⟩ (f x) (List.mem_map_of_mem hx)
    exact ⟨y, hy.symm⟩
  · intro h
    obtain ⟨l', hl⟩ := hr.mpr (by
      intro e he
      obtain ⟨x, hx, rfl⟩ := List.mem_map.mp he
      obtain ⟨y, hy⟩ := h x hx
      exact ⟨y, hy.symm⟩)
    exact ⟨l', hl.symm⟩

variable {u : Unicode} {mo : MapOrder} {rename : GoMap Bytes Bytes}

theorem bindParam_ok {contractName : Bytes} {b : Param} (h : bindParam u contractName p = .ok b) :
    u.canonicalName p.name = some b.name ∧ ∀ kw ∈ reservedKwargs, b.name ≠ kw.1 := by
  unfold bindParam at h
  split at h
  · cases h
  · rename_i canonical hc
    split at h
    · cases h
    · rename_i hf
      obtain rfl := Except.ok.inj h
      refine ⟨hc, fun kw hkw he => ?_⟩
      exact List.find?_eq_none.mp hf kw hkw (decide_eq_true he.symm)

theorem exists_bindParam (contractName : Bytes) (h : (u.canonicalName p.name).isSome)
    (hf : ∀ kw ∈ reservedKwargs, u.canonicalName p.name ≠ some kw.1) :
    ∃ b, bindParam u contractName p = .ok b := by
  obtain ⟨canonical, hc⟩ := Option.isSome_iff_exists.mp h
  have hn : (reservedKwargs.find? fun kw => kw.1 = canonical) = none := by
    rw [List.find?_eq_none]
    intro kw hkw he
    exact hf kw hkw (hc.trans (congrArg some (of_decide_eq_true he).symm))
  exact ⟨_, by rw [bindParam, hc]; dsimp only; rw [hn]⟩

theorem checkClashes_ok (contractName : Bytes) (seen : GoMap Bytes Param) (out : List Param) :
    checkClashes contractName seen out = .ok () ↔
      (out.map Param.name).Nodup ∧ ∀ p ∈ out, p.name ∉ seen := by
  induction out generalizing seen with
  | nil => simp [checkClashes]
  | cons p out ih =>
    rw [checkClashes, List.map_cons, List.nodup_cons, List.forall_mem_cons]
    cases hl : seen.lookup p.name with
    | some prev =>
      have hm : p.name ∈ seen := AList.lookup_isSome.mp (Option.isSome_iff_exists.mpr ⟨prev, hl⟩)
      constructor
      · intro h
        cases h
      · intro h
        exact absurd hm h.2.1
    | none =>
      have hm : p.name ∉ seen := AList.lookup_eq_none.mp hl
      dsimp only
      rw [ih]
      simp only [AList.mem_insert, not_or, List.mem_map, not_exists, not_and]
      constructor
      · rintro ⟨hn, ho⟩
        exact ⟨⟨fun q hq => (ho q hq).1, hn⟩, hm, fun q hq => (ho q hq).2⟩
      · rintro ⟨⟨hp, hn⟩, -, ho⟩
        exact ⟨hn, fun q hq => ⟨hp q hq, ho q hq⟩⟩

/-- The merged map has the names and places of the parameters, each once. -/
theorem merged_entry {k : Bytes × Bytes} (h : (k, p) ∈ pairs d.merged) :
    p ∈ d.parameters ∧ k = (p.name, p.loc) := by
  have hl : d.merged.lookup k = some p := mem_pairs.mp h
  have hm : k ∈ d.merged := AList.lookup_isSome.mp (Option.isSome_iff_exists.mpr ⟨p, hl⟩)
  rw [Declared.merged, mem_storeAll] at hm
  obtain ⟨x, hx, hlx⟩ := lookup_storeAll_of_mem ∅ (hm.resolve_left (AList.notMem_empty k))
  obtain rfl : x = p := Option.some.inj (hlx.symm.trans hl)
  obtain ⟨q, hq, he⟩ := List.mem_map.mp hx
  obtain ⟨rfl, rfl⟩ := Prod.mk.inj he
  exact ⟨hq, rfl⟩

theorem exists_merged (h : p ∈ d.parameters) :
    ∃ q, ((p.name, p.loc), q) ∈ pairs d.merged := by
  have hk : (p.name, p.loc) ∈ (d.parameters.map fun p => ((p.name, p.loc), p)).map Prod.fst := by
    rw [List.map_map]
    exact List.mem_map.mpr ⟨p, h, rfl⟩
  obtain ⟨q, -, hl⟩ := lookup_storeAll_of_mem ∅ hk
  exact ⟨q, mem_pairs.mpr hl⟩

/-- The results have different names just when their sources have. -/
theorem nodup_results {γ : Type} {f : α → Except ε β} {g : α → Option γ} {name : β → γ}
    (hg : ∀ x y, f x = .ok y → g x = some (name y)) {l : List α} {l' : List β} (hl : l.Nodup)
    (h : l.map f = l'.map .ok) :
    (l'.map name).Nodup ↔ ∀ x ∈ l, ∀ y ∈ l, g x = g y → x = y := by
  have he : l.map g = (l'.map name).map some := by
    clear hl
    induction l generalizing l' with
    | nil =>
      rw [List.map_eq_nil_iff.mp h.symm]
      rfl
    | cons x l ih =>
      obtain _ | ⟨y, l'⟩ := l'
      · cases h
      · rw [List.map_cons, List.map_cons, List.cons.injEq] at h
        rw [List.map_cons, List.map_cons, List.map_cons, hg x y h.1, ih h.2]
  rw [← List.nodup_map_iff (Option.some_injective γ), ← he]
  exact List.nodup_map_iff_inj_on hl

theorem collect_ok (d : Declared) :
    (∃ params, collectOpenAPIParams u mo d = .ok params) ↔
      (∀ p ∈ d.parameters, (u.canonicalName p.name).isSome) ∧
      (∀ p ∈ d.parameters, ∀ q ∈ d.parameters,
        u.canonicalName p.name = u.canonicalName q.name → p.name = q.name ∧ p.loc = q.loc) ∧
      ∀ p ∈ d.parameters, ∀ kw ∈ reservedKwargs, u.canonicalName p.name ≠ some kw.1 := by
  have hperm := mo.perm (pairs d.merged)
  have hnodup : (mo.order (pairs d.merged)).Nodup :=
    hperm.nodup_iff.mpr (List.Nodup.of_map _ (nodup_pairs d.merged))
  have hnames (out : List Param) := @nodup_results _ _ _ _
    (fun e : (Bytes × Bytes) × Parameter => bindParam u d.contractName e.2)
    (fun e => u.canonicalName e.2.name) Param.name (fun e b h => (bindParam_ok h).1)
    (mo.order (pairs d.merged)) out hnodup
  -- A parameter and the entry of its name and place.
  have hentry : ∀ p ∈ d.parameters, ∃ e ∈ mo.order (pairs d.merged),
      e.1 = (p.name, p.loc) ∧ e.2.name = p.name := by
    intro p hp
    obtain ⟨q, hq⟩ := exists_merged hp
    exact ⟨_, hperm.mem_iff.mpr hq, rfl, (congrArg Prod.fst (merged_entry hq).2).symm⟩
  constructor
  · rintro ⟨params, h⟩
    obtain ⟨out, hout, h⟩ := bind_eq_ok.mp h
    obtain ⟨_, hclash, -⟩ := bind_eq_ok.mp h
    rw [mapM_eq_ok] at hout
    have hinj := (hnames out hout).mp ((checkClashes_ok _ _ _).mp hclash).1
    have hbound : ∀ p ∈ d.parameters, ∃ b : Param, u.canonicalName p.name = some b.name ∧
        ∀ kw ∈ reservedKwargs, b.name ≠ kw.1 := by
      intro p hp
      obtain ⟨e, he, -, hn⟩ := hentry p hp
      obtain ⟨b, hb⟩ := (exists_map_ok _ _).mp ⟨out, hout⟩ e he
      exact ⟨b, hn ▸ bindParam_ok hb⟩
    refine ⟨fun p hp => ?_, fun p hp q hq hpq => ?_, fun p hp kw hkw he => ?_⟩
    · obtain ⟨b, hb, -⟩ := hbound p hp
      exact Option.isSome_iff_exists.mpr ⟨_, hb⟩
    · obtain ⟨e, he, hk, hn⟩ := hentry p hp
      obtain ⟨e', he', hk', hn'⟩ := hentry q hq
      have hee : e = e' := hinj e he e' he' (by rw [hn, hn', hpq])
      exact Prod.mk.inj (hk.symm.trans ((congrArg Prod.fst hee).trans hk'))
    · obtain ⟨b, hb, hf⟩ := hbound p hp
      exact hf kw hkw (Option.some.inj (hb.symm.trans he))
  · rintro ⟨hnamed, hdistinct, hfree⟩
    have hparam : ∀ e ∈ mo.order (pairs d.merged),
        e.2 ∈ d.parameters ∧ e.1 = (e.2.name, e.2.loc) := by
      intro e he
      exact merged_entry (hperm.mem_iff.mp he)
    obtain ⟨out, hout⟩ := (exists_map_ok
        (fun e : (Bytes × Bytes) × Parameter => bindParam u d.contractName e.2)
        (mo.order (pairs d.merged))).mpr (by
      intro e he
      exact exists_bindParam _ (hnamed _ (hparam e he).1) (hfree _ (hparam e he).1))
    have hclash : checkClashes d.contractName ∅ out = .ok () := by
      refine (checkClashes_ok _ _ _).mpr ⟨(hnames out hout).mpr ?_, fun p _ => AList.notMem_empty _⟩
      intro e he e' he' hn
      -- The same name and place is the same entry of the map.
      obtain ⟨hp, hk⟩ := hparam e he
      obtain ⟨hp', hk'⟩ := hparam e' he'
      obtain ⟨h1, h2⟩ := hdistinct _ hp _ hp' hn
      have hkey : e.1 = e'.1 := by rw [hk, hk', h1, h2]
      exact List.inj_on_of_nodup_map (nodup_pairs d.merged) (hperm.mem_iff.mp he)
        (hperm.mem_iff.mp he') hkey
    exact ⟨sortParams out, bind_eq_ok.mpr ⟨out, (mapM_eq_ok _ _ _).mpr hout,
      bind_eq_ok.mpr ⟨(), hclash, rfl⟩⟩⟩

theorem buildOpenAPIOperation_ok {op : Operation} (h : buildOpenAPIOperation u mo rename d = .ok op)
    :
    u.canonicalName (d.wanted rename) = some op.name ∧ op.contractName = d.contractName ∧
      op.Calls d ∧ ∃ params, collectOpenAPIParams u mo d = .ok params := by
  unfold buildOpenAPIOperation at h
  split at h
  · cases h
  · rename_i canonical hc
    obtain ⟨params, hp, h⟩ := bind_eq_ok.mp h
    obtain rfl := Except.ok.inj h
    exact ⟨hc, rfl, ⟨rfl, rfl⟩, params, hp⟩

theorem exists_built (d : Declared) :
    (∃ op, buildOpenAPIOperation u mo rename d = .ok op) ↔
      (u.canonicalName (d.wanted rename)).isSome ∧
      ∃ params, collectOpenAPIParams u mo d = .ok params := by
  constructor
  · rintro ⟨op, h⟩
    obtain ⟨hn, -, -, hp⟩ := buildOpenAPIOperation_ok h
    exact ⟨Option.isSome_iff_exists.mpr ⟨_, hn⟩, hp⟩
  · rintro ⟨hn, params, hp⟩
    obtain ⟨canonical, hc⟩ := Option.isSome_iff_exists.mp hn
    refine ⟨operationOf d canonical params, ?_⟩
    rw [buildOpenAPIOperation, hc]
    exact bind_eq_ok.mpr ⟨params, hp, rfl⟩

/-! ## When the table is built -/

/-- The table with some operations more. -/
def OperationTable.addAll (t : OperationTable) (ops : List Operation) : OperationTable :=
  { t with
    ops := storeAll t.ops (ops.map fun op => (op.name, op))
    byContractName := storeAll t.byContractName (ops.map fun op => (op.contractName, op))
    order := t.order ++ ops.map Operation.name }

theorem addAll_cons (t : OperationTable) (op : Operation) (ops : List Operation) :
    (t.addAll [op]).addAll ops = t.addAll (op :: ops) := by
  simp [OperationTable.addAll, storeAll]

theorem add_ok {t t' : OperationTable} {op : Operation} :
    t.add op = .ok t' ↔ op.name ∉ t.ops ∧ t' = t.addAll [op] := by
  unfold OperationTable.add
  cases hl : t.ops.lookup op.name with
  | some prev =>
    have hm : op.name ∈ t.ops := AList.lookup_isSome.mp (Option.isSome_iff_exists.mpr ⟨prev, hl⟩)
    constructor
    · intro h
      cases h
    · intro h
      exact absurd hm h.1
  | none =>
    have hm : op.name ∉ t.ops := AList.lookup_eq_none.mp hl
    constructor
    · intro h
      exact ⟨hm, (Except.ok.inj h).symm⟩
    · rintro ⟨-, rfl⟩
      rfl

/-- The contract names that the walk marks as used. -/
def renamed (rename : GoMap Bytes Bytes) (ds : List Declared) : List Bytes :=
  (ds.map Declared.contractName).filter (· ∈ rename)

theorem addOperation_ok {st st' : OperationTable × List Bytes} :
    addOperation u mo rename st d = .ok st' ↔
      ∃ op, buildOpenAPIOperation u mo rename d = .ok op ∧ op.name ∉ st.1.ops ∧
        st' = (st.1.addAll [op], st.2 ++ renamed rename [d]) := by
  have hu : (if d.contractName ∈ rename then st.2 ++ [d.contractName] else st.2) =
      st.2 ++ renamed rename [d] := by
    unfold renamed
    split
    · rename_i hm
      simp [hm]
    · rename_i hm
      simp [hm]
  unfold addOperation
  rw [bind_eq_ok, hu]
  refine exists_congr fun op => and_congr_right fun _ => ?_
  rw [bind_eq_ok]
  constructor
  · rintro ⟨t, ht, h⟩
    obtain ⟨hm, rfl⟩ := add_ok.mp ht
    exact ⟨hm, (Except.ok.inj h).symm⟩
  · rintro ⟨hm, rfl⟩
    exact ⟨_, add_ok.mpr ⟨hm, rfl⟩, rfl⟩

theorem walk_ok (ds : List Declared) (st st' : OperationTable × List Bytes) :
    ds.foldlM (addOperation u mo rename) st = .ok st' ↔
      ∃ ops, ds.map (buildOpenAPIOperation u mo rename) = ops.map .ok ∧
        (ops.map Operation.name).Nodup ∧ (∀ op ∈ ops, op.name ∉ st.1.ops) ∧
        st' = (st.1.addAll ops, st.2 ++ renamed rename ds) := by
  induction ds generalizing st with
  | nil =>
    rw [List.foldlM_nil]
    constructor
    · intro h
      refine ⟨[], rfl, List.nodup_nil, by simp, ?_⟩
      rw [← Except.ok.inj h]
      simp [OperationTable.addAll, storeAll, renamed]
    · rintro ⟨ops, h, -, -, rfl⟩
      rw [List.map_eq_nil_iff.mp h.symm]
      simp [OperationTable.addAll, storeAll, renamed, pure, Except.pure]
  | cons d ds ih =>
    have hu : renamed rename (d :: ds) = renamed rename [d] ++ renamed rename ds := by
      rw [renamed, renamed, renamed, ← List.filter_append, ← List.map_append, List.singleton_append]
    have hmem (op : Operation) (n : Bytes) :
        n ∈ (st.1.addAll [op]).ops ↔ n ∈ st.1.ops ∨ n = op.name := by
      simp [OperationTable.addAll, mem_storeAll]
    rw [List.foldlM_cons, bind_eq_ok, hu]
    constructor
    · rintro ⟨st₁, h₁, h⟩
      obtain ⟨op, hop, hm, rfl⟩ := addOperation_ok.mp h₁
      obtain ⟨ops, hops, hn, hfresh, rfl⟩ := (ih _).mp h
      refine ⟨op :: ops, ?_, ?_, ?_, ?_⟩
      · rw [List.map_cons, List.map_cons, hop, hops]
      · rw [List.map_cons, List.nodup_cons]
        refine ⟨fun he => ?_, hn⟩
        obtain ⟨op', hop', he⟩ := List.mem_map.mp he
        exact hfresh op' hop' ((hmem op _).mpr (.inr he))
      · rw [List.forall_mem_cons]
        exact ⟨hm, fun op' hop' hin => hfresh op' hop' ((hmem op _).mpr (.inl hin))⟩
      · rw [addAll_cons, List.append_assoc]
    · rintro ⟨ops, hops, hn, hfresh, rfl⟩
      obtain _ | ⟨op, ops⟩ := ops
      · cases hops
      · rw [List.map_cons, List.map_cons, List.cons.injEq] at hops
        rw [List.map_cons, List.nodup_cons] at hn
        rw [List.forall_mem_cons] at hfresh
        refine ⟨_, addOperation_ok.mpr ⟨op, hops.1, hfresh.1, rfl⟩,
          (ih _).mpr ⟨ops, hops.2, hn.2, ?_, ?_⟩⟩
        · intro op' hop' hin
          rcases (hmem op _).mp hin with hin | he
          · exact hfresh.2 op' hop' hin
          · exact hn.1 (List.mem_map.mpr ⟨op', hop', he⟩)
        · rw [addAll_cons, List.append_assoc]

theorem find_unused (ds : List Declared) :
    ((mo.order rename.keys).find? fun key => !(renamed rename ds).contains key) = none ↔
      ∀ key ∈ rename, ∃ d ∈ ds, d.contractName = key := by
  rw [List.find?_eq_none]
  simp only [(mo.perm rename.keys).mem_iff, ← AList.mem_keys, Bool.not_eq_true',
    Bool.not_eq_false, List.contains_iff_mem, renamed, List.mem_filter, List.mem_map,
    decide_eq_true_eq]
  exact forall₂_congr fun key hk => and_iff_left hk

theorem table_ok (doc : Document) (t : OperationTable) :
    buildOpenAPIOperations u mo rename doc = .ok t ↔
      ∃ ops, doc.declared.map (buildOpenAPIOperation u mo rename) = ops.map .ok ∧
        (ops.map Operation.name).Nodup ∧ ops ≠ [] ∧
        (∀ key ∈ rename, ∃ d ∈ doc.declared, d.contractName = key) ∧
        t = ((newOperationTable doc).addAll ops).finalize := by
  have hempty (ops : List Operation) : ((newOperationTable doc).addAll ops).ops.keys = [] ↔
      ops = [] := by
    constructor
    · intro h
      refine List.eq_nil_iff_forall_not_mem.mpr fun op hop => ?_
      have hm : op.name ∈ ((newOperationTable doc).addAll ops).ops :=
        (mem_storeAll _ _ _).mpr (.inr (List.mem_map.mpr
          ⟨_, List.mem_map.mpr ⟨op, hop, rfl⟩, rfl⟩))
      rw [AList.mem_keys, h] at hm
      cases hm
    · rintro rfl
      rfl
  unfold buildOpenAPIOperations
  split
  · rename_i hk
    -- Without paths there is no operation either.
    have hd : doc.declared = [] := by
      rw [Document.declared, hk]
      rfl
    constructor
    · intro h
      cases h
    · rintro ⟨ops, hops, -, hne, -, -⟩
      rw [hd] at hops
      exact absurd (List.map_eq_nil_iff.mp hops.symm) hne
  · rw [bind_eq_ok]
    constructor
    · rintro ⟨st, hst, h⟩
      obtain ⟨ops, hops, hn, -, rfl⟩ := (walk_ok _ _ _).mp hst
      dsimp only [List.nil_append] at h
      split at h
      · cases h
      · rename_i hf
        split at h
        · cases h
        · rename_i hne
          exact ⟨ops, hops, hn, fun h0 => hne ((hempty ops).mpr h0),
            (find_unused doc.declared).mp hf, (Except.ok.inj h).symm⟩
    · rintro ⟨ops, hops, hn, hne, hr, rfl⟩
      refine ⟨_, (walk_ok _ _ _).mpr ⟨ops, hops, hn, fun op _ => AList.notMem_empty _, rfl⟩, ?_⟩
      dsimp only [List.nil_append]
      rw [(find_unused doc.declared).mpr hr]
      dsimp only
      exact if_neg fun h0 => hne ((hempty ops).mp h0)

theorem buildable_iff (doc : Document) :
    (∃ t, buildOpenAPIOperations u mo rename doc = .ok t) ↔ Buildable u rename doc := by
  have hdistinct {ops : List Operation}
      (hops : doc.declared.map (buildOpenAPIOperation u mo rename) = ops.map .ok) :=
    nodup_results (fun _ _ h => (buildOpenAPIOperation_ok h).1) (nodup_declared doc) hops
  constructor
  · rintro ⟨t, ht⟩
    obtain ⟨ops, hops, hn, hne, hr, -⟩ := (table_ok doc t).mp ht
    have hbuilt : ∀ d, doc.Declares d → _ ∧ _ := fun d hd =>
      (exists_built d).mp ((exists_map_ok _ _).mp ⟨ops, hops⟩ d (mem_declared.mpr hd))
    have hparams := fun d hd => (collect_ok d).mp (hbuilt d hd).2
    constructor
    · obtain ⟨d, hd⟩ := List.exists_mem_of_ne_nil doc.declared (by
        intro h0
        rw [h0] at hops
        exact hne (List.map_eq_nil_iff.mp hops.symm))
      exact ⟨d, mem_declared.mp hd⟩
    · exact fun d hd => (hbuilt d hd).1
    · exact fun d d' hd hd' h =>
        (hdistinct hops).mp hn d (mem_declared.mpr hd) d' (mem_declared.mpr hd') h
    · exact fun d hd => (hparams d hd).1
    · exact fun d hd => (hparams d hd).2.1
    · exact fun d hd => (hparams d hd).2.2
    · intro key hk
      obtain ⟨d, hd, he⟩ := hr key hk
      exact ⟨d, mem_declared.mp hd, he⟩
  · intro h
    obtain ⟨ops, hops⟩ := (exists_map_ok (buildOpenAPIOperation u mo rename) doc.declared).mpr (by
      intro d hd
      rw [mem_declared] at hd
      exact (exists_built d).mpr ⟨h.named d hd, (collect_ok d).mpr
        ⟨h.paramsNamed d hd, h.paramsDistinct d hd, h.paramsFree d hd⟩⟩)
    refine ⟨_, (table_ok doc _).mpr ⟨ops, hops, (hdistinct hops).mpr ?_, ?_, ?_, rfl⟩⟩
    · intro d hd d' hd'
      exact h.distinct d d' (mem_declared.mp hd) (mem_declared.mp hd')
    · rintro rfl
      obtain ⟨d, hd⟩ := h.declares
      rw [List.map_nil, List.map_eq_nil_iff] at hops
      rw [← mem_declared, hops] at hd
      cases hd
    · intro key hk
      obtain ⟨d, hd, he⟩ := h.renamesUsed key hk
      exact ⟨d, mem_declared.mpr hd, he⟩

/-! ## The two indexes -/

/-- Operations that are stored under different keys are found under them. -/
theorem indexes_of {ops : List Operation} {key : Operation → Bytes}
    {nameOf : Declared → Option Bytes}
    (hkey : ∀ d op, buildOpenAPIOperation u mo rename d = .ok op → nameOf d = some (key op))
    (hops : doc.declared.map (buildOpenAPIOperation u mo rename) = ops.map .ok)
    (hn : (ops.map key).Nodup) {keys : List Bytes} (hk : keys.Perm (ops.map key)) :
    Indexes doc nameOf keys (storeAll ∅ (ops.map fun op => (key op, op))).lookup := by
  have hfind : ∀ op ∈ ops,
      (storeAll ∅ (ops.map fun op => (key op, op))).lookup (key op) = some op := by
    intro op hop
    have hm : key op ∈ (ops.map fun op => (key op, op)).map Prod.fst := by
      rw [List.map_map]
      exact List.mem_map.mpr ⟨op, hop, rfl⟩
    obtain ⟨x, hx, hl⟩ := lookup_storeAll_of_mem ∅ hm
    obtain ⟨op', hop', he⟩ := List.mem_map.mp hx
    obtain ⟨hkey, rfl⟩ := Prod.mk.inj he
    rw [hl, List.inj_on_of_nodup_map hn hop' hop hkey]
  have hfrom : ∀ op ∈ ops, ∃ d ∈ doc.declared, buildOpenAPIOperation u mo rename d = .ok op := by
    intro op hop
    have hm : Except.ok op ∈ doc.declared.map (buildOpenAPIOperation u mo rename) :=
      hops ▸ List.mem_map.mpr ⟨op, hop, rfl⟩
    exact List.mem_map.mp hm
  have hbuilt : ∀ d, doc.Declares d →
      ∃ op ∈ ops, buildOpenAPIOperation u mo rename d = .ok op := by
    intro d hd
    have hm : buildOpenAPIOperation u mo rename d ∈ ops.map Except.ok :=
      hops ▸ List.mem_map.mpr ⟨d, mem_declared.mpr hd, rfl⟩
    obtain ⟨op, hop, hb⟩ := List.mem_map.mp hm
    exact ⟨op, hop, hb.symm⟩
  refine ⟨hk.nodup_iff.mpr hn, fun d hd => ?_, fun k h => ?_, fun d hd => ?_⟩
  · obtain ⟨op, hop, hb⟩ := hbuilt d hd
    exact ⟨key op, hk.mem_iff.mpr (List.mem_map.mpr ⟨op, hop, rfl⟩), hkey d op hb, op,
      hfind op hop, (buildOpenAPIOperation_ok hb).2.2.1⟩
  · obtain ⟨op, hop, rfl⟩ := List.mem_map.mp (hk.mem_iff.mp h)
    obtain ⟨d, hd, hb⟩ := hfrom op hop
    exact ⟨op, hfind op hop, d, mem_declared.mp hd, (buildOpenAPIOperation_ok hb).2.2.1⟩
  · obtain ⟨op, hop, hb⟩ := hbuilt d hd
    refine ⟨key op, ⟨hk.mem_iff.mpr (List.mem_map.mpr ⟨op, hop, rfl⟩), op, hfind op hop,
      (buildOpenAPIOperation_ok hb).2.2.1⟩, ?_⟩
    rintro k ⟨hk', op', hl, hc'⟩
    obtain ⟨op₁, hop₁, rfl⟩ := List.mem_map.mp (hk.mem_iff.mp hk')
    obtain rfl : op₁ = op' := Option.some.inj ((hfind op₁ hop₁).symm.trans hl)
    -- The other operation was built from the same path and method, and so is the same.
    obtain ⟨d', hd', hb'⟩ := hfrom op₁ hop₁
    have hc := (buildOpenAPIOperation_ok hb').2.2.1
    obtain rfl : d' = d := declares_inj (mem_declared.mp hd') hd
      (hc.2.symm.trans hc'.2) (hc.1.symm.trans hc'.1)
    rw [Except.ok.inj (hb'.symm.trans hb)]

/-- One contract name is renamed one way, so operations that share it share their name too. -/
theorem nodup_contractNames {ds : List Declared} {ops : List Operation}
    (hops : ds.map (buildOpenAPIOperation u mo rename) = ops.map .ok)
    (hn : (ops.map Operation.name).Nodup) : (ops.map Operation.contractName).Nodup := by
  have hname : ∀ op ∈ ops, some op.name =
      u.canonicalName ((rename.lookup op.contractName).getD op.contractName) := by
    intro op hop
    have hm : Except.ok op ∈ ds.map (buildOpenAPIOperation u mo rename) :=
      hops ▸ List.mem_map.mpr ⟨op, hop, rfl⟩
    obtain ⟨d, -, hb⟩ := List.mem_map.mp hm
    obtain ⟨hc, he, -⟩ := buildOpenAPIOperation_ok hb
    rw [← hc, Declared.wanted, he]
  refine (List.nodup_map_iff_inj_on (List.Nodup.of_map _ hn)).mpr fun op hop op' hop' he => ?_
  apply List.inj_on_of_nodup_map hn hop hop'
  rw [← Option.some.injEq, hname op hop, hname op' hop', he]

/-- The table of a document is built just when the names of its operations and parameters allow
it, and then both of its indexes reach every operation of the document once: `Lookup` under its
canonical name after the renames, `LookupContractName` under its contract name. -/
theorem table_indexes_document (u : Unicode) (mo : MapOrder) (rename : GoMap Bytes Bytes)
    (doc : Document) :
    ((∃ t, buildOpenAPIOperations u mo rename doc = .ok t) ↔ Buildable u rename doc) ∧
      ∀ t, buildOpenAPIOperations u mo rename doc = .ok t →
        Indexes doc (fun d => u.canonicalName (d.wanted rename)) t.names t.lookup ∧
        Indexes doc (fun d => some d.contractName) t.byContractName.keys
          t.lookupContractName := by
  refine ⟨buildable_iff doc, fun t ht => ?_⟩
  obtain ⟨ops, hops, hn, -, -, rfl⟩ := (table_ok doc t).mp ht
  have hc := nodup_contractNames hops hn
  refine ⟨indexes_of (fun d op hb => (buildOpenAPIOperation_ok hb).1) hops hn
      (List.perm_insertionSort _ _),
    indexes_of (fun d op hb => congrArg some (buildOpenAPIOperation_ok hb).2.1.symm) hops hc ?_⟩
  refine (List.perm_ext_iff_of_nodup (AList.keys_nodup _) hc).mpr fun k => ?_
  rw [← AList.mem_keys]
  change k ∈ storeAll ∅ (ops.map fun op => (op.contractName, op)) ↔ _
  rw [mem_storeAll, List.map_map]
  exact or_iff_right (AList.notMem_empty k)

/-- The runes of ASCII. -/
def ascii : Unicode where
  runes s := s.map fun b => Char.ofNat b.toNat
  spell r := [UInt8.ofNat r.toNat]
  isUpper := Char.isUpper
  isLower := Char.isLower
  isDigit := Char.isDigit
  toLower := Char.toLower

/-- Two operations of one path; the second one has no name of its own. -/
def orders : PathItem where
  parameters := [some ⟨bytes "X-Tenant", bytes "header", false, []⟩]
  operation
    | .get => some
        ⟨bytes "listOrders", [], [some ⟨bytes "pageSize", bytes "query", false, []⟩], none⟩
    | .post => some ⟨[], [], [none], some ⟨true, ∅⟩⟩
    | _ => none

def ordersDoc : Document :=
  ⟨bytes "orders.yaml", bytes "1.0", storeAll ∅ [(bytes "/orders", some orders)]⟩

def ordersRename : GoMap Bytes Bytes := storeAll ∅ [(bytes "post_orders", bytes "createOrder")]

theorem orders_indexed : ∃ t,
    buildOpenAPIOperations ascii .asStored ordersRename ordersDoc = .ok t ∧
    t.names = [bytes "create_order", bytes "list_orders"] ∧
    t.byContractName.keys = [bytes "post_orders", bytes "listOrders"] ∧
    Indexes ordersDoc (fun d => ascii.canonicalName (d.wanted ordersRename)) t.names t.lookup ∧
    Indexes ordersDoc (fun d => some d.contractName) t.byContractName.keys
      t.lookupContractName := by
  refine ⟨_, rfl, ?_, ?_, (table_indexes_document ascii .asStored ordersRename ordersDoc).2 _ rfl⟩
  · decide
  · decide

end faultbox.operation_table
