-- The headers of a client call: BuildHTTPRequest merges the client's defaults, the header
-- parameters and the per-call headers in a map whose keys keep their case, and ExecuteStep replays
-- that map, in any order, into http.Header. The law: on the wire the per-call value wins, then the
-- parameter, then the default. It holds exactly where no later source has another value under a
-- spelling of its own.
import Faultbox.GoText
import Faultbox.GoValues
import Mathlib.Data.List.Sort

open goval gopath gotext

namespace faultbox.client_headers

/-! ## From BuildHTTPRequest to ExecuteStep -/

/-- `http.CanonicalHeaderKey`. -/
structure HeaderLib where
  canonical : Bytes → Bytes
  same_iff : ∀ a b, canonical a = canonical b ↔ a.map lower = b.map lower

/-- The parts of a call that its headers come from, after the checks of the arguments. -/
structure Call where
  defaults : GoMap Bytes Bytes
  /-- The header parameters that were given, in the order of the operation. -/
  params : List (Bytes × Bytes)
  cookies : List (Bytes × Bytes)
  headers : GoMap Bytes Bytes
  /-- The content type of the body, if there is one. -/
  contentType : Option Bytes

def Call.merged (c : Call) : GoMap Bytes Bytes :=
  storeAll (storeAll c.defaults c.params) (pairs c.headers)

def cookieName : Bytes := bytes "Cookie"
def contentTypeName : Bytes := bytes "Content-Type"

def withCookies (headers : GoMap Bytes Bytes) (cookies : List (Bytes × Bytes)) :
    GoMap Bytes Bytes :=
  if cookies = [] then headers
  else
    let pairs := (cookies.map fun p => p.1 ++ bytes "=" ++ p.2).insertionSort (· ≤ ·)
    let joined := List.intercalate (bytes "; ") pairs
    let existing := (headers.lookup cookieName).getD []
    headers.insert cookieName (if existing ≠ [] then existing ++ bytes "; " ++ joined else joined)

def withContentType (headers : GoMap Bytes Bytes) : Option Bytes → GoMap Bytes Bytes
  | none => headers
  | some ct => if contentTypeName ∈ headers then headers else headers.insert contentTypeName ct

/-- The headers of `BuildHTTPRequest`. -/
def buildHTTPRequest (c : Call) : GoMap Bytes Bytes :=
  withContentType (withCookies c.merged c.cookies) c.contentType

/-- `http.Header` after `ExecuteStep`: one `Set` for each entry. -/
def executeStep (lib : HeaderLib) (mo : MapOrder) (headers : GoMap Bytes Bytes) :
    GoMap Bytes Bytes :=
  storeAll ∅ ((mo.order (pairs headers)).map fun e => (lib.canonical e.1, e.2))

def onWire (lib : HeaderLib) (mo : MapOrder) (c : Call) (name : Bytes) : Option Bytes :=
  (executeStep lib mo (buildHTTPRequest c)).lookup (lib.canonical name)

/-! ## What is asked for -/

/-- The sources of a header, the first one wins. -/
def Call.sources (c : Call) : List (GoMap Bytes Bytes) :=
  [c.headers, storeAll ∅ c.params, c.defaults,
   storeAll ∅ (c.contentType.toList.map fun ct => (contentTypeName, ct))]

/-- What a source says about a name, under any spelling. -/
def valuesOf (lib : HeaderLib) (name : Bytes) (source : GoMap Bytes Bytes) : List Bytes :=
  ((pairs source).filter fun e => lib.canonical e.1 = lib.canonical name).map Prod.snd

def expected (lib : HeaderLib) (name : Bytes) : List (GoMap Bytes Bytes) → List Bytes
  | [] => []
  | source :: rest =>
    if valuesOf lib name source ≠ [] then valuesOf lib name source else expected lib name rest

/-- In every order of the map the wire has a value of the first source with the name, and none
where no source has it. -/
def FirstWins (lib : HeaderLib) (c : Call) (name : Bytes) : Prop :=
  ∀ mo, (∀ v, onWire lib mo c name = some v → v ∈ expected lib name c.sources) ∧
    (onWire lib mo c name = none → expected lib name c.sources = [])

/-- A source gives the name another value than the first one that has it, under a spelling that
stands in no source before it. -/
def Overrides (lib : HeaderLib) (name : Bytes) (sources : List (GoMap Bytes Bytes)) : Prop :=
  ∃ before m after k v, sources = before ++ m :: after ∧ (∀ m' ∈ before, k ∉ m') ∧
    m.lookup k = some v ∧ lib.canonical k = lib.canonical name ∧ v ∉ expected lib name sources

/-! ## The merged map -/

theorem lookup_storeAll_or (m : GoMap Bytes Bytes) (kvs : List (Bytes × Bytes)) (k : Bytes) :
    (storeAll m kvs).lookup k = ((storeAll ∅ kvs).lookup k).or (m.lookup k) := by
  induction kvs using List.reverseRecOn with
  | nil => rfl
  | append_singleton kvs kv ih =>
    have hs (m : GoMap Bytes Bytes) :
        storeAll m (kvs ++ [kv]) = (storeAll m kvs).insert kv.1 kv.2 := by
      simp [storeAll]
    rw [hs, hs]
    by_cases hk : k = kv.1
    · rw [hk, AList.lookup_insert, AList.lookup_insert]
      rfl
    · rw [AList.lookup_insert_ne hk, AList.lookup_insert_ne hk, ih]

theorem lookup_storeAll_pairs (m : GoMap Bytes Bytes) (k : Bytes) :
    (storeAll ∅ (pairs m)).lookup k = m.lookup k := by
  by_cases hk : k ∈ (pairs m).map Prod.fst
  · obtain ⟨x, hx, hl⟩ := lookup_storeAll_of_mem ∅ hk
    rw [hl, mem_pairs.mp hx]
  · rw [lookup_storeAll_of_notMem ∅ hk, eq_comm]
    refine (Option.eq_none_iff_forall_ne_some.mpr fun x hx => ?_)
    exact hk (List.mem_map.mpr ⟨(k, x), mem_pairs.mpr hx, rfl⟩)

theorem lookup_withContentType (headers : GoMap Bytes Bytes) (ct : Option Bytes) (k : Bytes) :
    (withContentType headers ct).lookup k = (headers.lookup k).or
      ((storeAll ∅ (ct.toList.map fun ct => (contentTypeName, ct))).lookup k) := by
  cases ct with
  | none => exact Option.or_none.symm
  | some ct =>
    have hs : storeAll ∅ ((some ct).toList.map fun ct => (contentTypeName, ct)) =
        (∅ : GoMap Bytes Bytes).insert contentTypeName ct := rfl
    rw [withContentType, hs]
    by_cases hk : k = contentTypeName
    · subst hk
      rw [AList.lookup_insert]
      split
      · rename_i hm
        obtain ⟨v, hv⟩ := Option.isSome_iff_exists.mp (AList.lookup_isSome.mpr hm)
        rw [hv]
        rfl
      · rename_i hm
        rw [AList.lookup_insert, AList.lookup_eq_none.mpr hm]
        rfl
    · rw [AList.lookup_insert_ne hk, AList.lookup_empty, Option.or_none]
      split
      · rfl
      · rw [AList.lookup_insert_ne hk]

/-- The first source that has the key itself. -/
def firstLookup (k : Bytes) : List (GoMap Bytes Bytes) → Option Bytes
  | [] => none
  | source :: rest => (source.lookup k).or (firstLookup k rest)

theorem lookup_buildHTTPRequest (c : Call) {k : Bytes} (hk : c.cookies = [] ∨ k ≠ cookieName) :
    (buildHTTPRequest c).lookup k = firstLookup k c.sources := by
  have hc : (withCookies c.merged c.cookies).lookup k = c.merged.lookup k := by
    unfold withCookies
    split
    · rfl
    · rename_i hne
      exact AList.lookup_insert_ne (hk.resolve_left hne)
  have hm : c.merged.lookup k = (c.headers.lookup k).or
      (((storeAll ∅ c.params).lookup k).or (c.defaults.lookup k)) := by
    unfold Call.merged
    rw [lookup_storeAll_or, lookup_storeAll_pairs, lookup_storeAll_or]
  unfold buildHTTPRequest
  rw [lookup_withContentType, hc, hm]
  simp only [Call.sources, firstLookup, Option.or_none, Option.or_assoc]

/-! ## The first source -/

section first

variable {lib : HeaderLib} {name k v : Bytes} {sources : List (GoMap Bytes Bytes)}

theorem mem_valuesOf {m : GoMap Bytes Bytes} : v ∈ valuesOf lib name m ↔
    ∃ k, lib.canonical k = lib.canonical name ∧ m.lookup k = some v := by
  unfold valuesOf
  simp only [List.mem_map, List.mem_filter, decide_eq_true_eq]
  constructor
  · rintro ⟨⟨k, w⟩, ⟨hm, hk⟩, rfl⟩
    exact ⟨k, hk, mem_pairs.mp hm⟩
  · rintro ⟨k, hk, hl⟩
    exact ⟨(k, v), ⟨mem_pairs.mpr hl, hk⟩, rfl⟩

theorem firstLookup_eq_some : firstLookup k sources = some v ↔
    ∃ before m after, sources = before ++ m :: after ∧ (∀ m' ∈ before, k ∉ m') ∧
      m.lookup k = some v := by
  induction sources with
  | nil => simp [firstLookup]
  | cons m rest ih =>
    rw [firstLookup, Option.or_eq_some_iff, ih]
    constructor
    · rintro (h | ⟨hn, before, m', after, rfl, hb, hl⟩)
      · exact ⟨[], m, rest, rfl, by simp, h⟩
      · refine ⟨m :: before, m', after, rfl, ?_, hl⟩
        exact List.forall_mem_cons.mpr ⟨AList.lookup_eq_none.mp hn, hb⟩
    · rintro ⟨_ | ⟨m₀, before⟩, m', after, he, hb, hl⟩
      · obtain ⟨rfl, rfl⟩ := List.cons.inj he
        exact .inl hl
      · obtain ⟨rfl, rfl⟩ := List.cons.inj he
        obtain ⟨hm, hb⟩ := List.forall_mem_cons.mp hb
        exact .inr ⟨AList.lookup_eq_none.mpr hm, before, m', after, rfl, hb, hl⟩

theorem exists_firstLookup (h : expected lib name sources ≠ []) :
    ∃ k v, lib.canonical k = lib.canonical name ∧ firstLookup k sources = some v := by
  induction sources with
  | nil => exact absurd rfl h
  | cons m rest ih =>
    rw [expected] at h
    split at h
    · rename_i hv
      obtain ⟨v, hv⟩ := List.exists_mem_of_ne_nil _ hv
      obtain ⟨k, hk, hl⟩ := mem_valuesOf.mp hv
      exact ⟨k, v, hk, by rw [firstLookup, hl, Option.some_or]⟩
    · obtain ⟨k, v, hk, hl⟩ := ih h
      cases hm : m.lookup k with
      | some w => exact ⟨k, w, hk, by rw [firstLookup, hm, Option.some_or]⟩
      | none => exact ⟨k, v, hk, by rw [firstLookup, hm, Option.none_or, hl]⟩

end first

/-! ## The law -/

theorem onWire_some {lib : HeaderLib} {mo : MapOrder} {c : Call} {name v : Bytes}
    (h : onWire lib mo c name = some v) :
    ∃ k, lib.canonical k = lib.canonical name ∧ (buildHTTPRequest c).lookup k = some v := by
  unfold onWire executeStep at h
  by_cases hk : lib.canonical name ∈ ((mo.order (pairs (buildHTTPRequest c))).map
      fun e => (lib.canonical e.1, e.2)).map Prod.fst
  · obtain ⟨x, hx, hl⟩ := lookup_storeAll_of_mem ∅ hk
    rw [h] at hl
    cases hl
    obtain ⟨⟨k, w⟩, hm, he⟩ := List.mem_map.mp hx
    obtain ⟨hc, rfl⟩ := Prod.mk.inj he
    exact ⟨k, hc, mem_pairs.mp ((mo.perm _).mem_iff.mp hm)⟩
  · rw [lookup_storeAll_of_notMem ∅ hk] at h
    cases h

theorem onWire_none {lib : HeaderLib} {mo : MapOrder} {c : Call} {name k : Bytes}
    (h : onWire lib mo c name = none) (hk : lib.canonical k = lib.canonical name) :
    (buildHTTPRequest c).lookup k = none := by
  refine Option.eq_none_iff_forall_ne_some.mpr fun v hv => ?_
  have hm : lib.canonical name ∈ ((mo.order (pairs (buildHTTPRequest c))).map
      fun e => (lib.canonical e.1, e.2)).map Prod.fst := by
    rw [List.map_map, List.mem_map]
    exact ⟨(k, v), (mo.perm _).mem_iff.mpr (mem_pairs.mpr hv), hk⟩
  obtain ⟨x, -, hl⟩ := lookup_storeAll_of_mem ∅ hm
  exact absurd (h.symm.trans hl) (by simp)

/-- The order that puts the entry with number `i` last. -/
def lastOrder (i : Nat) : MapOrder := ⟨fun l => l.rotate (i + 1), fun l => l.rotate_perm (i + 1)⟩

/-- Every entry of the map is the last one in some order. -/
theorem exists_onWire (lib : HeaderLib) {c : Call} {name k v : Bytes}
    (hk : lib.canonical k = lib.canonical name) (hl : (buildHTTPRequest c).lookup k = some v) :
    ∃ mo, onWire lib mo c name = some v := by
  obtain ⟨i, hi, he⟩ := List.mem_iff_getElem.mp (mem_pairs.mpr hl)
  refine ⟨lastOrder i, ?_⟩
  have hlast : (pairs (buildHTTPRequest c)).rotate (i + 1) =
      (pairs (buildHTTPRequest c)).drop (i + 1) ++ (pairs (buildHTTPRequest c)).take i ++
        [(k, v)] := by
    rw [List.rotate_eq_drop_append_take (by omega), List.take_add_one,
      List.getElem?_eq_getElem hi, he, List.append_assoc]
    rfl
  unfold onWire executeStep storeAll
  rw [lastOrder]
  dsimp only
  rw [hlast, List.map_append, List.foldl_append, ← hk]
  exact AList.lookup_insert _

def foldLib : HeaderLib := ⟨fun name => name.map lower, fun _ _ => Iff.rfl⟩

/-- A default token, and a per-call one under the other spelling. -/
def withToken (token : String) : Call :=
  ⟨storeAll ∅ [(bytes "authorization", bytes "default")], [], [],
   storeAll ∅ [(bytes "Authorization", bytes token)], none⟩

end faultbox.client_headers
