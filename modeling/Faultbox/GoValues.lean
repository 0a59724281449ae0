-- The values of Go that the models compute with: the 64-bit `int`, whose
-- arithmetic wraps, the map, and the helpers of package strings.
import Mathlib.Data.List.AList
import Mathlib.Data.List.MinMax
import Mathlib.Data.List.Sort
import Mathlib.Data.Int.ModEq
import Mathlib.Tactic

namespace goval

/-! ## The 64-bit int -/

/-- The `int` that a computation with the exact result `x` leaves behind: the
low 64 bits, read as a signed number. -/
def wrap (x : Int) : Int := Int.bmod x (2 ^ 64)

/-- The numbers that an `int` can hold. -/
def Fits (x : Int) : Prop := -2 ^ 63 ≤ x ∧ x < 2 ^ 63

instance (x : Int) : Decidable (Fits x) := inferInstanceAs (Decidable (_ ∧ _))

theorem wrap_of_fits {x : Int} (h : Fits x) : wrap x = x := by
  apply Int.bmod_eq_of_le
  · have := h.1; norm_num at this ⊢; omega
  · have := h.2; norm_num at this ⊢; omega

theorem fits_wrap (x : Int) : Fits (wrap x) := by
  have h1 := Int.le_bmod (x := x) (m := 2 ^ 64) (by norm_num)
  have h2 := Int.bmod_lt (x := x) (m := 2 ^ 64) (by norm_num)
  unfold Fits wrap
  norm_num at h1 h2 ⊢
  omega

theorem wrap_of_over {x : Int} (h : 2 ^ 63 ≤ x) (hx : x < 2 ^ 64 + 2 ^ 63) :
    wrap x = x - 2 ^ 64 := by
  have ht : wrap x = wrap (x - 2 ^ 64) := (Int.sub_bmod_right x (2 ^ 64)).symm
  rw [ht]
  apply wrap_of_fits
  constructor
  · omega
  · omega

theorem wrap_mul_wrap (x y : Int) : wrap (wrap x * y) = wrap (x * y) := Int.bmod_mul_bmod

theorem foldl_wrap_mul {ι : Type} (f : ι → Int) (l : List ι) (t : Int) :
    l.foldl (fun t x => wrap (t * f x)) (wrap t) = wrap (t * (l.map f).prod) := by
  induction l generalizing t with
  | nil => simp
  | cons x rest ih =>
    rw [List.foldl_cons, wrap_mul_wrap, ih, List.map_cons, List.prod_cons, mul_assoc]

theorem foldl_wrap_mul_eq {ι : Type} (f : ι → Int) (l : List ι) (bs : List Nat)
    (h : l.map f = bs.map Int.ofNat) (hfit : bs.prod < 2 ^ 63) :
    l.foldl (fun t x => wrap (t * f x)) 1 = (bs.prod : Nat) := by
  have hone : wrap 1 = 1 := by decide
  have hc : (bs.map Int.ofNat).prod = (bs.prod : Nat) := (Nat.cast_list_prod bs).symm
  have hl := foldl_wrap_mul f l 1
  rw [hone, one_mul, h, hc] at hl
  rw [hl]
  apply wrap_of_fits
  constructor
  · have := Int.natCast_nonneg bs.prod
    omega
  · exact_mod_cast hfit

theorem wrap_add_wrap (x y : Int) : wrap (wrap x + y) = wrap (x + y) := Int.bmod_add_bmod

theorem foldl_wrap_add {ι : Type} (f : ι → Int) (l : List ι) (t : Int) :
    l.foldl (fun t x => wrap (t + f x)) (wrap t) = wrap (t + (l.map f).sum) := by
  induction l generalizing t with
  | nil => simp
  | cons x rest ih =>
    rw [List.foldl_cons, wrap_add_wrap, ih, List.map_cons, List.sum_cons, add_assoc]

/-! ## Maps -/

abbrev GoMap (κ α : Type) : Type := AList fun _ : κ => α

variable {κ α : Type} [DecidableEq κ]

def storeAll (m : GoMap κ α) (kvs : List (κ × α)) : GoMap κ α :=
  kvs.foldl (fun m kv => m.insert kv.1 kv.2) m

theorem mem_storeAll (m : GoMap κ α) (kvs : List (κ × α)) (k : κ) :
    k ∈ storeAll m kvs ↔ k ∈ m ∨ k ∈ kvs.map Prod.fst := by
  induction kvs generalizing m with
  | nil => simp [storeAll]
  | cons kv rest ih =>
    have hs : storeAll m (kv :: rest) = storeAll (m.insert kv.1 kv.2) rest := rfl
    rw [hs, ih, AList.mem_insert, List.map_cons, List.mem_cons]
    tauto

theorem lookup_storeAll_of_notMem (m : GoMap κ α) {kvs : List (κ × α)} {k : κ}
    (h : k ∉ kvs.map Prod.fst) : (storeAll m kvs).lookup k = m.lookup k := by
  induction kvs generalizing m with
  | nil => rfl
  | cons kv rest ih =>
    rw [List.map_cons, List.mem_cons, not_or] at h
    have hs : storeAll m (kv :: rest) = storeAll (m.insert kv.1 kv.2) rest := rfl
    rw [hs, ih _ h.2, AList.lookup_insert_ne h.1]

theorem lookup_storeAll_of_mem (m : GoMap κ α) {kvs : List (κ × α)} {k : κ}
    (h : k ∈ kvs.map Prod.fst) : ∃ x, (k, x) ∈ kvs ∧ (storeAll m kvs).lookup k = some x := by
  induction kvs generalizing m with
  | nil => cases h
  | cons kv rest ih =>
    have hs : storeAll m (kv :: rest) = storeAll (m.insert kv.1 kv.2) rest := rfl
    by_cases hr : k ∈ rest.map Prod.fst
    · obtain ⟨x, hx, hl⟩ := ih (m.insert kv.1 kv.2) hr
      exact ⟨x, List.mem_cons_of_mem _ hx, hl⟩
    · obtain rfl : k = kv.1 := (List.mem_cons.mp h).resolve_right hr
      refine ⟨kv.2, List.mem_cons_self, ?_⟩
      rw [hs, lookup_storeAll_of_notMem _ hr, AList.lookup_insert]

theorem lookup_storeAll (m : GoMap κ α) (kvs : List (κ × α)) (k : κ)
    (h : (kvs.map Prod.fst).Nodup) :
    (storeAll m kvs).lookup k = (kvs.lookup k).or (m.lookup k) := by
  induction kvs generalizing m with
  | nil => rfl
  | cons kv rest ih =>
    obtain ⟨k', v⟩ := kv
    simp only [List.map_cons, List.nodup_cons] at h
    have hs : storeAll m ((k', v) :: rest) = storeAll (m.insert k' v) rest := rfl
    rw [hs, ih _ h.2, List.lookup_cons]
    by_cases hk : k = k'
    · subst hk
      have hn : rest.lookup k = none := by
        rw [List.lookup_eq_none_iff]
        intro p hp
        rw [bne_iff_ne]
        intro he
        exact h.1 (List.mem_map.mpr ⟨p, hp, he.symm⟩)
      simp [hn]
    · have hb : (k == k') = false := by simpa using hk
      simp [AList.lookup_insert_ne hk, hb]

theorem lookup_storeAll_zip {keys : List κ} (hn : keys.Nodup) {vs : List α}
    (hv : vs.length = keys.length) (k : κ) :
    (storeAll ∅ (keys.zip vs)).lookup k = (keys.zip vs).lookup k := by
  have hk : (keys.zip vs).map Prod.fst = keys := List.map_fst_zip (by omega)
  rw [lookup_storeAll _ _ _ (by rw [hk]; exact hn)]
  simp

/-- Distinct keys determine the values that are listed under them. -/
theorem eq_of_lookup_zip {keys : List κ} (hn : keys.Nodup) {vs ws : List α}
    (hv : vs.length = keys.length) (hw : ws.length = keys.length)
    (h : ∀ k, (keys.zip vs).lookup k = (keys.zip ws).lookup k) : vs = ws := by
  induction keys generalizing vs ws with
  | nil =>
    rw [List.eq_nil_of_length_eq_zero hv, List.eq_nil_of_length_eq_zero hw]
  | cons k keys ih =>
    obtain _ | ⟨v, vs⟩ := vs
    · simp at hv
    obtain _ | ⟨w, ws⟩ := ws
    · simp at hw
    rw [List.nodup_cons] at hn
    have hh := h k
    simp only [List.zip_cons_cons, List.lookup_cons_self, Option.some.injEq] at hh
    have ht : vs = ws := by
      apply ih hn.2 (by simpa using hv) (by simpa using hw)
      intro k'
      by_cases hk : k' = k
      · -- The first key does not come back, so nothing is listed under it.
        have hno : ∀ us : List α, (keys.zip us).lookup k' = none := by
          intro us
          rw [List.lookup_eq_none_iff]
          intro p hp
          rw [bne_iff_ne]
          intro he
          apply hn.1
          rw [← hk, he]
          exact (List.of_mem_zip hp).1
        rw [hno vs, hno ws]
      · have := h k'
        rw [List.zip_cons_cons, List.zip_cons_cons, List.lookup_cons, List.lookup_cons,
          beq_eq_false_iff_ne.mpr hk] at this
        exact this
    rw [hh, ht]

/-- `m[k] = append(m[k], x)`. -/
def appendAt (m : GoMap κ (List α)) (k : κ) (x : α) : GoMap κ (List α) :=
  m.insert k ((m.lookup k).getD [] ++ [x])

def groupOn (key : α → κ) (l : List α) : GoMap κ (List α) :=
  l.foldl (fun m x => appendAt m (key x) x) ∅

theorem groupOn_concat (key : α → κ) (l : List α) (x : α) :
    groupOn key (l ++ [x]) = appendAt (groupOn key l) (key x) x := by
  simp [groupOn]

theorem lookup_groupOn (key : α → κ) (l : List α) (k : κ) :
    ((groupOn key l).lookup k).getD [] = l.filter fun x => key x = k := by
  induction l using List.reverseRecOn with
  | nil => simp [groupOn]
  | append_singleton l x ih =>
    rw [groupOn_concat, appendAt, List.filter_append]
    by_cases hk : k = key x
    · subst hk
      simp [ih]
    · have hk' : ¬ key x = k := fun h => hk h.symm
      simp [AList.lookup_insert_ne hk, ih, hk']

theorem mem_groupOn (key : α → κ) (l : List α) (k : κ) :
    k ∈ groupOn key l ↔ ∃ x ∈ l, key x = k := by
  induction l using List.reverseRecOn with
  | nil => simp [groupOn]
  | append_singleton l x ih =>
    rw [groupOn_concat, appendAt, AList.mem_insert, ih]
    simp only [List.mem_append, List.mem_singleton]
    constructor
    · rintro (rfl | ⟨y, hy, rfl⟩)
      · exact ⟨x, .inr rfl, rfl⟩
      · exact ⟨y, .inl hy, rfl⟩
    · rintro ⟨y, hy | rfl, rfl⟩
      · exact .inr ⟨y, hy, rfl⟩
      · exact .inl rfl

theorem last_with_key {α β : Type} {l : List (α × β)} {k : α} (h : k ∈ l.map Prod.fst) :
    ∃ l₁ p l₂, l = l₁ ++ p :: l₂ ∧ p.1 = k ∧ k ∉ l₂.map Prod.fst := by
  induction l with
  | nil => cases h
  | cons q l ih =>
    by_cases hk : k ∈ l.map Prod.fst
    · obtain ⟨l₁, p, l₂, rfl, hp, hl⟩ := ih hk
      exact ⟨q :: l₁, p, l₂, rfl, hp, hl⟩
    · rcases List.mem_cons.mp h with rfl | h
      · exact ⟨[], q, l, rfl, rfl, hk⟩
      · exact absurd h hk

def pairs (m : GoMap κ α) : List (κ × α) := m.entries.map fun e => (e.1, e.2)

theorem mem_pairs {m : GoMap κ α} {k : κ} {x : α} : (k, x) ∈ pairs m ↔ m.lookup k = some x := by
  rw [← Option.mem_def, AList.mem_lookup_iff]
  simp only [pairs, List.mem_map, Prod.mk.injEq]
  constructor
  · rintro ⟨⟨k', x'⟩, he, rfl, rfl⟩
    exact he
  · intro he
    exact ⟨⟨k, x⟩, he, rfl, rfl⟩

omit [DecidableEq κ] in
theorem nodup_pairs (m : GoMap κ α) : ((pairs m).map Prod.fst).Nodup := by
  unfold pairs
  rw [List.map_map]
  exact m.nodupKeys

section largest

variable {ρ : Type} [LinearOrder ρ] (rank : α → ρ)

/-- What a loop leaves that stores a value unless the key has one of at least its rank. -/
def storeLargest (m : GoMap κ α) (kvs : List (κ × α)) : GoMap κ α :=
  kvs.foldl (fun m kv =>
    match m.lookup kv.1 with
    | none => m.insert kv.1 kv.2
    | some old => if rank old < rank kv.2 then m.insert kv.1 kv.2 else m) m

theorem lookup_storeLargest (kvs : List (κ × α)) (k : κ) :
    (storeLargest rank ∅ kvs).lookup k =
      ((kvs.filter fun kv => kv.1 = k).map Prod.snd).argmax rank := by
  induction kvs using List.reverseRecOn with
  | nil => rfl
  | append_singleton kvs kv ih =>
    unfold storeLargest at ih ⊢
    rw [List.foldl_append, List.foldl_cons, List.foldl_nil, List.filter_append, List.map_append]
    by_cases hk : kv.1 = k
    · subst hk
      simp only [List.filter_cons, List.filter_nil, decide_true, if_true, List.map_cons,
        List.map_nil, List.argmax_concat, ih]
      cases hm : ((kvs.filter fun kv' => kv'.1 = kv.1).map Prod.snd).argmax rank with
      | none => simp
      | some old =>
        by_cases ho : rank old < rank kv.2
        · simp [ho]
        · simp [ho, ih, hm]
    · have hf : ([kv].filter fun kv' => kv'.1 = k) = [] := by simp [hk]
      rw [hf, List.map_nil, List.append_nil, ← ih]
      split
      · exact AList.lookup_insert_ne (Ne.symm hk)
      · split
        · exact AList.lookup_insert_ne (Ne.symm hk)
        · rfl

end largest

theorem flatMap_eq_of_perm {ι : Type} {l l' : List ι} (h : l.Perm l') {f : ι → List α}
    (hone : l.Pairwise fun x y => f x = [] ∨ f y = []) : l.flatMap f = l'.flatMap f := by
  induction h with
  | nil => rfl
  | cons x _ ih => rw [List.flatMap_cons, List.flatMap_cons, ih (List.pairwise_cons.mp hone).2]
  | swap x y l =>
    simp only [List.flatMap_cons]
    have hxy := (List.pairwise_cons.mp hone).1 x List.mem_cons_self
    rcases hxy with h | h
    · simp [h]
    · simp [h]
  | trans h₁ _ ih₁ ih₂ =>
    rw [ih₁ hone, ih₂ (hone.perm h₁ fun hxy => hxy.symm)]

/-- The order in which a `range` over a map visits its entries: any order. -/
structure MapOrder where
  order : {α : Type} → List α → List α
  perm : ∀ {α : Type} (l : List α), (order l).Perm l

def MapOrder.asStored : MapOrder := ⟨fun l => l, fun l => .refl l⟩

/-! ## Strings -/

/-- `strings.HasPrefix`. -/
def hasPrefix (s pre : String) : Bool := pre.toList.isPrefixOf s.toList

/-- `strings.TrimPrefix`. -/
def trimPrefix (s pre : String) : String :=
  if hasPrefix s pre then String.ofList (s.toList.drop pre.toList.length) else s

/-- One character of a `%q` string. Characters beyond ASCII are taken to be printable. -/
def quoteChar (c : Char) : String :=
  if c.toNat = 34 then "\\\""
  else if c.toNat = 92 then "\\\\"
  else if c.toNat = 7 then "\\a"
  else if c.toNat = 8 then "\\b"
  else if c.toNat = 9 then "\\t"
  else if c.toNat = 10 then "\\n"
  else if c.toNat = 11 then "\\v"
  else if c.toNat = 12 then "\\f"
  else if c.toNat = 13 then "\\r"
  else if c.toNat < 16 then "\\x0" ++ String.ofList (Nat.toDigits 16 c.toNat)
  else if c.toNat < 32 ∨ c.toNat = 127 then "\\x" ++ String.ofList (Nat.toDigits 16 c.toNat)
  else c.toString

/-- The verb `%q` of package fmt. -/
def quote (s : String) : String := "\"" ++ String.join (s.toList.map quoteChar) ++ "\""

/-- `sort.Strings`: the order of the bytes of UTF-8 is the order of the code points. -/
def sortStrings (l : List String) : List String := l.insertionSort (· ≤ ·)

theorem sortStrings_perm (l : List String) : (sortStrings l).Perm l := List.perm_insertionSort _ l

theorem insertionSort_congr {α : Type} {r : α → α → Prop} [DecidableRel r] [Std.Total r]
    [IsTrans α r] [Std.Antisymm r] {l l' : List α} (h : l.Perm l') :
    l.insertionSort r = l'.insertionSort r :=
  List.Perm.eq_of_pairwise' (List.pairwise_insertionSort r l) (List.pairwise_insertionSort r l')
    ((List.perm_insertionSort r l).trans (h.trans (List.perm_insertionSort r l').symm))

theorem hasPrefix_append (pre s : String) : hasPrefix (pre ++ s) pre = true := by
  simp [hasPrefix]

theorem trimPrefix_append (pre s : String) : trimPrefix (pre ++ s) pre = s := by
  simp [trimPrefix, hasPrefix_append]

/-- A name with the prefix is the prefix and what `TrimPrefix` leaves. -/
theorem append_trimPrefix {s pre : String} (h : hasPrefix s pre = true) :
    pre ++ trimPrefix s pre = s := by
  have hp : pre.toList <+: s.toList := List.isPrefixOf_iff_prefix.mp h
  obtain ⟨t, ht⟩ := hp
  apply String.toList_injective
  simp [trimPrefix, h, ← ht]

theorem append_left_injective (pre : String) : Function.Injective (pre ++ ·) := by
  intro a b h
  have := congrArg String.toList h
  apply String.toList_injective
  simpa using this

end goval
