-- The addresses in the environment of a service (applyAddrSubstitutions): each real
-- address gives way to the one of its proxy, by one replacement in the whole value
-- after the other. The law: in every order of the substitutions, and after every
-- round, exactly the whole addresses are replaced, if and only if no address of
-- the value holds another one that is substituted, and no proxy address that is put
-- in holds a real one.
import Faultbox.GoValues
import Faultbox.Rewriting

open goval rewriting

namespace faultbox.addr_rewrites

/-! ## The substitutions -/

/-- `strings.ReplaceAll`. -/
def replaceAllIn (s old new : String) : String :=
  .ofList (replaceAll old.toList new.toList s.toList)

/-- `applyAddrSubstitutions`, over the entries of the map in the order of the loop. -/
def applyAddrSubstitutions (v : String) (subs : List (String × String)) : String :=
  if subs.length = 0 then v else subs.foldl (fun v sub => replaceAllIn v sub.1 sub.2) v

/-- An address: a text of one or more of the characters of addresses. -/
def IsAddress (addrChar : Char → Bool) (s : String) : Prop := IsWord addrChar s.toList

instance (addrChar : Char → Bool) (s : String) : Decidable (IsAddress addrChar s) :=
  decidable_of_iff (s.toList ≠ [] ∧ s.toList.all addrChar = true)
    (and_congr_right fun _ => List.all_eq_true)

/-- The substitutions of the real addresses, each by the address of its proxy. -/
structure Substitutions (addrChar : Char → Bool) where
  proxyOf : GoMap String String
  addresses : ∀ real proxy, proxyOf.lookup real = some proxy →
    IsAddress addrChar real ∧ IsAddress addrChar proxy

/-- The substitutions of a list; a later entry for an address takes the place of an
earlier one. -/
def Substitutions.ofList {addrChar : Char → Bool} (l : List (String × String))
    (h : ∀ sub ∈ l, IsAddress addrChar sub.1 ∧ IsAddress addrChar sub.2) :
    Substitutions addrChar where
  proxyOf := storeAll ∅ l
  addresses := by
    intro real proxy hl
    by_cases hkey : real ∈ l.map Prod.fst
    · obtain ⟨proxy', hmem, hl'⟩ := lookup_storeAll_of_mem ∅ hkey
      rw [hl'] at hl
      cases hl
      exact h _ hmem
    · rw [lookup_storeAll_of_notMem ∅ hkey] at hl
      cases hl

/-! ## What the rewriting is for -/

def substituted (subs : List (String × String)) (w : List Char) : List Char :=
  ((subs.lookup (String.ofList w)).map String.toList).getD w

/-- The value with each whole address substituted: a run of address characters that no
other one continues. -/
def wholeAddresses (addrChar : Char → Bool) (subs : List (String × String)) (v : String) : String :=
  .ofList (mapWords addrChar (substituted subs) v.toList)

/-- In every order, after every round of the loop exactly the whole addresses that were
up so far are replaced; so no order gives another value. -/
structure RewritesWhole {addrChar : Char → Bool} (subs : Substitutions addrChar) (v : String) :
    Prop where
  rounds : ∀ order : List (String × String), order.Perm (pairs subs.proxyOf) → ∀ k,
    applyAddrSubstitutions v (order.take k) = wholeAddresses addrChar (order.take k) v
  anyOrder : ∀ order order' : List (String × String), order.Perm (pairs subs.proxyOf) →
    order'.Perm (pairs subs.proxyOf) →
    applyAddrSubstitutions v order = applyAddrSubstitutions v order'

/-- A substitution that changes something. -/
def Substitutions.Replaces {addrChar : Char → Bool} (subs : Substitutions addrChar)
    (real proxy : String) : Prop :=
  subs.proxyOf.lookup real = some proxy ∧ real ≠ proxy

/-- A real address occurs in an address of the value only where it is that address. -/
def StandsAlone {addrChar : Char → Bool} (subs : Substitutions addrChar) (v : String) : Prop :=
  ∀ w ∈ words addrChar v.toList, ∀ real proxy, subs.Replaces real proxy →
    real.toList <:+: w → real.toList = w

/-- The proxy of an address of the value holds no other real address. -/
def InsertsNone {addrChar : Char → Bool} (subs : Substitutions addrChar) (v : String) : Prop :=
  ∀ real proxy, subs.Replaces real proxy → real.toList ∈ words addrChar v.toList →
    ∀ real' proxy', subs.Replaces real' proxy' → real' ≠ real → ¬ real'.toList <:+: proxy.toList

/-! ## The loop on each word -/

def replaceEach (subs : List (String × String)) (s : List Char) : List Char :=
  subs.foldl (fun s sub => replaceAll sub.1.toList sub.2.toList s) s

section words

variable {addrChar : Char → Bool} {subs : List (String × String)} {w : List Char}

/-- The two addresses of every substitution. -/
def Addresses (addrChar : Char → Bool) (subs : List (String × String)) : Prop :=
  ∀ sub ∈ subs, IsAddress addrChar sub.1 ∧ IsAddress addrChar sub.2

theorem applyAddrSubstitutions_eq (v : String) (subs : List (String × String)) :
    applyAddrSubstitutions v subs = .ofList (replaceEach subs v.toList) := by
  have hl : ∀ v : String, subs.foldl (fun v sub => replaceAllIn v sub.1 sub.2) v =
      .ofList (replaceEach subs v.toList) := by
    induction subs with
    | nil =>
      intro v
      exact String.ofList_toList.symm
    | cons sub subs ih =>
      intro v
      rw [List.foldl_cons, ih, replaceAllIn, String.toList_ofList]
      rfl
  unfold applyAddrSubstitutions
  split
  · rename_i h
    rw [List.eq_nil_of_length_eq_zero h]
    exact String.ofList_toList.symm
  · exact hl v

theorem replaceEach_isWord (h : Addresses addrChar subs) (hw : IsWord addrChar w) :
    IsWord addrChar (replaceEach subs w) := by
  induction subs generalizing w with
  | nil => exact hw
  | cons sub subs ih =>
    obtain ⟨hr, hp⟩ := h sub List.mem_cons_self
    exact ih (fun s hs => h s (List.mem_cons_of_mem _ hs)) (replaceAll_isWord hr hp hw)

theorem replaceEach_eq_mapWords (h : Addresses addrChar subs) (s : List Char) :
    replaceEach subs s = mapWords addrChar (replaceEach subs) s := by
  induction subs generalizing s with
  | nil => exact (mapWords_id s).symm
  | cons sub subs ih =>
    obtain ⟨hr, hp⟩ := h sub List.mem_cons_self
    have hre : Addresses addrChar subs := fun s hs => h s (List.mem_cons_of_mem _ hs)
    calc replaceEach (sub :: subs) s
        = replaceEach subs (replaceAll sub.1.toList sub.2.toList s) := rfl
      _ = mapWords addrChar (replaceEach subs)
            (mapWords addrChar (replaceAll sub.1.toList sub.2.toList) s) := by
          rw [ih hre, ← replaceAll_eq_mapWords hr]
      _ = mapWords addrChar (replaceEach (sub :: subs)) s :=
          mapWords_comp (fun _ hw => replaceAll_isWord hr hp hw) s

theorem substituted_isWord (h : Addresses addrChar subs) (hw : IsWord addrChar w) :
    IsWord addrChar (substituted subs w) := by
  unfold substituted
  cases hl : subs.lookup (String.ofList w) with
  | none => exact hw
  | some proxy =>
    obtain ⟨l₁, l₂, rfl, -⟩ := List.lookup_eq_some_iff.mp hl
    exact (h (_, proxy) (List.mem_append_right _ List.mem_cons_self)).2

theorem applied_iff (h : Addresses addrChar subs) (v : String) :
    applyAddrSubstitutions v subs = wholeAddresses addrChar subs v ↔
      ∀ w ∈ words addrChar v.toList, replaceEach subs w = substituted subs w := by
  rw [applyAddrSubstitutions_eq, wholeAddresses, String.ofList_inj, replaceEach_eq_mapWords h]
  exact mapWords_eq_iff (fun _ hw => replaceEach_isWord h hw)
    (fun _ hw => substituted_isWord h hw) _

theorem replaceEach_of_none (h : Addresses addrChar subs)
    (hn : ∀ sub ∈ subs, sub.1 ≠ sub.2 → ¬ sub.1.toList <:+: w) : replaceEach subs w = w := by
  induction subs with
  | nil => rfl
  | cons sub subs ih =>
    have hsa : replaceAll sub.1.toList sub.2.toList w = w := by
      rw [replaceAll_eq_iff (h sub List.mem_cons_self).1.1, String.toList_inj]
      by_cases heq : sub.1 = sub.2
      · exact .inr heq
      · exact .inl (hn sub List.mem_cons_self heq)
    calc replaceEach (sub :: subs) w
        = replaceEach subs (replaceAll sub.1.toList sub.2.toList w) := rfl
      _ = w := by
          rw [hsa]
          exact ih (fun s hs => h s (List.mem_cons_of_mem _ hs))
            fun s hs => hn s (List.mem_cons_of_mem _ hs)

theorem replaceEach_append (subs subs' : List (String × String)) (s : List Char) :
    replaceEach (subs ++ subs') s = replaceEach subs' (replaceEach subs s) := List.foldl_append

end words

/-! ## Orders of the map -/

variable {real proxy : String}

section orders

variable {addrChar : Char → Bool} {subs : Substitutions addrChar} {order : List (String × String)}

theorem mem_order (h : order.Perm (pairs subs.proxyOf)) :
    (real, proxy) ∈ order ↔ subs.proxyOf.lookup real = some proxy := by
  rw [h.mem_iff, mem_pairs]

theorem addresses_take (h : order.Perm (pairs subs.proxyOf)) (k : Nat) :
    Addresses addrChar (order.take k) := by
  intro sub hsub
  exact subs.addresses sub.1 sub.2 ((mem_order h).mp (List.mem_of_mem_take hsub))

theorem nodup_take (h : order.Perm (pairs subs.proxyOf)) (k : Nat) :
    ((order.take k).map Prod.fst).Nodup := by
  have hall : (order.map Prod.fst).Nodup := (h.map Prod.fst).nodup_iff.mpr (nodup_pairs _)
  exact hall.sublist ((List.take_sublist k order).map Prod.fst)

theorem lookup_of_mem {l : List (String × String)} (hn : (l.map Prod.fst).Nodup)
    (h : (real, proxy) ∈ l) : l.lookup real = some proxy := by
  obtain ⟨l₁, l₂, rfl⟩ := List.append_of_mem h
  rw [List.lookup_eq_some_iff]
  refine ⟨l₁, l₂, rfl, fun sub hsub => ?_⟩
  rw [List.map_append, List.nodup_append] at hn
  have hne := hn.2.2 sub.1 (List.mem_map_of_mem hsub) real
    (List.mem_map.mpr ⟨_, List.mem_cons_self, rfl⟩)
  simpa [bne_iff_ne] using Ne.symm hne

theorem mem_of_lookup {l : List (String × String)} (h : l.lookup real = some proxy) :
    (real, proxy) ∈ l := by
  obtain ⟨l₁, l₂, rfl, -⟩ := List.lookup_eq_some_iff.mp h
  exact List.mem_append_right _ List.mem_cons_self

theorem substituted_perm {order' : List (String × String)} (h : order.Perm (pairs subs.proxyOf))
    (h' : order'.Perm (pairs subs.proxyOf)) : substituted order = substituted order' := by
  funext w
  have hlo : order.lookup (String.ofList w) = order'.lookup (String.ofList w) := by
    have hn := nodup_take h order.length
    have hn' := nodup_take h' order'.length
    rw [List.take_length] at hn hn'
    refine Option.ext fun proxy => ?_
    constructor
    · intro hl
      exact lookup_of_mem hn' ((h.trans h'.symm).mem_iff.mp (mem_of_lookup hl))
    · intro hl
      exact lookup_of_mem hn ((h.trans h'.symm).mem_iff.mpr (mem_of_lookup hl))
  rw [substituted, substituted, hlo]

end orders

/-! ## The law -/

section law

variable {addrChar : Char → Bool} {subs : Substitutions addrChar} {v : String}
  {order : List (String × String)}

/-- With whole addresses that stand alone, the rounds of a loop so far do on each
address what the substitutions so far say. -/
theorem replaceEach_eq_substituted (ha : StandsAlone subs v) (hno : InsertsNone subs v)
    (h : order.Perm (pairs subs.proxyOf)) (k : Nat) {w : List Char}
    (hw : w ∈ words addrChar v.toList) :
    replaceEach (order.take k) w = substituted (order.take k) w := by
  have had := addresses_take h k
  have hn := nodup_take h k
  have hmem : ∀ sub ∈ order.take k, subs.proxyOf.lookup sub.1 = some sub.2 := fun sub hsub =>
    (mem_order h).mp (List.mem_of_mem_take hsub)
  generalize order.take k = l at had hn hmem ⊢
  by_cases hown : ∃ proxy, (String.ofList w, proxy) ∈ l ∧ String.ofList w ≠ proxy
  · -- its own substitution is the only one that finds anything, before and after
    obtain ⟨proxy, hin, hne⟩ := hown
    have hlo := lookup_of_mem hn hin
    obtain ⟨l₁, l₂, rfl⟩ := List.append_of_mem hin
    have hk : ∀ sub, sub ∈ l₁ ∨ sub ∈ l₂ → sub.1 ≠ String.ofList w := by
      rw [List.map_append, List.map_cons, List.nodup_append, List.nodup_cons] at hn
      rintro sub (hsub | hsub) heq
      · exact hn.2.2 _ (List.mem_map_of_mem hsub) _ List.mem_cons_self heq
      · have hkey : sub.1 ∈ l₂.map Prod.fst := List.mem_map_of_mem hsub
        rw [heq] at hkey
        exact hn.2.1.1 hkey
    have hown : subs.Replaces (String.ofList w) proxy := ⟨hmem _ hin, hne⟩
    have hf : replaceEach l₁ w = w := by
      refine replaceEach_of_none (fun s hs => had s (List.mem_append_left _ hs)) ?_
      intro sub hsub hd hi
      have heq := ha w hw sub.1 sub.2
        ⟨hmem sub (List.mem_append_left _ hsub), hd⟩ hi
      exact hk sub (.inl hsub) (by rw [← heq, String.ofList_toList])
    have hla : replaceEach l₂ proxy.toList = proxy.toList := by
      have hin₂ : ∀ sub ∈ l₂, sub ∈ l₁ ++ (String.ofList w, proxy) :: l₂ := fun sub hs =>
        List.mem_append_right _ (List.mem_cons_of_mem _ hs)
      refine replaceEach_of_none (fun s hs => had s (hin₂ s hs)) ?_
      intro sub hsub hd
      refine hno _ proxy hown ?_ sub.1 sub.2 ⟨hmem sub (hin₂ sub hsub), hd⟩
        (hk sub (.inr hsub))
      rw [String.toList_ofList]
      exact hw
    calc replaceEach (l₁ ++ (String.ofList w, proxy) :: l₂) w
        = replaceEach l₂ (replaceAll w proxy.toList w) := by
          rw [replaceEach_append, hf, replaceEach, List.foldl_cons, String.toList_ofList]
          rfl
      _ = proxy.toList := by rw [replaceAll_self (isWord_of_mem_words hw).1, hla]
      _ = substituted (l₁ ++ (String.ofList w, proxy) :: l₂) w := by
          rw [substituted, hlo, Option.map_some, Option.getD_some]
  · -- no substitution finds anything
    have hke : replaceEach l w = w := by
      refine replaceEach_of_none had fun sub hsub hd hi => hown ?_
      have heq := ha w hw sub.1 sub.2 ⟨hmem sub hsub, hd⟩ hi
      have hr : sub.1 = String.ofList w := by rw [← heq, String.ofList_toList]
      exact ⟨sub.2, hr ▸ hsub, hr ▸ hd⟩
    rw [hke, substituted]
    cases hl : l.lookup (String.ofList w) with
    | none => rfl
    | some proxy =>
      have hsa : String.ofList w = proxy := by
        by_contra hne
        exact hown ⟨proxy, mem_of_lookup hl, hne⟩
      rw [← hsa, Option.map_some, Option.getD_some, String.toList_ofList]

theorem order_from (h : subs.proxyOf.lookup real = some proxy) :
    ((real, proxy) :: (pairs subs.proxyOf).erase (real, proxy)).Perm (pairs subs.proxyOf) :=
  (List.perm_cons_erase (mem_pairs.mpr h)).symm

theorem standsAlone_of_rounds (h : RewritesWhole subs v) : StandsAlone subs v := by
  intro w hw real proxy hrep hi
  by_contra hne
  have hr := (applied_iff (addresses_take (order_from hrep.1) 1) v).mp
    (h.rounds _ (order_from hrep.1) 1) w hw
  -- the first round changes the address that it should leave alone
  have hk : replaceAll real.toList proxy.toList w = w := by
    have hm : (String.ofList w == real) = false := by
      rw [beq_eq_false_iff_ne]
      rintro rfl
      exact hne String.toList_ofList
    simpa [replaceEach, substituted, List.lookup_cons, hm] using hr
  have ha := subs.addresses real proxy hrep.1
  rcases (replaceAll_eq_iff ha.1.1).mp hk with hnot | heq
  · exact hnot hi
  · exact hrep.2 (String.toList_inj.mp heq)

theorem insertsNone_of_rounds (h : RewritesWhole subs v) : InsertsNone subs v := by
  intro real proxy hrep hw real' proxy' hrep' hne hi
  have hmem : (real', proxy') ∈ (pairs subs.proxyOf).erase (real, proxy) :=
    (List.mem_erase_of_ne fun heq => hne (Prod.mk.inj heq).1).mpr (mem_pairs.mpr hrep'.1)
  have ho : ((real, proxy) :: (real', proxy') ::
      ((pairs subs.proxyOf).erase (real, proxy)).erase (real', proxy')).Perm
      (pairs subs.proxyOf) :=
    ((List.perm_cons_erase hmem).symm.cons _).trans (order_from hrep.1)
  have hr := (applied_iff (addresses_take ho 2) v).mp (h.rounds _ ho 2) _ hw
  have ha := subs.addresses real proxy hrep.1
  have ha' := subs.addresses real' proxy' hrep'.1
  -- the second round changes what the first one put in
  have hk : replaceAll real'.toList proxy'.toList proxy.toList = proxy.toList := by
    simpa [replaceEach, substituted, List.lookup_cons, replaceAll_self ha.1.1] using hr
  rcases (replaceAll_eq_iff ha'.1.1).mp hk with hnot | heq
  · exact hnot hi
  · exact hrep'.2 (String.toList_inj.mp heq)

end law

/-- The loop replaces the whole addresses, in every order and after every round, exactly
when each substituted address stands alone in the value and no proxy address that is
put in holds another one. -/
theorem rewritesWhole_iff {addrChar : Char → Bool} (subs : Substitutions addrChar) (v : String) :
    RewritesWhole subs v ↔ StandsAlone subs v ∧ InsertsNone subs v := by
  constructor
  · intro h
    exact ⟨standsAlone_of_rounds h, insertsNone_of_rounds h⟩
  · rintro ⟨ha, hn⟩
    have hr : ∀ order : List (String × String), order.Perm (pairs subs.proxyOf) → ∀ k,
        applyAddrSubstitutions v (order.take k) = wholeAddresses addrChar (order.take k) v :=
      fun order ho k => (applied_iff (addresses_take ho k) v).mpr
        fun w hw => replaceEach_eq_substituted ha hn ho k hw
    refine ⟨hr, fun order order' h h' => ?_⟩
    have h1 := hr order h order.length
    have h2 := hr order' h' order'.length
    rw [List.take_length] at h1 h2
    rw [h1, h2, wholeAddresses, wholeAddresses, substituted_perm h h']

/-! ## Two ports and two hops -/

def hostPortChar (c : Char) : Bool := c.isAlphanum || ['.', '-', '_', ':'].contains c

def shortPort : Substitutions hostPortChar :=
  .ofList [("localhost:80", "127.0.0.1:9000")] (by decide)

def chained : Substitutions hostPortChar :=
  .ofList [("db:5432", "127.0.0.1:6379"), ("127.0.0.1:6379", "127.0.0.1:9000")] (by decide)

/-- A longer port is rewritten in its first digits, and an address that was put in is
rewritten again in one of the two orders. -/
theorem addresses_rewritten_in_part_and_twice :
    (applyAddrSubstitutions "localhost:8080" (pairs shortPort.proxyOf) = "127.0.0.1:900080" ∧
      ¬ RewritesWhole shortPort "localhost:8080") ∧
    (applyAddrSubstitutions "db:5432" (pairs chained.proxyOf) = "127.0.0.1:6379" ∧
      applyAddrSubstitutions "db:5432" (pairs chained.proxyOf).reverse = "127.0.0.1:9000" ∧
      ¬ RewritesWhole chained "db:5432") := by
  refine ⟨⟨by decide, fun h => ?_⟩, by decide, by decide, fun h => ?_⟩
  · have ha := standsAlone_of_rounds h "localhost:8080".toList (by decide)
      "localhost:80" "127.0.0.1:9000" ⟨by decide, by decide⟩ (by decide)
    exact absurd ha (by decide)
  · have hs := h.anyOrder (pairs chained.proxyOf) (pairs chained.proxyOf).reverse (.refl _)
      (List.reverse_perm _)
    exact absurd hs (by decide)

end faultbox.addr_rewrites
