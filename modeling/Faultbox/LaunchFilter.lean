-- The filter that a launch gives to the kernel: the numbers of the system calls that the fault
-- rules name, and openat where a rule names open. The law: a call of openat meets every rule
-- for open besides those for openat, and FiltersSyscall says which calls are intercepted.
-- The second half always holds; the first one holds exactly where at most one rule names
-- open, and then none names openat.
import Faultbox.SyscallFaults

open goval gopath faultbox.engine faultbox.syscall_faults

namespace faultbox.launch_filter

/-! ## The two loops of launch -/

/-- The resolved rules and the numbers for the kernel; `seen` holds the same numbers. -/
structure Filter where
  rules : List (Nat × FaultRule)
  syscallNrs : List Nat

def Filter.add (f : Filter) (nr : Nat) : Filter :=
  if nr ∈ f.syscallNrs then f else { f with syscallNrs := f.syscallNrs ++ [nr] }

/-- The loop over the rules of the configuration. -/
def resolveAll (arch : Arch) (f : Filter) : List FaultRule → Except String Filter
  | [] => .ok f
  | r :: rest =>
    match syscallNumber arch r.syscall with
    | none => .error ("unknown syscall " ++ quote r.syscall)
    | some nr =>
      let resolved : Filter := { f with rules := f.rules ++ [(nr, r)] }
      resolveAll arch (resolved.add nr) rest

/-- The loop that adds openat where open is requested. -/
def mirrorOpen (arch : Arch) (f : Filter) : List FaultRule → Filter
  | [] => f
  | r :: rest =>
    if r.syscall = "open" then
      match syscallNumber arch "openat" with
      | some nr =>
        if nr ∈ f.syscallNrs then mirrorOpen arch f rest
        else mirrorOpen arch ⟨f.rules ++ [(nr, r)], f.syscallNrs ++ [nr]⟩ rest
      | none => mirrorOpen arch f rest
    else mirrorOpen arch f rest

/-- The part of `launch` that builds the filter. -/
def launch (s : Session) : Except String (Session × List Nat) :=
  match resolveAll s.arch ⟨[], []⟩ s.faultRules with
  | .error err => .error err
  | .ok f =>
    let f := mirrorOpen s.arch f s.faultRules
    .ok ({ s with static := f.rules }, f.syscallNrs)

/-! ## Numbers and names -/

theorem syscallNumber_inj {arch : Arch} {a b : String} {nr : Nat}
    (ha : syscallNumber arch a = some nr) (hb : syscallNumber arch b = some nr) : a = b := by
  have hk : ((syscallNames arch).map (·.1)).Nodup := by
    cases arch with
    | amd64 => decide
    | arm64 => decide
  unfold syscallNumber at ha hb
  obtain ⟨⟨n, x⟩, hf, rfl⟩ := Option.map_eq_some_iff.mp ha
  obtain ⟨⟨m, y⟩, hf', hnr⟩ := Option.map_eq_some_iff.mp hb
  have hx : x = a := by simpa using List.find?_some hf
  have hy : y = b := by simpa using List.find?_some hf'
  obtain rfl : m = n := hnr
  have heq := List.inj_on_of_nodup_map hk (List.mem_of_find?_eq_some hf)
    (List.mem_of_find?_eq_some hf') rfl
  rw [← hx, ← hy]
  exact congrArg Prod.snd heq

section loops

variable {arch : Arch} {f g : Filter}

theorem mem_add (nr x : Nat) : x ∈ (f.add nr).syscallNrs ↔ x ∈ f.syscallNrs ∨ x = nr := by
  unfold Filter.add
  split
  · rename_i hin
    constructor
    · exact .inl
    · rintro (h | rfl)
      · exact h
      · exact hin
  · simp

theorem rules_add (nr : Nat) : (f.add nr).rules = f.rules := by
  unfold Filter.add
  split <;> rfl

theorem resolveAll_ok {rules : List FaultRule} (h : resolveAll arch f rules = .ok g) :
    (∀ r ∈ rules, ∃ nr, syscallNumber arch r.syscall = some nr) ∧
      g.rules = f.rules ++ rules.filterMap (resolve arch) ∧
      ∀ x, x ∈ g.syscallNrs ↔
        x ∈ f.syscallNrs ∨ ∃ r ∈ rules, syscallNumber arch r.syscall = some x := by
  induction rules generalizing f with
  | nil =>
    cases h
    simp
  | cons r rest ih =>
    unfold resolveAll at h
    split at h
    · cases h
    · rename_i nr hnr
      obtain ⟨hk, hru, hnrs⟩ := ih h
      refine ⟨?_, ?_, ?_⟩
      · intro r' hr'
        rcases List.mem_cons.mp hr' with rfl | hr'
        · exact ⟨nr, hnr⟩
        · exact hk r' hr'
      · rw [hru, rules_add, List.filterMap_cons, resolve, hnr]
        simp
      · intro x
        simp only [hnrs, mem_add, List.mem_cons, exists_eq_or_imp, hnr, Option.some.injEq]
        rw [or_assoc, eq_comm (a := nr)]

theorem mirrorOpen_seen {nr : Nat} (hnr : syscallNumber arch "openat" = some nr)
    (hs : nr ∈ f.syscallNrs) (rules : List FaultRule) : mirrorOpen arch f rules = f := by
  induction rules with
  | nil => rfl
  | cons r rest ih =>
    rw [mirrorOpen, hnr]
    simp only [hs, if_true, ih, ite_self]

theorem mirrorOpen_eq {nr : Nat} (hnr : syscallNumber arch "openat" = some nr)
    (hnew : nr ∉ f.syscallNrs) (rules : List FaultRule) :
    mirrorOpen arch f rules = match rules.find? (·.syscall == "open") with
      | none => f
      | some r => ⟨f.rules ++ [(nr, r)], f.syscallNrs ++ [nr]⟩ := by
  induction rules with
  | nil => rfl
  | cons r rest ih =>
    by_cases ho : r.syscall = "open"
    · rw [mirrorOpen, if_pos ho, hnr, List.find?_cons_of_pos (by simpa using ho)]
      simp only [hnew, if_false]
      exact mirrorOpen_seen hnr (List.mem_append_right _ (List.mem_singleton_self nr)) rest
    · rw [mirrorOpen, if_neg ho, List.find?_cons_of_neg (by simpa using ho), ih]

theorem resolved_filter {name : String} {nr : Nat} (hnr : syscallNumber arch name = some nr)
    (rules : List FaultRule) :
    ((rules.filterMap (resolve arch)).filter (·.1 == nr)).map (·.2) =
      rules.filter (·.syscall == name) := by
  induction rules with
  | nil => rfl
  | cons r rest ih =>
    rw [List.filterMap_cons, resolve]
    by_cases hn : r.syscall = name
    · rw [hn, hnr, List.filter_cons_of_pos (by simpa using hn), ← ih]
      simp
    · rw [List.filter_cons_of_neg (by simpa using hn), ← ih]
      cases hr : syscallNumber arch r.syscall with
      | none => simp
      | some x =>
        have hne : x ≠ nr := by
          rintro rfl
          exact hn (syscallNumber_inj hr hnr)
        simp [hne]

end loops

/-! ## The law -/

def matchedAgainst (s : Session) (nr : Nat) : List FaultRule :=
  (s.static.filter (·.1 == nr)).map (·.2)

/-- What the session and the filter owe to the rules of the configuration. -/
structure Covers (s : Session) (nrs : List Nat) : Prop where
  openat : ∀ nr, syscallNumber s.arch "openat" = some nr → (matchedAgainst s nr).Perm
    (s.faultRules.filter (·.syscall == "openat") ++ s.faultRules.filter (·.syscall == "open"))
  filtered : ∀ name, filtersSyscall s name = true ↔
    ∃ nr ∈ nrs, syscallNumber s.arch name = some nr

theorem openat_known (arch : Arch) : ∃ nr, syscallNumber arch "openat" = some nr := by
  cases arch with
  | amd64 => exact ⟨257, by decide⟩
  | arm64 => exact ⟨56, by decide⟩

section law

variable {s t : Session} {nrs : List Nat}

/-- What a launch leaves: the resolved rules, and one mirrored rule where openat is new. -/
theorem launch_ok (h : launch s = .ok (t, nrs)) {nr : Nat}
    (hnr : syscallNumber s.arch "openat" = some nr) :
    ∃ mirrored : List FaultRule,
      mirrored = (if s.faultRules.any (·.syscall == "openat") then []
        else (s.faultRules.find? (·.syscall == "open")).toList) ∧
      t = { s with static := s.faultRules.filterMap (resolve s.arch) ++ mirrored.map (nr, ·) } ∧
      (∀ r ∈ s.faultRules, ∃ nr, syscallNumber s.arch r.syscall = some nr) ∧
      ∀ x, x ∈ nrs ↔ (∃ r ∈ s.faultRules, syscallNumber s.arch r.syscall = some x) ∨
        (x = nr ∧ mirrored ≠ []) := by
  unfold launch at h
  split at h
  · cases h
  · rename_i f hf
    obtain ⟨hk, hru, hnrs⟩ := resolveAll_ok hf
    simp only [List.not_mem_nil, false_or, List.nil_append] at hru hnrs
    have hs : nr ∈ f.syscallNrs ↔ s.faultRules.any (·.syscall == "openat") = true := by
      rw [hnrs, List.any_eq_true]
      constructor
      · rintro ⟨r, hr, hnum⟩
        exact ⟨r, hr, by simpa using syscallNumber_inj hnum hnr⟩
      · rintro ⟨r, hr, hn⟩
        have hn : r.syscall = "openat" := by simpa using hn
        exact ⟨r, hr, hn ▸ hnr⟩
    refine ⟨_, rfl, ?_⟩
    by_cases hin : nr ∈ f.syscallNrs
    · rw [if_pos (hs.mp hin)]
      rw [mirrorOpen_seen hnr hin] at h
      cases h
      refine ⟨?_, hk, ?_⟩
      · simp [hru]
      · intro x
        simp [hnrs]
    · rw [if_neg (fun hany => hin (hs.mpr hany))]
      rw [mirrorOpen_eq hnr hin] at h
      cases hfi : s.faultRules.find? (·.syscall == "open") with
      | none | some =>
        simp only [hfi] at h
        cases h
        refine ⟨?_, hk, ?_⟩
        · simp [hru]
        · intro x
          simp [hnrs]

/-- FiltersSyscall names what the kernel was given, whatever the rules are. -/
theorem launch_filters (h : launch s = .ok (t, nrs)) (name : String) :
    filtersSyscall t name = true ↔ ∃ nr ∈ nrs, syscallNumber t.arch name = some nr := by
  obtain ⟨nr, hnr⟩ := openat_known s.arch
  obtain ⟨mirrored, hm, rfl, hk, hnrs⟩ := launch_ok h hnr
  simp only [filtersSyscall, List.any_eq_true, Bool.or_eq_true, Bool.and_eq_true, beq_iff_eq]
  constructor
  · rintro ⟨r, hr, rfl | ⟨ho, rfl⟩⟩
    · obtain ⟨x, hx⟩ := hk r hr
      exact ⟨x, (hnrs x).mpr (.inl ⟨r, hr, hx⟩), hx⟩
    · refine ⟨nr, (hnrs nr).mpr ?_, hnr⟩
      by_cases hany : s.faultRules.any (·.syscall == "openat") = true
      · obtain ⟨r', hr', hn⟩ := List.any_eq_true.mp hany
        have hn : r'.syscall = "openat" := by simpa using hn
        exact .inl ⟨r', hr', hn ▸ hnr⟩
      · refine .inr ⟨rfl, ?_⟩
        have hs : (s.faultRules.find? (·.syscall == "open")).isSome = true := by
          rw [List.find?_isSome]
          exact ⟨r, hr, by simpa using ho⟩
        rw [hm, if_neg hany]
        simpa [Option.isSome_iff_ne_none] using hs
  · rintro ⟨x, hx, hnum⟩
    rcases (hnrs x).mp hx with ⟨r, hr, hr'⟩ | ⟨rfl, hne⟩
    · exact ⟨r, hr, .inl (syscallNumber_inj hr' hnum)⟩
    · have hn : name = "openat" := syscallNumber_inj hnum hnr
      cases hf : s.faultRules.find? (·.syscall == "open") with
      | none =>
        rw [hf] at hm
        exact absurd (hm.trans (by simp)) hne
      | some r =>
        have ho : r.syscall = "open" := by simpa using List.find?_some hf
        exact ⟨r, List.mem_of_find?_eq_some hf, .inr ⟨ho, hn⟩⟩

theorem launch_matched (h : launch s = .ok (t, nrs)) {nr : Nat}
    (hnr : syscallNumber s.arch "openat" = some nr) :
    matchedAgainst t nr = s.faultRules.filter (·.syscall == "openat") ++
      if s.faultRules.any (·.syscall == "openat") then []
      else (s.faultRules.find? (·.syscall == "open")).toList := by
  obtain ⟨mirrored, hm, rfl, -, -⟩ := launch_ok h hnr
  rw [← hm]
  unfold matchedAgainst
  rw [List.filter_append, List.map_append, resolved_filter hnr]
  congr 1
  rw [List.filter_eq_self.mpr (by simp)]
  simp [Function.comp_def]

theorem find_perm_filter_iff (p : FaultRule → Bool) (rules : List FaultRule) :
    (rules.find? p).toList.Perm (rules.filter p) ↔ (rules.filter p).length ≤ 1 := by
  rw [← List.head?_filter]
  cases rules.filter p with
  | nil => simp
  | cons r rest =>
    constructor
    · intro hp
      exact Nat.le_of_eq hp.length_eq.symm
    · intro hlen
      have hn : rest.length = 0 := by
        rw [List.length_cons] at hlen
        omega
      rw [List.eq_nil_of_length_eq_zero hn]
      simp

/-- A launched session covers openat exactly where at most one rule names open, and where one
does, none names openat. -/
theorem covers_iff (s t : Session) (nrs : List Nat) (h : launch s = .ok (t, nrs)) :
    Covers t nrs ↔ (s.faultRules.filter (·.syscall == "open")).length = 0 ∨
      ((s.faultRules.filter (·.syscall == "open")).length = 1 ∧
        (s.faultRules.filter (·.syscall == "openat")).length = 0) := by
  obtain ⟨nr, hnr⟩ := openat_known s.arch
  have hm := launch_matched h hnr
  have ht : t.arch = s.arch ∧ t.faultRules = s.faultRules := by
    obtain ⟨_, -, rfl, -⟩ := launch_ok h hnr
    exact ⟨rfl, rfl⟩
  have hco : Covers t nrs ↔ (matchedAgainst t nr).Perm
      (s.faultRules.filter (·.syscall == "openat") ++
        s.faultRules.filter (·.syscall == "open")) := by
    constructor
    · intro hc
      have hp := hc.openat nr (ht.1 ▸ hnr)
      rwa [ht.2] at hp
    · intro hp
      refine ⟨?_, launch_filters h⟩
      intro x hx
      rw [ht.1, hnr] at hx
      cases hx
      rwa [ht.2]
  rw [hco, hm, List.perm_append_left_iff]
  by_cases hany : s.faultRules.any (·.syscall == "openat") = true
  · have hpos : (s.faultRules.filter (·.syscall == "openat")).length ≠ 0 := by
      obtain ⟨r, hr, hn⟩ := List.any_eq_true.mp hany
      rw [List.length_eq_zero_iff.ne]
      exact List.ne_nil_of_mem (List.mem_filter.mpr ⟨hr, hn⟩)
    rw [if_pos hany, List.nil_perm, List.length_eq_zero_iff]
    constructor
    · exact .inl
    · rintro (hnil | ⟨-, hz⟩)
      · exact hnil
      · exact absurd hz hpos
  · have hz : (s.faultRules.filter (·.syscall == "openat")).length = 0 := by
      rw [List.length_eq_zero_iff, List.filter_eq_nil_iff]
      intro r hr hn
      exact hany (List.any_eq_true.mpr ⟨r, hr, hn⟩)
    rw [if_neg hany, find_perm_filter_iff]
    omega

end law

def configured (rules : List FaultRule) : Session :=
  ⟨.amd64, rules, [], [], [], [], false, none, zeroDraws, 0, 0⟩

def denyOpen (glob : String) : FaultRule :=
  { syscall := "open", errno := 2, probability := 1, pathGlob := bytes glob }

/-- One rule for open reaches openat. -/
theorem one_open_is_covered : ∃ t, launch (configured [denyOpen "/data/*"]) = .ok (t, [2, 257]) ∧
    Covers t [2, 257] := by
  refine ⟨_, rfl, ?_⟩
  exact (covers_iff (configured [denyOpen "/data/*"]) _ [2, 257] rfl).mpr (.inr (by decide))

/-- Two rules for open, on two paths: openat meets the first one only. -/
theorem second_open_is_not_mirrored : ∃ t,
    launch (configured [denyOpen "/data/a", denyOpen "/data/b"]) = .ok (t, [2, 257]) ∧
      matchedAgainst t 257 = [denyOpen "/data/a"] ∧ ¬Covers t [2, 257] := by
  refine ⟨_, rfl, rfl, ?_⟩
  intro hc
  have hl := (hc.openat 257 (by decide)).length_eq
  revert hl
  decide

end faultbox.launch_filter
