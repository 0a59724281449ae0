-- A window declares its faults in a Go map, and applyFaults lists their rules in
-- the order in which it meets the entries. The first rule that fires takes a call,
-- so the order shows exactly where two keywords have rules for one system call.
-- The laws: keywords with no system call in common give the same decisions in
-- every order; for keywords with one in common there are faults that do not.
import Faultbox.FaultWindows
import Faultbox.Runs

open goval gopath faultbox.engine faultbox.event_log

namespace faultbox.syscall_faults

variable {s t : Session} {arch : Arch} {svc kw : String} {nr : Nat}

/-! ## Sessions that decide alike -/

def rulesFor (nr : Nat) (rules : List (Nat × FaultRule)) : List (Nat × FaultRule) :=
  rules.filter fun e => e.1 == nr

/-- The sessions differ in the order of their dynamic rules alone, and not in the
order of the rules of any one system call. -/
structure Alike (s t : Session) : Prop where
  rest : t = { s with dynamicRules := t.dynamicRules }
  dynamic : ∀ nr, rulesFor nr s.dynamicRules = rulesFor nr t.dynamicRules

section Loop

variable (decider : Option Decider) (random : Nat → Draw) (c : Call)

theorem visit_nr (drawn : Nat) (e : Nat × FaultRule) :
    (visit decider random c drawn e).2.1.1 = e.1 :=
  (congrArg Prod.fst (visit_installed decider random c drawn e) :)

theorem run_rulesFor (l : List (Nat × FaultRule)) (drawn : Nat) :
    (scan.run (visit decider random c) l drawn).1 =
        (scan.run (visit decider random c) (rulesFor c.nr l) drawn).1 ∧
      rulesFor c.nr (scan.run (visit decider random c) l drawn).2.1 =
        (scan.run (visit decider random c) (rulesFor c.nr l) drawn).2.1 ∧
      (scan.run (visit decider random c) l drawn).2.2 =
        (scan.run (visit decider random c) (rulesFor c.nr l) drawn).2.2 := by
  apply scan.run_filter
  · intro drawn e he
    exact visit_of_other (by simpa using he)
  · intro drawn e
    rw [visit_nr]

theorem rulesFor_run {nr : Nat} (hnr : nr ≠ c.nr) (l : List (Nat × FaultRule)) (drawn : Nat) :
    rulesFor nr (scan.run (visit decider random c) l drawn).2.1 = rulesFor nr l := by
  apply scan.filter_run
  · intro drawn e
    rw [visit_nr]
  · intro drawn e he
    have he : e.1 = nr := by simpa using he
    rw [visit_of_other (by rw [he]; exact hnr)]

variable {l l' : List (Nat × FaultRule)}

theorem run_alike (h : ∀ nr, rulesFor nr l = rulesFor nr l') (drawn : Nat) :
    (scan.run (visit decider random c) l drawn).1 =
        (scan.run (visit decider random c) l' drawn).1 ∧
      (∀ nr, rulesFor nr (scan.run (visit decider random c) l drawn).2.1 =
        rulesFor nr (scan.run (visit decider random c) l' drawn).2.1) ∧
      (scan.run (visit decider random c) l drawn).2.2 =
        (scan.run (visit decider random c) l' drawn).2.2 := by
  obtain ⟨h1, h2, h3⟩ := run_rulesFor decider random c l drawn
  obtain ⟨h1', h2', h3'⟩ := run_rulesFor decider random c l' drawn
  refine ⟨by rw [h1, h1', h], fun nr => ?_, by rw [h3, h3', h]⟩
  by_cases hnr : nr = c.nr
  · rw [hnr, h2, h2', h]
  · rw [rulesFor_run decider random c hnr, rulesFor_run decider random c hnr, h]

end Loop

theorem ruleLoop_alike (h : Alike s t) (c : Call) : (s.ruleLoop c).1 = (t.ruleLoop c).1 ∧
      (s.ruleLoop c).2.1.take s.static.length = (t.ruleLoop c).2.1.take s.static.length ∧
      (∀ nr, rulesFor nr ((s.ruleLoop c).2.1.drop s.static.length) =
        rulesFor nr ((t.ruleLoop c).2.1.drop s.static.length)) ∧
      (s.ruleLoop c).2.2 = (t.ruleLoop c).2.2 := by
  obtain ⟨hr, hdyn⟩ := h
  rw [hr]
  unfold Session.ruleLoop
  dsimp only
  generalize t.dynamicRules = dyn at hdyn
  have hlen : (scan.run (visit s.decider s.random c) s.static s.drawn).2.1.length =
      s.static.length := scan.length_run s.static s.drawn
  by_cases hn : (scan.run (visit s.decider s.random c) s.static s.drawn).1 = .next
  · obtain ⟨h1, h2, h3⟩ := run_alike s.decider s.random c hdyn
      (scan.run (visit s.decider s.random c) s.static s.drawn).2.2
    rw [scan.run_append hn, scan.run_append hn]
    dsimp only
    rw [List.take_left' hlen, List.take_left' hlen, List.drop_left' hlen, List.drop_left' hlen]
    exact ⟨h1, rfl, h2, h3⟩
  · rw [scan.run_append_end hn, scan.run_append_end hn]
    dsimp only
    rw [List.take_left' hlen, List.take_left' hlen, List.drop_left' hlen, List.drop_left' hlen]
    exact ⟨rfl, rfl, hdyn, rfl⟩

theorem countUnresolved_alike (h : Alike s t) (req : NotifReq) :
    Alike (s.countUnresolved req) (t.countUnresolved req) := by
  obtain ⟨hr, hdyn⟩ := h
  rw [hr]
  unfold Session.countUnresolved
  dsimp only
  split
  · exact ⟨rfl, hdyn⟩
  · exact ⟨rfl, hdyn⟩

/-- One call ends alike in sessions that are alike, and leaves them so. -/
theorem handleNotification_alike (h : Alike s t) (req : NotifReq) :
    (handleNotification s req).1 = (handleNotification t req).1 ∧
      Alike (handleNotification s req).2 (handleNotification t req).2 := by
  have ha : t.arch = s.arch := by rw [h.rest]
  have hc := countUnresolved_alike h req
  unfold handleNotification
  rw [ha]
  dsimp only
  generalize s.countUnresolved req = u at hc ⊢
  generalize t.countUnresolved req = v at hc ⊢
  obtain ⟨dyn, rfl⟩ : ∃ dyn, v = { u with dynamicRules := dyn } := ⟨_, hc.rest⟩
  have hh : Session.heldBy { u with dynamicRules := dyn } (callOf s.arch req) =
      u.heldBy (callOf s.arch req) := rfl
  rw [hh]
  dsimp only
  split
  · exact ⟨rfl, hc⟩
  · split
    · exact ⟨rfl, hc⟩
    · obtain ⟨h1, h2, h3, h4⟩ := ruleLoop_alike hc (callOf s.arch req)
      rw [h1]
      have hal : Alike
          { u with
            static := (u.ruleLoop (callOf s.arch req)).2.1.take u.static.length
            dynamicRules := (u.ruleLoop (callOf s.arch req)).2.1.drop u.static.length
            drawn := (u.ruleLoop (callOf s.arch req)).2.2 }
          { u with
            static := (Session.ruleLoop { u with dynamicRules := dyn }
              (callOf s.arch req)).2.1.take u.static.length
            dynamicRules := (Session.ruleLoop { u with dynamicRules := dyn }
              (callOf s.arch req)).2.1.drop u.static.length
            drawn := (Session.ruleLoop { u with dynamicRules := dyn }
              (callOf s.arch req)).2.2 } := by
        refine ⟨?_, h3⟩
        rw [h2, h4]
      split
      · exact ⟨rfl, hal⟩
      · exact ⟨rfl, hal⟩
      · exact ⟨rfl, hal⟩

/-! ## Windows -/

def numbersOf (arch : Arch) (kw : String) : List Nat :=
  (expandSyscallFamily kw).filterMap (syscallNumber arch)

def resolvedRules (arch : Arch) (svc : String) (kv : String × FaultDef) : List (Nat × FaultRule) :=
  (keywordRules svc kv).filterMap (resolve arch)

def decisions (rt : Runtime) (svc : String) (reqs : List NotifReq) : Option (List Outcome) :=
  (rt.session svc).map fun s => runs.answers handleNotification s reqs

@[simp] theorem syscall_engineRule (svc kw : String) (fd : FaultDef) (sc : String) :
    (engineRule svc kw fd sc).syscall = sc := by
  unfold engineRule
  cases fd.action <;> rfl

theorem mem_resolvedRules {kv : String × FaultDef} {e : Nat × FaultRule} :
    e ∈ resolvedRules arch svc kv ↔ ∃ sc ∈ expandSyscallFamily kv.1,
      syscallNumber arch sc = some e.1 ∧ engineRule svc kv.1 kv.2 sc = e.2 := by
  obtain ⟨nr, r⟩ := e
  simp only [resolvedRules, keywordRules, resolve, List.filterMap_map, List.mem_filterMap,
    Function.comp, syscall_engineRule, Option.map_eq_some_iff, Prod.mk.injEq]
  constructor
  · rintro ⟨sc, hsc, nr', hnr, rfl, hr⟩
    exact ⟨sc, hsc, hnr, hr⟩
  · rintro ⟨sc, hsc, hnr, hr⟩
    exact ⟨sc, hsc, nr, hnr, rfl, hr⟩

theorem rulesFor_resolvedRules {kv : String × FaultDef} (h : nr ∉ numbersOf arch kv.1) :
    rulesFor nr (resolvedRules arch svc kv) = [] := by
  apply List.filter_eq_nil_iff.mpr
  intro e he heq
  obtain ⟨sc, hsc, hnr, -⟩ := mem_resolvedRules.mp he
  obtain rfl : e.1 = nr := by simpa using heq
  exact h (List.mem_filterMap.mpr ⟨sc, hsc, hnr⟩)

theorem rulesFor_window (s : Session) (svc : String) (faults : Faults) (nr : Nat) :
    rulesFor nr (setDynamicFaultRules s (engineRules svc faults)).dynamicRules =
      faults.flatMap fun kv => rulesFor nr (resolvedRules s.arch svc kv) := by
  unfold setDynamicFaultRules engineRules rulesFor resolvedRules
  rw [List.filterMap_flatMap, List.filter_flatMap]

theorem uncoveredSyscalls_eq_nil_iff (s : Session) (rules : List FaultRule) :
    (uncoveredSyscalls s rules).isEmpty = true ↔
      ∀ r ∈ rules, r.syscall = "" ∨ filtersSyscall s r.syscall = true := by
  have hp := sortStrings_perm ((rules.filter fun r =>
    !(r.syscall == "" || filtersSyscall s r.syscall)).map (·.syscall)).dedup
  unfold uncoveredSyscalls
  rw [List.isEmpty_iff, ← List.length_eq_zero_iff, hp.length_eq, List.length_eq_zero_iff,
    List.dedup_eq_nil, List.map_eq_nil_iff, List.filter_eq_nil_iff]
  simp [or_iff_not_imp_left]

/-- When applyFaults succeeds: what it reads is the same in every order. -/
theorem applyFaults_ok_iff (rt : Runtime) (svc : String) (faults : Faults) :
    (applyFaults rt svc faults).1 = none ↔
      (faults = [] ∨ rt.remotes.lookup svc = none) ∧
        ∃ running, rt.sessions.lookup svc = some running ∧
        ∀ s, running = some s → ∀ r ∈ engineRules svc faults,
          r.syscall = "" ∨ filtersSyscall s r.syscall = true := by
  unfold applyFaults
  by_cases hl : faults = [] ∨ rt.remotes.lookup svc = none
  · have hn : (if faults.isEmpty then none else rt.remotes.lookup svc) = none := by
      rcases hl with h | h
      · simp [h]
      · simp [h]
    rw [hn]
    dsimp only
    rw [sessions_noteFaults]
    cases rt.sessions.lookup svc with
    | none => simp
    | some running =>
      cases running with
      | none => simp [hl]
      | some s =>
        have hc := uncoveredSyscalls_eq_nil_iff s (engineRules svc faults)
        simp only [hl, true_and, Option.some.injEq, exists_eq_left', forall_eq', ← hc]
        split
        · rename_i he
          simp [he]
        · rename_i he
          simp [he]
  · rw [not_or] at hl
    obtain ⟨host, hh⟩ := Option.ne_none_iff_exists'.mp hl.2
    have hs : (if faults.isEmpty then none else rt.remotes.lookup svc) = some host := by
      rw [if_neg (by simpa using hl.1), hh]
    rw [hs]
    simp [hl.1, hl.2]

theorem session_applyFaults (rt : Runtime) (svc : String) (faults : Faults) :
    (applyFaults rt svc faults).2.session svc =
      if (applyFaults rt svc faults).1 = none then
        (rt.session svc).map fun s => setDynamicFaultRules s (engineRules svc faults)
      else rt.session svc := by
  unfold Runtime.session
  rcases applyFaults_sessions rt svc faults with ⟨hsa, hn⟩ | ⟨s, hs, hok, hset⟩
  · rw [hsa]
    split
    · rename_i hok
      rw [hn hok]
      rfl
    · rfl
  · rw [if_pos hok, hset, hs, AList.lookup_insert]
    rfl

theorem applyFaults_perm (rt : Runtime) (svc : String) {faults faults' : Faults}
    (h : faults.Perm faults') :
    (applyFaults rt svc faults).1 = none ↔ (applyFaults rt svc faults').1 = none := by
  have hr : ∀ r, r ∈ engineRules svc faults ↔ r ∈ engineRules svc faults' :=
    fun r => (h.flatMap_right _).mem_iff
  have hnil : faults = [] ↔ faults' = [] := by
    rw [← List.length_eq_zero_iff, ← List.length_eq_zero_iff, h.length_eq]
  simp only [applyFaults_ok_iff, hr, hnil]

theorem decisions_perm {rt : Runtime} {faults faults' : Faults} (h : faults.Perm faults')
    (hd : ∀ s, rt.session svc = some s → faults.Pairwise fun kv kv' =>
      List.Disjoint (numbersOf s.arch kv.1) (numbersOf s.arch kv'.1)) (reqs : List NotifReq) :
    decisions (applyFaults rt svc faults).2 svc reqs =
      decisions (applyFaults rt svc faults').2 svc reqs := by
  unfold decisions
  rw [session_applyFaults, session_applyFaults]
  by_cases hok : (applyFaults rt svc faults).1 = none
  · rw [if_pos hok, if_pos ((applyFaults_perm rt svc h).mp hok)]
    cases hs : rt.session svc with
    | none => rfl
    | some s =>
      have ha : Alike (setDynamicFaultRules s (engineRules svc faults))
          (setDynamicFaultRules s (engineRules svc faults')) := by
        refine ⟨rfl, fun nr => ?_⟩
        rw [rulesFor_window, rulesFor_window]
        apply flatMap_eq_of_perm h
        apply (hd s hs).imp
        intro kv kv' hkv
        by_cases hnr : nr ∈ numbersOf s.arch kv.1
        · exact .inr (rulesFor_resolvedRules fun hnr' => hkv hnr hnr')
        · exact .inl (rulesFor_resolvedRules hnr)
      simp only [Option.map_some]
      exact congrArg some (runs.answers_eq_of_simulation (R := Alike)
        (fun s t req h => handleNotification_alike h req) ha reqs)
  · rw [if_neg hok, if_neg (fun h' => hok ((applyFaults_perm rt svc h).mpr h'))]

/-! ## Two keywords with one system call -/

/-- `deny(errno)`, with no filter and no limit. -/
def denial (errno : String) : FaultDef := { action := .deny, errno, probability := 1 }

def plainSession (arch : Arch) (rules : List FaultRule) : Session :=
  { arch, faultRules := rules, static := [], dynamicRules := [], holdRules := [], holdQueues := []
    virtualTime := false, decider := none, random := zeroDraws, drawn := 0, unresolvedPaths := 0 }

def blindCall (nr : Nat) : NotifReq :=
  ⟨nr, fun _ => 0, ⟨fun _ => none, fun _ => none, fun _ => none⟩⟩

theorem path_blindCall (arch : Arch) (nr : Nat) : (callOf arch (blindCall nr)).path = [] := by
  unfold callOf
  dsimp only
  generalize syscallName arch (blindCall nr).nr = name
  unfold pathOf resolvedPath readStringFromProcess blindCall
  cases isFileSyscall name <;> cases isFdSyscall name <;> simp

theorem visit_denial (arch : Arch) (svc kw sc errno : String) (nr drawn : Nat) :
    (visit none zeroDraws (callOf arch (blindCall nr)) drawn
      (nr, engineRule svc kw (denial errno) sc)).1 =
        .take (engineRule svc kw (denial errno) sc) := by
  have hf : ruleFilter (callOf arch (blindCall nr)) (engineRule svc kw (denial errno) sc) =
      .consider := by
    simp [ruleFilter, path_blindCall, destFilter, engineRule, denial]
  rw [visit_of_consider rfl hf, if_pos]
  refine ⟨?_, by simp [engineRule, denial]⟩
  simp [FaultRule.selects, FaultRule.shouldFire, FaultRule.fireDecision, engineRule, denial,
    zeroDraws]

/-- The first keyword with a rule for the call decides. -/
theorem first_keyword_decides (svc : String) (errno : String) (h : nr ∈ numbersOf arch kw)
    (rules : List FaultRule) (rest : Faults) :
    ∃ sc, (handleNotification (setDynamicFaultRules (plainSession arch rules)
      (engineRules svc ((kw, denial errno) :: rest))) (blindCall nr)).1 =
        .faulted (engineRule svc kw (denial errno) sc) := by
  set s := setDynamicFaultRules (plainSession arch rules)
    (engineRules svc ((kw, denial errno) :: rest)) with hs
  obtain ⟨sc, hsc, hnr⟩ := List.mem_filterMap.mp h
  have hmem : (nr, engineRule svc kw (denial errno) sc) ∈
      rulesFor nr (resolvedRules arch svc (kw, denial errno)) :=
    List.mem_filter.mpr ⟨mem_resolvedRules.mpr ⟨sc, hsc, hnr, rfl⟩, by simp⟩
  obtain ⟨e, es, hes⟩ := List.exists_cons_of_ne_nil (List.ne_nil_of_mem hmem)
  have he : e ∈ rulesFor nr (resolvedRules arch svc (kw, denial errno)) := by
    rw [hes]
    exact List.mem_cons_self
  obtain ⟨he, henr⟩ := List.mem_filter.mp he
  obtain ⟨sc', -, -, hr⟩ := mem_resolvedRules.mp he
  obtain rfl : e = (nr, engineRule svc kw (denial errno) sc') := by
    ext1
    · simpa using henr
    · exact hr.symm
  have hl : (s.ruleLoop (callOf s.arch (blindCall nr))).1 =
      .take (engineRule svc kw (denial errno) sc') := by
    have hw : rulesFor nr s.dynamicRules = (nr, engineRule svc kw (denial errno) sc') ::
        (es ++ rest.flatMap fun kv => rulesFor nr (resolvedRules arch svc kv)) := by
      rw [hs, rulesFor_window, List.flatMap_cons]
      exact congrArg (· ++ _) hes
    have ht := visit_denial arch svc kw sc' errno nr 0
    calc (s.ruleLoop (callOf s.arch (blindCall nr))).1
        = (scan.run (visit none zeroDraws (callOf arch (blindCall nr))) s.dynamicRules 0).1 := rfl
      _ = (scan.run (visit none zeroDraws (callOf arch (blindCall nr)))
            (rulesFor nr s.dynamicRules) 0).1 := (run_rulesFor _ _ _ _ _).1
      _ = .take (engineRule svc kw (denial errno) sc') := by
        rw [hw, scan.run_cons_end (by rw [ht]; simp), ht]
  refine ⟨sc', ?_⟩
  rw [outcome_of_free (by rfl), hl]
  rfl

def runtimeWith (svc : String) (s : Session) : Runtime :=
  { remotes := ∅, sessions := (∅ : GoMap String (Option Session)).insert svc (some s), faults := ∅
    probFaults := [], events := newEventLog }

theorem session_runtimeWith (svc : String) (s : Session) :
    (runtimeWith svc s).session svc = some s :=
  session_eq_some.mpr (AList.lookup_insert _)

theorem opens_runtimeWith (arch : Arch) (svc : String) (faults : Faults) {rules : List FaultRule}
    (h : ∀ r ∈ engineRules svc faults, r ∈ rules) :
    (applyFaults (runtimeWith svc (plainSession arch rules)) svc faults).1 = none := by
  rw [applyFaults_ok_iff]
  refine ⟨.inr rfl, some (plainSession arch rules), AList.lookup_insert _, ?_⟩
  rintro s hs r hr
  obtain rfl := Option.some.inj hs
  right
  exact List.any_eq_true.mpr ⟨r, h r hr, by simp⟩

theorem decisions_first (svc : String) (errno : String) (h : nr ∈ numbersOf arch kw)
    {rules : List FaultRule} (rest : Faults)
    (hr : ∀ r ∈ engineRules svc ((kw, denial errno) :: rest), r ∈ rules) :
    ∃ sc, decisions (applyFaults (runtimeWith svc (plainSession arch rules)) svc
      ((kw, denial errno) :: rest)).2 svc [blindCall nr] =
        some [.faulted (engineRule svc kw (denial errno) sc)] := by
  obtain ⟨sc, hsc⟩ := first_keyword_decides svc errno h rules rest
  refine ⟨sc, ?_⟩
  unfold decisions
  rw [session_applyFaults, if_pos (opens_runtimeWith arch svc _ hr), session_runtimeWith]
  simp only [Option.map_some, runs.answers, runs.trace, List.map_cons, List.map_nil, hsc]

theorem two_orders_differ {kw' : String} (h : nr ∈ numbersOf arch kw) (h' : nr ∈ numbersOf arch kw')
    (rest : Faults) : ∃ rt svc, (∀ s, rt.session svc = some s → s.arch = arch) ∧
      decisions (applyFaults rt svc ((kw, denial "EIO") :: (kw', denial "EPERM") :: rest)).2 svc
          [blindCall nr] ≠
        decisions (applyFaults rt svc ((kw', denial "EPERM") :: (kw, denial "EIO") :: rest)).2 svc
          [blindCall nr] := by
  have hsw := List.Perm.swap (kw, denial "EIO") (kw', denial "EPERM") rest
  obtain ⟨sc, hsc⟩ := decisions_first "svc" "EIO" h ((kw', denial "EPERM") :: rest)
    (fun _ hr => hr)
  obtain ⟨sc', hsc'⟩ := decisions_first "svc" "EPERM" h' ((kw, denial "EIO") :: rest)
    (fun _ hr => (hsw.flatMap_right (keywordRules "svc")).mem_iff.mp hr)
  refine ⟨runtimeWith "svc" (plainSession arch
    (engineRules "svc" ((kw, denial "EIO") :: (kw', denial "EPERM") :: rest))), "svc", ?_, ?_⟩
  · intro s hs
    rw [session_runtimeWith] at hs
    obtain rfl := Option.some.inj hs
    rfl
  · rw [hsc]
    intro heq
    have hru := Outcome.faulted.inj (List.cons.inj (Option.some.inj (heq.trans hsc'))).1
    have he : errnoOf "EIO" = errnoOf "EPERM" := congrArg FaultRule.errno hru
    exact absurd he (by decide)

/-! ## The law -/

theorem exists_two_denials {keywords : Finset String} {kw' : String} (hkw : kw ∈ keywords)
    (hkw' : kw' ∈ keywords) (hne : kw ≠ kw') :
    ∃ (m : GoMap String FaultDef) (rest : Faults), m.keys.toFinset = keywords ∧
      ((kw, denial "EIO") :: (kw', denial "EPERM") :: rest).Perm (pairs m) := by
  let fd : String → FaultDef := fun k => denial (if k = kw' then "EPERM" else "EIO")
  let m : GoMap String FaultDef := ⟨keywords.toList.map fun k => ⟨k, fd k⟩, by
    simpa [List.NodupKeys, List.keys, Function.comp_def] using keywords.nodup_toList⟩
  have hp : pairs m = keywords.toList.map fun k => (k, fd k) := by
    simp [m, pairs]
  obtain ⟨rest, hr⟩ : ∃ rest, keywords.toList.Perm (kw :: kw' :: rest) := by
    have hf := List.perm_cons_erase (Finset.mem_toList.mpr hkw)
    have hmem : kw' ∈ keywords.toList.erase kw :=
      (List.mem_erase_of_ne (Ne.symm hne)).mpr (Finset.mem_toList.mpr hkw')
    exact ⟨_, hf.trans ((List.perm_cons_erase hmem).cons kw)⟩
  refine ⟨m, rest.map fun k => (k, fd k), ?_, ?_⟩
  · ext k
    simp [m, AList.keys, List.keys]
  · rw [hp]
    simpa [fd, hne] using (hr.map fun k => (k, fd k)).symm

/-- On a host, the maps with the given keywords are installed alike in every order of
their entries, exactly if no two of the keywords have rules for one system call. -/
theorem installation_ignores_the_order_iff (arch : Arch) (keywords : Finset String) :
    (∀ (rt : Runtime) (svc : String), (∀ s, rt.session svc = some s → s.arch = arch) →
      ∀ m : GoMap String FaultDef, m.keys.toFinset = keywords →
        ∀ faults faults' : Faults, faults.Perm (pairs m) → faults'.Perm (pairs m) →
          ∀ reqs, decisions (applyFaults rt svc faults).2 svc reqs =
            decisions (applyFaults rt svc faults').2 svc reqs) ↔
    ∀ kw ∈ keywords, ∀ kw' ∈ keywords, kw ≠ kw' →
      List.Disjoint (numbersOf arch kw) (numbersOf arch kw') := by
  constructor
  · intro h kw hkw kw' hkw' hne nr hnr hnr'
    obtain ⟨m, rest, hk, hfi⟩ := exists_two_denials hkw hkw' hne
    obtain ⟨rt, svc, ha, hd⟩ := two_orders_differ hnr hnr' rest
    exact hd (h rt svc ha m hk _ _ hfi ((List.Perm.swap _ _ _).trans hfi)
      [blindCall nr])
  · intro h rt svc ha m hm faults faults' hf hf' reqs
    apply decisions_perm (hf.trans hf'.symm)
    intro s hs
    rw [ha s hs]
    have hn : (faults.map Prod.fst).Nodup := (hf.map Prod.fst).nodup_iff.mpr (nodup_pairs m)
    have hmem : ∀ kv ∈ faults, kv.1 ∈ keywords := by
      intro kv hkv
      rw [← hm, List.mem_toFinset]
      have hfo := mem_pairs.mp (hf.mem_iff.mp hkv)
      exact AList.mem_keys.mp (AList.lookup_isSome.mp (by rw [hfo]; rfl))
    exact (List.pairwise_map.mp hn).imp_of_mem fun hkv hkv' hne =>
      h _ (hmem _ hkv) _ (hmem _ hkv') hne

def overlapping : GoMap String FaultDef :=
  ((∅ : GoMap String FaultDef).insert "writev" (denial "EPERM")).insert "write" (denial "EIO")

/-- In one order the writev of `db` fails with EIO, in the other with EPERM. -/
theorem two_orders_of_one_map_decide_differently :
    [("write", denial "EIO"), ("writev", denial "EPERM")].Perm (pairs overlapping) ∧
      [("writev", denial "EPERM"), ("write", denial "EIO")].Perm (pairs overlapping) ∧
      decisions (applyFaults (runningDb "" []) "db"
          [("write", denial "EIO"), ("writev", denial "EPERM")]).2 "db" [blindCall 20] =
        some [.faulted (engineRule "db" "write" (denial "EIO") "writev")] ∧
      decisions (applyFaults (runningDb "" []) "db"
          [("writev", denial "EPERM"), ("write", denial "EIO")]).2 "db" [blindCall 20] =
        some [.faulted (engineRule "db" "writev" (denial "EPERM") "writev")] := by
  exact ⟨by decide, by decide, by decide, by decide⟩

end faultbox.syscall_faults
