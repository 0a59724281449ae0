-- The path filters of the supervisor. The laws: a glob is respected exactly
-- when the handler has a text of the path to check it against, a system path is
-- protected exactly when it is named by a path argument, and a glob-less rule
-- on a system path hides the rules behind it.
import Faultbox.Notifications

open gopath

namespace faultbox.engine

variable {name : String} {c : Call} {p : Bytes} {rule r : FaultRule} {decider : Option Decider}
  {random : Nat → Draw}

/-! ## What is known about the call -/

theorem file_syscall_facts (h : isFileSyscall name = true) :
    isFdSyscall name = false ∧ isTimeSyscall name = false ∧ name ≠ "connect" := by
  have hall : ∀ n ∈ ["open", "openat", "creat", "mkdirat", "unlinkat", "faccessat", "fstatat",
      "readlinkat", "renameat", "renameat2", "linkat", "symlinkat"],
      isFdSyscall n = false ∧ isTimeSyscall n = false ∧ n ≠ "connect" := by decide
  exact hall name (List.contains_iff_mem.mp h)

theorem fd_syscall_facts (h : isFdSyscall name = true) :
    isFileSyscall name = false ∧ isTimeSyscall name = false ∧ name ≠ "connect" := by
  have hall : ∀ n ∈ ["write", "writev", "pwrite64", "pwritev", "pwritev2", "read", "readv",
      "pread64", "preadv", "preadv2", "fsync", "fdatasync", "ftruncate", "fchmod", "fchown"],
      isFileSyscall n = false ∧ isTimeSyscall n = false ∧ n ≠ "connect" := by decide
  exact hall name (List.contains_iff_mem.mp h)

theorem hasPath_facts (h : c.hasPath = true) :
    isTimeSyscall c.name = false ∧ c.name ≠ "connect" := by
  rcases (Bool.or_eq_true _ _).mp h with hf | hfd
  · exact (file_syscall_facts hf).2
  · exact (fd_syscall_facts hfd).2

theorem resolvedPath_of_pathOf {req : NotifReq} (h : pathOf name req ≠ []) :
    resolvedPath name req = some (pathOf name req) := by
  unfold pathOf at h ⊢
  split at h
  · exact absurd rfl h
  · rename_i p hp
    split at h
    · exact absurd rfl h
    · rename_i hnot
      simp only [if_neg hnot, hp]

theorem hasPath_of_resolved {arch : Arch} {req : NotifReq}
    (h : resolvedPath (syscallName arch req.nr) req = some p) :
    (callOf arch req).hasPath = true := by
  by_contra hno
  have hn := (Bool.or_eq_false_iff.mp (Bool.eq_false_iff.mpr hno))
  simp only [callOf] at hn
  rw [resolvedPath, if_neg (by simp [hn.1]), if_neg (by simp [hn.2])] at h
  cases h

theorem system_path_ne_nil (h : isSystemPath p = true) : p ≠ [] := by
  rintro rfl
  revert h
  decide

theorem pathOf_of_fd_system {req : NotifReq} (hp : resolvedPath name req = some p)
    (hfd : isFdSyscall name = true) (hsys : isSystemPath p = true) : pathOf name req = [] := by
  simp [pathOf, hp, hfd, hsys]

theorem pathOf_of_file {req : NotifReq} (hp : resolvedPath name req = some p)
    (hf : isFileSyscall name = true) : pathOf name req = p := by
  simp [pathOf, hp, (file_syscall_facts hf).1]

/-! ## The outcome of the handler -/

theorem Outcome.effective_ofStep {d : scan.Step FaultRule}
    (h : (Outcome.ofStep d).effective = some rule) : d = .take rule := by
  cases d with
  | next => cases h
  | stop => cases h
  | take taken =>
    cases h
    rfl

variable {s : Session} {req : NotifReq}

theorem free_of_hasPath (hp : c.hasPath = true) (hh : s.heldBy c = none) :
    s.free c = true := by
  simp [Session.free, (hasPath_facts hp).1, hh]

theorem outcome_of_held (hp : (callOf s.arch req).hasPath = true)
    (h : s.heldBy (callOf s.arch req) = some rule) : (handleNotification s req).1 = .held rule := by
  unfold handleNotification
  simp [(hasPath_facts hp).1, heldBy_countUnresolved, h]

theorem taken_of_effective (hp : (callOf s.arch req).hasPath = true)
    (hh : s.heldBy (callOf s.arch req) = none)
    (h : (handleNotification s req).1.effective = some rule) :
    (s.ruleLoop (callOf s.arch req)).1 = .take rule := by
  rw [outcome_of_free (free_of_hasPath hp hh)] at h
  exact Outcome.effective_ofStep h

/-! ## One rule and the filters -/

theorem destFilter_of_hasPath (h : c.hasPath = true) (r : FaultRule) :
    destFilter c r = .consider := by
  unfold destFilter
  rw [if_neg]
  rintro ⟨-, hc, -⟩
  exact (hasPath_facts h).2 hc

theorem ruleFilter_of_no_text (h : c.hasPath = true) (hp : c.path = []) (r : FaultRule) :
    ruleFilter c r = .consider := by
  rw [ruleFilter, if_neg (by simp [hp]), destFilter_of_hasPath h]

theorem of_considered (h : c.hasPath = true) (hp : c.path ≠ [])
    (hf : ruleFilter c r = .consider) : (r.pathGlob ≠ [] → r.onPath c.path = true) ∧
      (r.pathGlob = [] → isSystemPath c.path = false) := by
  rw [ruleFilter, if_pos ⟨h, hp⟩] at hf
  constructor
  · intro hg
    rw [if_pos hg] at hf
    by_contra hno
    rw [if_neg hno] at hf
    cases hf
  · intro hg
    rw [if_neg (not_not.mpr hg)] at hf
    by_contra hsys
    rw [if_pos (by simpa using hsys)] at hf
    cases hf

theorem of_stopped (h : ruleFilter c r = .stop) :
    c.path ≠ [] ∧ r.pathGlob = [] ∧ isSystemPath c.path = true := by
  have hd : destFilter c r ≠ .stop := by
    unfold destFilter
    split
    · simp
    · simp
  unfold ruleFilter at h
  split_ifs at h with ht hg hon hsys
  · exact absurd h hd
  · exact ⟨ht.2, by simpa using hg, hsys⟩
  · exact absurd h hd
  · exact absurd h hd

/-! ## The rule loop without a text of the path -/

/-- The first rule of the system call whose trigger and probability decision
select the call; every rule whose trigger fires takes one draw. -/
def firstSelected (decider : Option Decider) (random : Nat → Draw) (nr : Nat) :
    List (Nat × FaultRule) → Nat → Option FaultRule
  | [], _ => none
  | e :: rest, drawn =>
    if e.1 ≠ nr then firstSelected decider random nr rest drawn
    else if e.2.selects decider (random drawn) ∧ e.2.action ≠ .hold then some e.2
    else firstSelected decider random nr rest (if e.2.shouldFire.1 then drawn + 1 else drawn)

def Session.firstSelected (s : Session) (nr : Nat) : Option FaultRule :=
  engine.firstSelected s.decider s.random nr (s.static ++ s.dynamicRules) s.drawn

def Session.queuedHold (s : Session) (nr : Nat) : Option FaultRule :=
  (s.holdRules.find? fun e => e.1 == nr && s.holdQueues.contains e.2.holdTag).map (·.2)

theorem run_unfiltered (h : ∀ r, ruleFilter c r = .consider) (rules : List (Nat × FaultRule))
    (drawn : Nat) : Outcome.ofStep (scan.run (visit decider random c) rules drawn).1 =
      match firstSelected decider random c.nr rules drawn with
      | some rule => .faulted rule
      | none => .allowed false := by
  induction rules generalizing drawn with
  | nil => rfl
  | cons e rest ih =>
    rw [engine.firstSelected]
    by_cases hnr : e.1 = c.nr
    · have hv : (visit decider random c drawn e).1 = _ := visit_of_consider hnr (h e.2)
      rw [if_neg (not_not.mpr hnr)]
      by_cases hsel : e.2.selects decider (random drawn) = true ∧ e.2.action ≠ .hold
      · rw [if_pos hsel] at hv ⊢
        rw [scan.run_cons_end (by simp [hv]), hv]
        rfl
      · rw [if_neg hsel] at hv ⊢
        rw [scan.run_cons_next hv, visit_drawn_of_consider hnr (h e.2)]
        exact ih _
    · have hv : visit decider random c drawn e = _ := visit_of_other hnr
      rw [if_pos hnr, scan.run_cons_next (by rw [hv]), hv]
      exact ih drawn

theorem outcome_of_no_text (hp : (callOf s.arch req).hasPath = true)
    (ht : (callOf s.arch req).path = []) (hh : s.heldBy (callOf s.arch req) = none) :
    (handleNotification s req).1 =
      match s.firstSelected req.nr with
      | some rule => .faulted rule
      | none => .allowed false := by
  rw [outcome_of_free (free_of_hasPath hp hh)]
  exact run_unfiltered (ruleFilter_of_no_text hp ht) _ _

theorem heldBy_of_unchecked (h : ¬ (isFileSyscall c.name = true ∧ c.path ≠ [])) :
    s.heldBy c = s.queuedHold c.nr := by
  have hp : ∀ r, holdPasses c r = true := by
    intro r
    unfold holdPasses
    by_cases hf : isFileSyscall c.name = true
    · have hnil : c.path = [] := by
        by_contra hne
        exact h ⟨hf, hne⟩
      simp [hnil]
    · simp [hf]
  unfold Session.heldBy Session.queuedHold
  simp only [hp, Bool.and_true]

/-! ## Globs -/

/-- The rule has no glob, or one that the resolved path of the call satisfies. -/
def Respects (name : String) (req : NotifReq) (r : FaultRule) : Prop :=
  r.pathGlob ≠ [] → ∃ p, resolvedPath name req = some p ∧ r.onPath p = true

theorem respects_of_taken (hc : c = callOf s.arch req) (hp : c.hasPath = true)
    (ht : c.path ≠ []) (h : (s.ruleLoop c).1 = .take rule) :
    Respects (syscallName s.arch req.nr) req rule := by
  intro hg
  obtain ⟨before, e, after, -, -, hv⟩ := scan.exists_of_end h (by simp)
  obtain ⟨-, -, hf, -, -⟩ := of_taken hv
  refine ⟨c.path, ?_, (of_considered hp ht hf).1 hg⟩
  subst hc
  exact resolvedPath_of_pathOf ht

theorem respects_of_held (hc : c = callOf s.arch req) (hf : isFileSyscall c.name = true)
    (ht : c.path ≠ []) (h : s.heldBy c = some rule) :
    Respects (syscallName s.arch req.nr) req rule := by
  intro hg
  obtain ⟨e, he, rfl⟩ := Option.map_eq_some_iff.mp h
  have hp := List.find?_some he
  simp only [Bool.and_eq_true] at hp
  have hon := hp.1.2
  simp only [holdPasses, hf, bne_iff_ne.mpr ht, bne_iff_ne.mpr hg, Bool.and_self,
    Bool.not_true, Bool.false_or] at hon
  refine ⟨c.path, ?_, hon⟩
  subst hc
  exact resolvedPath_of_pathOf ht

/-- Whatever rule takes a file or descriptor call respects its glob, exactly when
the handler has the text of a path argument, or the rule that the unfiltered
loops reach respects it by itself. -/
theorem a_glob_is_respected_iff (s : Session) (req : NotifReq)
    (hpath : (callOf s.arch req).hasPath = true) :
    (∀ rule, (handleNotification s req).1.effective = some rule →
      Respects (syscallName s.arch req.nr) req rule) ↔
    ((isFileSyscall (callOf s.arch req).name = true ∧ (callOf s.arch req).path ≠ []) ∨
      ((∀ rule, s.queuedHold req.nr = some rule →
          Respects (syscallName s.arch req.nr) req rule) ∧
        (s.queuedHold req.nr = none → (callOf s.arch req).path = [] →
          ∀ rule, s.firstSelected req.nr = some rule →
            Respects (syscallName s.arch req.nr) req rule))) := by
  set c := callOf s.arch req with hc
  have hnr : c.nr = req.nr := rfl
  by_cases hch : isFileSyscall c.name = true ∧ c.path ≠ []
  · refine iff_of_true ?_ (.inl hch)
    intro rule he
    cases hh : s.heldBy c with
    | some held =>
      rw [outcome_of_held hpath hh] at he
      cases he
      exact respects_of_held hc hch.1 hch.2 hh
    | none =>
      exact respects_of_taken hc hpath hch.2 (taken_of_effective hpath hh he)
  · rw [or_iff_right hch]
    have hhe : s.heldBy c = s.queuedHold req.nr := heldBy_of_unchecked hch
    cases hh : s.queuedHold req.nr with
    | some held =>
      rw [hh] at hhe
      rw [outcome_of_held hpath hhe]
      simp [Outcome.effective]
    | none =>
      rw [hh] at hhe
      by_cases ht : c.path = []
      · rw [outcome_of_no_text hpath ht hhe]
        cases hsel : s.firstSelected req.nr <;> simp [Outcome.effective, ht]
      · refine iff_of_true ?_ (by simp [ht])
        intro rule he
        exact respects_of_taken hc hpath ht (taken_of_effective hpath hhe he)

/-! ### On an amd64 host -/

/-- A session with fault rules and hold rules under one number each, and a queue
for the holds of the tag `step`. -/
def sessionOf (rules holds : List (Nat × FaultRule)) : Session :=
  ⟨.amd64, [], [], rules, holds, ["step"], false, none, zeroDraws, 0, 0⟩

def denyUnder (syscall glob : String) : FaultRule :=
  { syscall := syscall, errno := 5, probability := 1, pathGlob := bytes glob }

theorem an_opened_path_is_checked :
    (callOf .amd64 (openatOf (some "/data/x"))).hasPath = true ∧
      ∀ rule, (handleNotification (sessionOf [(257, denyUnder "openat" "/data/*")] [])
          (openatOf (some "/data/x"))).1.effective = some rule →
        Respects "openat" (openatOf (some "/data/x")) rule := by
  refine ⟨by decide, ?_⟩
  exact (a_glob_is_respected_iff (sessionOf [(257, denyUnder "openat" "/data/*")] [])
    (openatOf (some "/data/x")) (by decide)).mpr (.inl ⟨by decide, by decide⟩)

/-- A write behind a descriptor that /proc cannot resolve is denied by a rule for
/data/, and a write to /tmp/x is held by one. -/
theorem a_glob_is_ignored_without_a_path_argument :
    (resolvedPath "write" (writeOf none) = none ∧
      (handleNotification (sessionOf [(1, denyUnder "write" "/data/*")] []) (writeOf none)).1 =
        .faulted (denyUnder "write" "/data/*")) ∧
    (resolvedPath "write" (writeOf (some "/tmp/x")) = some (bytes "/tmp/x") ∧
      (denyUnder "write" "/data/*").onPath (bytes "/tmp/x") = false ∧
      (handleNotification (sessionOf []
          [(1, { denyUnder "write" "/data/*" with action := .hold, holdTag := "step" })])
          (writeOf (some "/tmp/x"))).1 =
        .held { denyUnder "write" "/data/*" with action := .hold, holdTag := "step" }) := by
  constructor
  · exact ⟨rfl, by decide⟩
  · exact ⟨by decide +kernel, by decide +kernel, by decide +kernel⟩

/-! ## System paths -/

/-- The draws taken once a list of rules is passed: one for each rule that the
filters let through and whose trigger fires. -/
def drawsAfter (c : Call) (rules : List (Nat × FaultRule)) (drawn : Nat) : Nat :=
  rules.foldl (fun k e =>
    if e.1 = c.nr ∧ ruleFilter c e.2 = .consider ∧ e.2.shouldFire.1 then k + 1 else k) drawn

theorem visit_drawn {drawn : Nat} (e : Nat × FaultRule) : (visit decider random c drawn e).2.2 =
      if e.1 = c.nr ∧ ruleFilter c e.2 = .consider ∧ e.2.shouldFire.1 then drawn + 1
      else drawn := by
  by_cases hnr : e.1 = c.nr
  · cases hf : ruleFilter c e.2 with
    | skip => simp [visit_of_skip hnr hf]
    | stop => simp [visit_of_stop hnr hf]
    | consider => simp [visit_drawn_of_consider hnr hf, hnr]
  · simp [visit_of_other hnr, hnr]

theorem run_drawn (rules : List (Nat × FaultRule)) (drawn : Nat)
    (h : (scan.run (visit decider random c) rules drawn).1 = .next) :
    (scan.run (visit decider random c) rules drawn).2.2 = drawsAfter c rules drawn := by
  induction rules generalizing drawn with
  | nil => rfl
  | cons e rest ih =>
    by_cases hv : (visit decider random c drawn e).1 = .next
    · rw [scan.run_cons_next hv] at h ⊢
      rw [ih _ h, visit_drawn]
      rfl
    · rw [scan.run_cons_end hv] at h
      exact absurd h hv

theorem no_stop_of_passed {rules : List (Nat × FaultRule)} {drawn : Nat}
    (h : (scan.run (visit decider random c) rules drawn).1 = .next) (hp : c.hasPath = true)
    (ht : c.path ≠ []) (hsys : isSystemPath c.path = true) {e : Nat × FaultRule} (he : e ∈ rules)
    (hnr : e.1 = c.nr) : e.2.pathGlob ≠ [] := by
  intro hg
  obtain ⟨k, hk⟩ := scan.exists_next_of_mem h he
  have hs : ruleFilter c e.2 = .stop := by
    rw [ruleFilter, if_pos ⟨hp, ht⟩, if_neg (not_not.mpr hg), if_pos hsys]
  rw [visit_of_stop hnr hs] at hk
  cases hk

theorem ruleFilter_of_onPath (hp : resolvedPath (syscallName s.arch req.nr) req = some p)
    (hg : r.pathGlob ≠ []) (hon : r.onPath p = true) :
    ruleFilter (callOf s.arch req) r = .consider := by
  have hpa := hasPath_of_resolved hp
  by_cases ht : (callOf s.arch req).path = []
  · exact ruleFilter_of_no_text hpa ht r
  · have heq : (callOf s.arch req).path = p := by
      have hres := resolvedPath_of_pathOf ht
      rw [hp] at hres
      exact (Option.some.inj hres).symm
    rw [ruleFilter, if_pos ⟨hpa, ht⟩, if_pos hg, heq, if_pos hon,
      destFilter_of_hasPath hpa]

/-- A rule with a glob that the path satisfies, that selects the call and that no
rule before it forestalls, takes the call exactly when it is not masked: the path
is not a system path in an argument, or no glob-less rule stands before it. -/
theorem a_glob_rule_takes_the_call_iff (s : Session) (req : NotifReq) (p : Bytes)
    (before after : List (Nat × FaultRule)) (r : FaultRule)
    (hrules : s.static ++ s.dynamicRules = before ++ (req.nr, r) :: after)
    (hp : resolvedPath (syscallName s.arch req.nr) req = some p)
    (hglob : r.pathGlob ≠ []) (hon : r.onPath p = true)
    (hselect : r.selects s.decider
      (s.random (drawsAfter (callOf s.arch req) before s.drawn)) = true)
    (hheld : s.heldBy (callOf s.arch req) = none)
    (hbefore : ∀ rule,
      (scan.run (visit s.decider s.random (callOf s.arch req)) before s.drawn).1 ≠ .take rule) :
    (handleNotification s req).1 = .faulted r ↔
      r.action ≠ .hold ∧
        ¬ (isFileSyscall (syscallName s.arch req.nr) = true ∧ isSystemPath p = true ∧
          ∃ g ∈ before, g.1 = req.nr ∧ g.2.pathGlob = []) := by
  have hpa := hasPath_of_resolved hp
  set c := callOf s.arch req with hc
  rw [outcome_of_free (free_of_hasPath hpa hheld), Session.ruleLoop, hrules]
  cases hrun : (scan.run (visit s.decider s.random c) before s.drawn).1 with
  | take rule => exact absurd hrun (hbefore rule)
  | stop =>
    rw [← hc, scan.run_append_of_end (by simp [hrun]), hrun]
    refine iff_of_false (by simp [Outcome.ofStep]) ?_
    rintro ⟨-, hf⟩
    obtain ⟨l₁, g, l₂, rfl, -, hv⟩ := scan.exists_of_end hrun (by simp)
    obtain ⟨hnr, hs⟩ := of_stop hv
    obtain ⟨ht, hn, hsys⟩ := of_stopped hs
    -- a text of a system path is a path argument: descriptors give none
    have hres : some p = some c.path := by
      rw [← hp]
      exact resolvedPath_of_pathOf ht
    obtain rfl := Option.some.inj hres
    have hfi : isFileSyscall (syscallName s.arch req.nr) = true := by
      rcases (Bool.or_eq_true _ _).mp hpa with h | h
      · exact h
      · exact absurd (pathOf_of_fd_system hp h hsys) ht
    exact hf ⟨hfi, hsys, g, by simp, hnr, hn⟩
  | next =>
    have hfil := ruleFilter_of_onPath hp hglob hon
    have hd := run_drawn before s.drawn hrun
    have hv : (visit s.decider s.random c
        (scan.run (visit s.decider s.random c) before s.drawn).2.2 (req.nr, r)).1 = _ :=
      visit_of_consider rfl hfil
    rw [hd] at hv
    have hf : ¬ (isFileSyscall (syscallName s.arch req.nr) = true ∧ isSystemPath p = true ∧
        ∃ g ∈ before, g.1 = req.nr ∧ g.2.pathGlob = []) := by
      rintro ⟨hfi, hsys, g, hg, hnr, hn⟩
      have ht : c.path = p := pathOf_of_file hp hfi
      have hne : c.path ≠ [] := by
        rw [ht]
        exact system_path_ne_nil hsys
      exact no_stop_of_passed hrun hpa hne (ht ▸ hsys) hg hnr hn
    by_cases hh : r.action = .hold
    · refine iff_of_false ?_ (fun h => h.1 hh)
      intro hout
      have hl := Outcome.effective_ofStep (congrArg Outcome.effective hout)
      obtain ⟨_, e, _, -, -, hta⟩ := scan.exists_of_end hl (by simp)
      exact (of_taken hta).2.2.2.2 hh
    · rw [if_pos ⟨hselect, hh⟩] at hv
      refine iff_of_true ?_ ⟨hh, hf⟩
      rw [← hc, scan.run_split hrun _ _ (by rw [hd, hv]; simp), hd, hv]
      rfl

def behindPlaceholder (path : String) : Session :=
  { sessionOf [(257, denyUnder "openat" path)] [] with static := [(257, { syscall := "openat" })] }

theorem a_data_rule_is_not_masked :
    (handleNotification (behindPlaceholder "/data/*") (openatOf (some "/data/x"))).1 =
      .faulted (denyUnder "openat" "/data/*") := by
  have hb : (scan.run (visit none zeroDraws (callOf .amd64 (openatOf (some "/data/x"))))
      [(257, { syscall := "openat" })] 0).1 = .next := by decide
  apply (a_glob_rule_takes_the_call_iff (behindPlaceholder "/data/*")
    (openatOf (some "/data/x")) (bytes "/data/x") [(257, { syscall := "openat" })] []
    (denyUnder "openat" "/data/*") rfl (by decide +kernel) (by decide) (by decide +kernel)
    (by decide) (by decide) (fun rule h => by cases hb.symm.trans h)).mpr
  exact ⟨by decide, by decide⟩

/-- A rule for /dev/ never sees an openat of /dev/shm/x: the placeholder of the
launch ends the loop. -/
theorem a_placeholder_masks_a_device_rule :
    resolvedPath "openat" (openatOf (some "/dev/shm/x")) = some (bytes "/dev/shm/x") ∧
      (denyUnder "openat" "/dev/**").onPath (bytes "/dev/shm/x") = true ∧
      (denyUnder "openat" "/dev/**").selects none (zeroDraws 0) = true ∧
      (handleNotification (behindPlaceholder "/dev/**") (openatOf (some "/dev/shm/x"))).1 =
        .allowed true := by
  exact ⟨by decide +kernel, by decide +kernel, by decide +kernel, by decide +kernel⟩

end faultbox.engine
