-- The rules that a launch installs for the filter. The law: they deny a call
-- exactly when the leaf pins the key of the service and their system call, the
-- key that an unlabelled fault on the same keyword has too.
import Faultbox.SyscallFaults

open goval gopath faultbox.plan_tree faultbox.engine faultbox.event_log

namespace faultbox.syscall_faults

variable {r : FaultRule} {arch : Arch} {rules : List FaultRule} {e : Nat × FaultRule} {svc : String}
  {leaf : Option PlanLeaf}

/-! ## Sessions of the runtime -/

/-- A session that was just launched for a service, with rules for the filter. -/
def newSession (svc : String) (arch : Arch) (rules : List FaultRule)
    (static : List (Nat × FaultRule)) (virtualTime : Bool) (random : Nat → Draw) : Session :=
  { arch, faultRules := rules, static, dynamicRules := [], holdRules := [], holdQueues := []
    virtualTime, decider := some (probabilityDecider svc none), random, drawn := 0
    unresolvedPaths := 0 }

/-- The sessions of a service, as the runtime and the kernel can bring them
about, while the given leaf runs. -/
inductive Supervised (svc : String) : Option PlanLeaf → Session → Prop where
  | launch (arch : Arch) (syscalls : List String) (static : List (Nat × FaultRule))
      (virtualTime : Bool) (random : Nat → Draw)
      (h : launchRules arch (requiredFaultRulesForService syscalls) = .ok static) :
      Supervised svc none
        (newSession svc arch (requiredFaultRulesForService syscalls) static virtualTime random)
  | attach (arch : Arch) (syscalls : List String) (virtualTime : Bool) (random : Nat → Draw) :
      Supervised svc none
        (newSession svc arch (requiredFaultRulesForService syscalls)
          (externalRules arch (requiredFaultRulesForService syscalls)) virtualTime random)
  | handle {leaf : Option PlanLeaf} {s : Session} (req : NotifReq) (h : Supervised svc leaf s) :
      Supervised svc leaf (handleNotification s req).2
  | install {leaf : Option PlanLeaf} {s : Session} (rules : List FaultRule)
      (h : Supervised svc leaf s) : Supervised svc leaf (setDynamicFaultRules s rules)
  | clear {leaf : Option PlanLeaf} {s : Session} (h : Supervised svc leaf s) :
      Supervised svc leaf (clearDynamicFaultRules s)
  | hold {leaf : Option PlanLeaf} {s : Session} (rules : List (Nat × FaultRule))
      (queues : List String) (h : Supervised svc leaf s) :
      Supervised svc leaf { s with holdRules := rules, holdQueues := queues }
  | enterLeaf {leaf : Option PlanLeaf} {s : Session} (next : Option PlanLeaf)
      (h : Supervised svc leaf s) :
      Supervised svc next { s with decider := some (probabilityDecider svc next) }

/-- A placeholder, whatever its counters show. -/
def IsPlaceholder (r : FaultRule) : Prop := r.installed = placeholder r.syscall

theorem isPlaceholder_of_mem {syscalls : List String}
    (h : r ∈ requiredFaultRulesForService syscalls) : IsPlaceholder r := by
  obtain ⟨sc, -, rfl⟩ := List.mem_map.mp h
  rfl

theorem mem_of_resolved (h : e ∈ rules.filterMap (resolve arch)) : e.2 ∈ rules := by
  obtain ⟨r, hr, hres⟩ := List.mem_filterMap.mp h
  obtain ⟨nr, -, rfl⟩ := Option.map_eq_some_iff.mp hres
  exact hr

theorem mem_of_launched {static : List (Nat × FaultRule)} (h : launchRules arch rules = .ok static)
    (he : e ∈ static) : e.2 ∈ rules := by
  unfold launchRules at h
  split at h
  · cases h
  · split at h
    · rename_i nr r _ ho
      obtain rfl := Except.ok.inj h
      split_ifs at he
      · exact mem_of_resolved he
      · rcases List.mem_append.mp he with hres | hnew
        · exact mem_of_resolved hres
        · obtain rfl := List.mem_singleton.mp hnew
          exact List.mem_of_find?_eq_some ho
    · obtain rfl := Except.ok.inj h
      exact mem_of_resolved he

theorem mem_of_attached (he : e ∈ externalRules arch rules) : e.2 ∈ rules := by
  unfold externalRules at he
  rcases List.mem_append.mp he with hres | ho
  · exact mem_of_resolved hres
  · split at ho
    · obtain ⟨r, hr, rfl⟩ := List.mem_map.mp ho
      exact (List.mem_filter.mp hr).1
    · cases ho

theorem placeholders_of_installed {l l' : List (Nat × FaultRule)}
    (h : l'.map asInstalled = l.map asInstalled) (hl : ∀ e ∈ l, IsPlaceholder e.2) (he : e ∈ l') :
    IsPlaceholder e.2 := by
  have hmem : asInstalled e ∈ l.map asInstalled := h ▸ List.mem_map_of_mem he
  obtain ⟨e₀, he₀, heq⟩ := List.mem_map.mp hmem
  have hi : e₀.2.installed = e.2.installed := congrArg Prod.snd heq
  have hn : e₀.2.syscall = e.2.syscall := (congrArg FaultRule.syscall hi :)
  have h₀ := hl e₀ he₀
  unfold IsPlaceholder at h₀ ⊢
  rw [← hi, h₀, hn]

theorem Supervised.placeholders {s : Session} (h : Supervised svc leaf s) :
    ∀ e ∈ s.static, IsPlaceholder e.2 := by
  induction h with
  | launch arch syscalls static virtualTime random hok =>
    intro e he
    exact isPlaceholder_of_mem (mem_of_launched hok he)
  | attach arch syscalls virtualTime random =>
    intro e he
    exact isPlaceholder_of_mem (mem_of_attached he)
  | handle req _ ih =>
    intro e he
    exact placeholders_of_installed (handleNotification_installed _ req).1 ih he
  | install rules _ ih => exact ih
  | clear _ ih => exact ih
  | hold rules queues _ ih => exact ih
  | enterLeaf next _ ih => exact ih

theorem Supervised.decider {s : Session} (h : Supervised svc leaf s) :
    s.decider = some (probabilityDecider svc leaf) := by
  induction h with
  | launch arch syscalls static virtualTime random hok => rfl
  | attach arch syscalls virtualTime random => rfl
  | handle req _ ih =>
    rw [(handleNotification_config _ req).2.1]
    exact ih
  | install rules _ ih => exact ih
  | clear _ ih => exact ih
  | hold rules queues _ ih => exact ih
  | enterLeaf next _ _ => rfl

/-! ## The decision on a placeholder -/

/-- The leaf pins the next occurrence of the placeholder to fire. -/
def Pinned (svc : String) (leaf : Option PlanLeaf) (r : FaultRule) : Prop :=
  probabilityFire leaf (svc ++ ":" ++ r.syscall) r.probCounter = some true

theorem selects_placeholder (h : IsPlaceholder r) (draw : Draw) :
    r.selects (some (probabilityDecider svc leaf)) draw = true ↔ Pinned svc leaf r := by
  have ht : r.trigger = .always := (congrArg FaultRule.trigger h :)
  have hm : r.mode = .unset := (congrArg FaultRule.mode h :)
  have hl : r.label = "" := (congrArg FaultRule.label h :)
  have hp : r.probability = 0 := (congrArg FaultRule.probability h :)
  have hd : ¬ draw.val < 0 := not_lt.mpr draw.nonneg
  unfold FaultRule.selects FaultRule.shouldFire FaultRule.fireDecision
    FaultRule.nextProbabilityOccurrence probabilityDecider Pinned
  simp only [ht, hm, hl, hp, hd, decide_false, if_true, Bool.true_and,
    reduceCtorEq, if_false]
  cases probabilityFire leaf (svc ++ ":" ++ r.syscall) r.probCounter with
  | none => simp
  | some fire => simp

theorem action_placeholder (h : IsPlaceholder r) : r.action ≠ .hold := by
  have hact : r.action = .deny := (congrArg FaultRule.action h :)
  rw [hact]
  decide

theorem ruleFilter_placeholder {c : Call} (h : IsPlaceholder r) :
    ruleFilter c r = if c.hasPath ∧ isSystemPath c.path then .stop else .consider := by
  have hg : r.pathGlob = [] := (congrArg FaultRule.pathGlob h :)
  have hd : destFilter c r = .consider := by
    have ha : r.destAddr = "" := (congrArg FaultRule.destAddr h :)
    simp [destFilter, ha]
  unfold ruleFilter
  rw [hd]
  by_cases hsys : c.hasPath ∧ isSystemPath c.path
  · have ht : c.path ≠ [] := by
      intro hnil
      rw [hnil] at hsys
      exact absurd hsys.2 (by decide)
    rw [if_pos hsys, if_pos ⟨hsys.1, ht⟩, if_neg (not_not.mpr hg), if_pos hsys.2]
  · rw [if_neg hsys]
    by_cases ht : c.hasPath ∧ c.path ≠ []
    · rw [if_pos ht, if_neg (not_not.mpr hg), if_neg (fun h => hsys ⟨ht.1, h⟩)]
    · rw [if_neg ht]

/-- No placeholder denies the call, exactly when none is pinned to fire, or the
loop over the rules does not ask them: the virtual clock or a hold rule takes the
call, or its path argument is a system path. -/
theorem no_placeholder_denies_iff (svc : String) (leaf : Option PlanLeaf) (s : Session)
    (req : NotifReq) (hs : Supervised svc leaf s) :
    (∀ e ∈ s.static, e.1 = req.nr → (handleNotification s req).1 ≠ .faulted e.2) ↔
      ¬ (s.free (callOf s.arch req) = true ∧
        ¬ ((callOf s.arch req).hasPath = true ∧ isSystemPath (callOf s.arch req).path = true) ∧
        ∃ e ∈ s.static, e.1 = req.nr ∧ Pinned svc leaf e.2) := by
  set c := callOf s.arch req with hc
  have hnr : c.nr = req.nr := rfl
  constructor
  · rintro hn ⟨hf, hsys, e, he, henr, hpin⟩
    -- a pinned placeholder is not passed, so the loop takes the call among the static rules
    have hfi : ∀ e ∈ s.static, ruleFilter c e.2 = .consider := by
      intro e he
      rw [ruleFilter_placeholder (hs.placeholders e he), if_neg hsys]
    have hend : (scan.run (visit s.decider s.random c) s.static s.drawn).1 ≠ .next := by
      intro hne
      obtain ⟨k, hk⟩ := scan.exists_next_of_mem hne he
      rw [visit_of_consider (henr.trans hnr.symm) (hfi e he), hs.decider,
        if_pos ⟨(selects_placeholder (hs.placeholders e he) _).mpr hpin,
          action_placeholder (hs.placeholders e he)⟩] at hk
      cases hk
    obtain ⟨before, a, after, hsp, -, hv⟩ := scan.exists_of_end rfl hend
    have ha : a ∈ s.static := by simp [hsp]
    have hl : (s.ruleLoop c).1 = _ := scan.run_append_of_end hend s.dynamicRules
    rw [← hv] at hl
    cases ht : (visit s.decider s.random c
        (scan.run (visit s.decider s.random c) before s.drawn).2.2 a).1 with
    | next => exact hend (hv.symm.trans ht)
    | stop =>
      obtain ⟨hanr, hst⟩ := of_stop ht
      rw [hfi a ha] at hst
      cases hst
    | take rule =>
      obtain ⟨hanr, rfl, -, -, -⟩ := of_taken ht
      apply hn a ha (hanr.trans hnr)
      rw [outcome_of_free hf, ← hc, hl, ht]
      rfl
  · intro hnot e he henr hout
    have hf := free_of_faulted hout
    rw [outcome_of_free hf] at hout
    have hl := Outcome.take_of_faulted hout
    obtain ⟨_, a, _, -, -, hv⟩ := scan.exists_of_end hl (by simp)
    obtain ⟨-, -, hfi, hse, -⟩ := of_taken hv
    rw [hs.decider] at hse
    refine hnot ⟨hf, ?_, e, he, henr, (selects_placeholder (hs.placeholders e he) _).mp hse⟩
    intro hsys
    rw [← hc, ruleFilter_placeholder (hs.placeholders e he), if_pos hsys] at hfi
    cases hfi

/-! ### The key of an unlabelled fault -/

/-- A service `db` on amd64, launched for a spec that faults its writes. -/
def launchedDb : Session :=
  newSession "db" .amd64 (requiredFaultRulesForService ["pwrite64", "write", "writev"])
    [(18, placeholder "pwrite64"), (1, placeholder "write"), (20, placeholder "writev")] false
    zeroDraws

theorem a_leaf_without_outcomes_pins_no_placeholder :
    (∃ e ∈ launchedDb.static, e.1 = 1) ∧
      ∀ e ∈ launchedDb.static, e.1 = 1 →
        (handleNotification launchedDb (writeOf (some "/data/x"))).1 ≠ .faulted e.2 := by
  refine ⟨⟨(1, placeholder "write"), by simp [launchedDb, newSession], rfl⟩, ?_⟩
  apply (no_placeholder_denies_iff "db" none launchedDb (writeOf (some "/data/x"))
    (.launch .amd64 ["pwrite64", "write", "writev"] launchedDb.static false zeroDraws rfl)).mpr
  rintro ⟨-, -, e, -, -, hpin⟩
  cases hpin

/-- A runtime with `db` alone, while a leaf with one pinned site runs. -/
def runningDb (site : String) (fires : List Bool) : Runtime :=
  let leaf := { PlanLeaf.blank 0 with
    probabilityOutcomes := (∅ : GoMap String (List Bool)).insert site fires }
  { remotes := ∅
    sessions := (∅ : GoMap String (Option Session)).insert "db"
      (some { launchedDb with decider := some (probabilityDecider "db" (some leaf)) })
    faults := ∅
    probFaults := []
    events := newEventLog }

/-- `deny("EIO", probability = 0.5, max_fires = n, label = label)`. -/
def halfOfTheWrites (n : Int) (label : String) : FaultDef :=
  { action := .deny, errno := "EIO", probability := 1 / 2, maxFires := n, label := label }

/-- A fault on `write` without a label records its site under the key of the
placeholder; in the leaf where it fires, the placeholder denies the first write,
with errno 0. -/
theorem a_placeholder_denies_the_first_write :
    (applyFaults (runningDb "db:write" [true]) "db" [("write", halfOfTheWrites 1 "")]).1 = none ∧
      (applyFaults (runningDb "db:write" [true]) "db"
        [("write", halfOfTheWrites 1 "")]).2.probFaults = [⟨"db:write", 1⟩] ∧
      ((applyFaults (runningDb "db:write" [true]) "db"
        [("write", halfOfTheWrites 1 "")]).2.session "db").map
          (fun s => (handleNotification s (writeOf (some "/data/x"))).1) =
        some (.faulted (placeholder "write")) ∧
      (placeholder "write").errno = 0 := by
  exact ⟨by decide +kernel, by decide +kernel, by decide +kernel, rfl⟩

end faultbox.syscall_faults
