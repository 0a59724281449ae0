-- The hits of a fault in the report (enrichTestOutput): the faulted calls of its service up to the
-- next fault_removed. The law: a fault is credited with the injections into the calls of its own
-- family, inside its own window. It holds exactly where each fault gains as many calls of others
-- as it loses behind the end of an inner window.
import Faultbox.SyscallFaults

open goval faultbox.event_log faultbox.syscall_faults

namespace faultbox.fault_hits

/-! ## The report -/

/-- `faultScope`. -/
structure FaultScope where
  service : String
  syscall : String
  details : String
  seq : Int

/-- `FaultInfo`, less the errno and the label, which nothing below reads. -/
structure FaultInfo where
  service : String
  syscall : String
  action : String
  hits : Nat

/-- A syscall event of the service whose decision is none of the three that let a call pass. -/
def faultedCall (service : String) (ev : Event) : Bool :=
  ev.type = "syscall" && ev.service = service && ev.field "decision" ≠ "allow" &&
    ev.field "decision" ≠ "allow (system path)" && ev.field "decision" ≠ ""

def removes (service : String) (ev : Event) : Bool :=
  ev.type = "fault_removed" && ev.service = service

def noEnd : Int := 2 ^ 62 - 1

def endSeq (events : List Event) (scope : FaultScope) : Int :=
  match events.find? fun ev => removes scope.service ev && scope.seq < ev.seq with
  | some ev => ev.seq
  | none => noEnd

def actionOf (details : String) : String :=
  if hasPrefix details "deny(" then "deny"
  else if hasPrefix details "delay(" then "delay"
  else if hasPrefix details "trace" then "trace"
  else ""

def faultInfo (events : List Event) (scope : FaultScope) : FaultInfo where
  service := scope.service
  syscall := scope.syscall
  action := actionOf scope.details
  hits := events.countP fun ev =>
    faultedCall scope.service ev && scope.seq < ev.seq && ev.seq < endSeq events scope

def scopeOf (ev : Event) (kv : String × String) : FaultScope := ⟨ev.service, kv.1, kv.2, ev.seq⟩

/-- The faults of `enrichTestOutput`; the fields of an event come in the order of the map. -/
def enrichTestOutput (order : MapOrder) (events : List Event) : List FaultInfo :=
  ((events.filter (·.type = "fault_applied")).flatMap fun ev =>
    (order.order (pairs ev.fields)).map (scopeOf ev)).map (faultInfo events)

/-- The faults that `buildDiagnostics` reports as FAULT_NOT_FIRED. -/
def notFired (faults : List FaultInfo) : List FaultInfo :=
  faults.filter fun fi => fi.action ≠ "trace" && fi.hits = 0

/-! ## Windows -/

/-- The event log of a test. -/
structure Log where
  events : List Event
  numbered : events.Pairwise (·.seq < ·.seq)
  small : ∀ ev ∈ events, ev.seq < noEnd

/-- What stands before the fault_removed that closes the innermost of `depth + 1` open windows of
the service. -/
def window (service : String) : Nat → List Event → List Event
  | _, [] => []
  | depth, ev :: rest =>
    if ev.type = "fault_applied" ∧ ev.service = service then ev :: window service (depth + 1) rest
    else if removes service ev then
      if depth = 0 then [] else ev :: window service (depth - 1) rest
    else ev :: window service depth rest

/-- An injection into a call of the family. -/
def ownCall (service kw : String) (ev : Event) : Bool :=
  ev.type = "syscall" && ev.service = service &&
    (expandSyscallFamily kw).contains (ev.field "syscall") &&
    (hasPrefix (ev.field "decision") "deny(" || hasPrefix (ev.field "decision") "delay(")

/-- The hits of a fault whose window opens in front of `post`. -/
def ownHits (service kw : String) (post : List Event) : Nat :=
  (window service 0 post).countP (ownCall service kw)

/-- Every fault has its own hits, and a fault is reported as not fired exactly where it has none. -/
def PerFault (order : MapOrder) (log : Log) : Prop :=
  ∀ pre ev post, log.events = pre ++ ev :: post → ev.type = "fault_applied" →
    ∀ kv ∈ pairs ev.fields,
      (faultInfo log.events (scopeOf ev kv)).hits = ownHits ev.service kv.1 post ∧
        (actionOf kv.2 ≠ "trace" →
          (faultInfo log.events (scopeOf ev kv) ∈ notFired (enrichTestOutput order log.events) ↔
            ownHits ev.service kv.1 post = 0))

/-- The part of the window that the report looks at. -/
def front (service : String) (post : List Event) : List Event :=
  post.takeWhile fun ev => !removes service ev

/-- Calls before the next fault_removed that are of another family, or no injection. -/
def strays (service kw : String) (post : List Event) : Nat :=
  (front service post).countP fun ev => faultedCall service ev && !ownCall service kw ev

/-- Calls of the family that an inner window hides. -/
def missed (service kw : String) (post : List Event) : Nat :=
  ((window service 0 post).drop (front service post).length).countP (ownCall service kw)

/-! ## Counting -/

theorem front_prefix (service : String) (depth : Nat) (post : List Event) :
    front service post <+: window service depth post := by
  induction post generalizing depth with
  | nil => exact List.nil_prefix
  | cons ev post ih =>
    rw [front, window]
    by_cases hr : removes service ev
    · rw [List.takeWhile_cons_of_neg (by simp [hr])]
      exact List.nil_prefix
    · rw [List.takeWhile_cons_of_pos (by simp [hr]), if_neg hr]
      split
      · exact List.cons_prefix_cons.mpr ⟨rfl, ih _⟩
      · exact List.cons_prefix_cons.mpr ⟨rfl, ih _⟩

theorem faultedCall_of_own {service kw : String} {ev : Event} (h : ownCall service kw ev = true) :
    faultedCall service ev = true := by
  simp only [ownCall, faultedCall, Bool.and_eq_true, decide_eq_true_eq] at h ⊢
  obtain ⟨⟨hcall, -⟩, hd⟩ := h
  refine ⟨⟨⟨hcall, fun hc => ?_⟩, fun hc => ?_⟩, fun hc => ?_⟩
  all_goals
    rw [hc] at hd
    exact absurd hd (by decide)

theorem ownHits_eq (service kw : String) (post : List Event) : ownHits service kw post =
    (front service post).countP (ownCall service kw) + missed service kw post := by
  obtain ⟨rest, hrest⟩ := front_prefix service 0 post
  rw [ownHits, missed, ← hrest, List.countP_append, List.drop_left]

theorem front_hits (service kw : String) (post : List Event) :
    (front service post).countP (faultedCall service) =
      (front service post).countP (ownCall service kw) + strays service kw post := by
  rw [strays]
  induction front service post with
  | nil => rfl
  | cons ev rest ih =>
    have hown : ownCall service kw ev = true → faultedCall service ev = true := faultedCall_of_own
    simp only [List.countP_cons, ih]
    cases ho : ownCall service kw ev <;> cases hf : faultedCall service ev <;> simp_all <;> omega

theorem countP_before_end (service : String) (p : Event → Bool) {post : List Event}
    (h : post.Pairwise (·.seq < ·.seq)) (hs : ∀ e ∈ post, e.seq < noEnd) :
    post.countP (fun e =>
        p e && e.seq < ((post.find? (removes service)).map Event.seq).getD noEnd) =
      (front service post).countP p := by
  induction post with
  | nil => rfl
  | cons e post ih =>
    rw [List.pairwise_cons] at h
    by_cases hr : removes service e
    · -- behind the next fault_removed all numbers are larger
      rw [front, List.takeWhile_cons_of_neg (by simp [hr]), List.find?_cons_of_pos hr]
      refine List.countP_eq_zero.mpr fun x hx => ?_
      rcases List.mem_cons.mp hx with rfl | hx
      · simp
      · have := h.1 x hx
        simp
        omega
    · have hlt : e.seq < ((post.find? (removes service)).map Event.seq).getD noEnd := by
        cases hf : post.find? (removes service) with
        | none => exact hs e List.mem_cons_self
        | some x => exact h.1 x (List.mem_of_find?_eq_some hf)
      rw [front, List.takeWhile_cons_of_pos (by simp [hr]), List.find?_cons_of_neg hr,
        List.countP_cons, List.countP_cons, ← front,
        ih h.2 fun x hx => hs x (List.mem_cons_of_mem _ hx)]
      simp [hlt]

section Split

variable {scope : FaultScope} {early post : List Event}

theorem endSeq_split (he : ∀ e ∈ early, ¬ scope.seq < e.seq) (hp : ∀ e ∈ post, scope.seq < e.seq) :
    endSeq (early ++ post) scope =
      ((post.find? (removes scope.service)).map Event.seq).getD noEnd := by
  have hfirst : early.find? (fun e => removes scope.service e && scope.seq < e.seq) = none :=
    List.find?_eq_none.mpr fun e hm => by simp [he e hm]
  have hrest : post.find? (fun e => removes scope.service e && scope.seq < e.seq) =
      post.find? (removes scope.service) := by
    refine List.find?_congr fun e hm => ?_
    simp [hp e hm]
  rw [endSeq, List.find?_append, hfirst, hrest, Option.none_or]
  cases post.find? (removes scope.service) <;> rfl

theorem hits_split (h : (early ++ post).Pairwise (·.seq < ·.seq))
    (hs : ∀ e ∈ early ++ post, e.seq < noEnd) (he : ∀ e ∈ early, ¬ scope.seq < e.seq)
    (hp : ∀ e ∈ post, scope.seq < e.seq) : (faultInfo (early ++ post) scope).hits =
      (front scope.service post).countP (faultedCall scope.service) := by
  have hzero : early.countP (fun e => faultedCall scope.service e && scope.seq < e.seq &&
      e.seq < endSeq (early ++ post) scope) = 0 :=
    List.countP_eq_zero.mpr fun e hm => by simp [he e hm]
  have hcount := countP_before_end scope.service (faultedCall scope.service)
    (List.pairwise_append.mp h).2.1 fun e hm => hs e (List.mem_append_right _ hm)
  rw [← hcount, ← endSeq_split he hp, faultInfo, List.countP_append, hzero, Nat.zero_add]
  refine List.countP_congr fun e hm => ?_
  simp [hp e hm]

end Split

/-- The report counts the faulted calls up to the next fault_removed of the service. -/
theorem hits_eq (log : Log) {pre post : List Event} {ev : Event}
    (h : log.events = pre ++ ev :: post) (kv : String × String) :
    (faultInfo log.events (scopeOf ev kv)).hits =
      (front ev.service post).countP (faultedCall ev.service) := by
  have hsplit : log.events = (pre ++ [ev]) ++ post := by simp [h]
  have hn := log.numbered
  have hs := log.small
  rw [hsplit] at hn hs ⊢
  obtain ⟨hpre, -, hlt⟩ := List.pairwise_append.mp hn
  refine hits_split hn hs (fun e he => ?_) (hlt ev (by simp))
  change ¬ ev.seq < e.seq
  rcases List.mem_append.mp he with he | he
  · have := (List.pairwise_append.mp hpre).2.2 e he ev (by simp)
    omega
  · rw [List.mem_singleton.mp he]
    omega

theorem mem_enrichTestOutput (order : MapOrder) {events : List Event} {ev : Event}
    (h : ev ∈ events) (ht : ev.type = "fault_applied") {kv : String × String}
    (hk : kv ∈ pairs ev.fields) :
    faultInfo events (scopeOf ev kv) ∈ enrichTestOutput order events := by
  refine List.mem_map_of_mem (List.mem_flatMap.mpr ⟨ev, List.mem_filter.mpr ⟨h, by simp [ht]⟩, ?_⟩)
  exact List.mem_map_of_mem ((order.perm _).mem_iff.mpr hk)

/-- The hits are per fault exactly where each fault gains as many calls of others as it loses. -/
theorem perFault_iff (order : MapOrder) (log : Log) :
    PerFault order log ↔ ∀ pre ev post, log.events = pre ++ ev :: post →
      ev.type = "fault_applied" → ∀ kv ∈ pairs ev.fields,
        strays ev.service kv.1 post = missed ev.service kv.1 post := by
  have hiff : ∀ pre ev post, log.events = pre ++ ev :: post → ∀ kv,
      (faultInfo log.events (scopeOf ev kv)).hits = ownHits ev.service kv.1 post ↔
        strays ev.service kv.1 post = missed ev.service kv.1 post := by
    intro pre ev post h kv
    rw [hits_eq log h, front_hits ev.service kv.1, ownHits_eq]
    omega
  constructor
  · intro hp pre ev post h ht kv hk
    exact (hiff pre ev post h kv).mp (hp pre ev post h ht kv hk).1
  · intro hp pre ev post h ht kv hk
    have hhits := (hiff pre ev post h kv).mpr (hp pre ev post h ht kv hk)
    refine ⟨hhits, fun ha => ?_⟩
    have hev : ev ∈ log.events := by simp [h]
    have hm := mem_enrichTestOutput order hev ht hk
    rw [notFired, List.mem_filter, ← hhits]
    simp only [hm, true_and, Bool.and_eq_true, decide_eq_true_eq]
    exact and_iff_right ha

def calls (fields : List (String × String)) (seq : Int) (type : String) : Event :=
  ⟨seq, type, "", "", "db", fields.foldr (fun kv m => m.insert kv.1 kv.2) ∅, ∅⟩

/-- A window with two faults, of which one fires. -/
def twoFaults : List Event :=
  [calls [("write", "deny(EIO) → filter:[write,writev,pwrite64]"),
      ("fsync", "deny(EIO) → filter:[fsync,fdatasync]")] 1 "fault_applied",
    calls [("syscall", "fsync"), ("decision", "deny(EIO)")] 2 "syscall",
    calls [] 3 "fault_removed"]

/-- The denied fsync is a hit of the fault on write, so its missing hit is not reported. -/
theorem sibling_takes_the_hit :
    ¬ PerFault .asStored ⟨twoFaults, by decide, by decide⟩ := by
  intro h
  have hw := (h [] _ _ rfl rfl ("write", "deny(EIO) → filter:[write,writev,pwrite64]")
    (by decide)).1
  exact absurd hw (by decide)

end faultbox.fault_hits
