-- The owner of a connection (Tracker and Binding): resolutions run in any number of threads, one
-- locked section or one look at /proc a turn, between registrations, bridges and closes. The law:
-- a source becomes known by a scan whose one active owner it is, by the answers that /proc gave in
-- the history and the registrations of that time, at the end of a chain of single bridges, and then
-- stays; a binding that was closed unknown stays unknown.
import Faultbox.GoValues
import Mathlib.Logic.Function.Basic

open goval

namespace faultbox.conn_owner

/-! ## The tracker -/

/-- The text of an instance, less the identity of the tracker. -/
structure Instance where
  pid : Nat
  start : Nat
  token : Nat
deriving DecidableEq

/-- `Source`; the empty text is no instance. -/
structure Source where
  service : String
  inst : Option Instance
  pid : Nat
deriving DecidableEq

def Source.known (s : Source) : Bool := s.inst.isSome

def unknown : Source := ⟨"", none, 0⟩

structure Registration where
  service : String
  pid : Nat
  start : Nat
  token : Nat
deriving DecidableEq

def Registration.inst (r : Registration) : Instance := ⟨r.pid, r.start, r.token⟩

def Registration.source (r : Registration) : Source := ⟨r.service, some r.inst, r.pid⟩

/-- What the loop of `Tracker.resolve` finds out about a registration of its snapshot. -/
structure Exam where
  reg : Registration
  owned : Bool
  complete : Bool
  registered : Bool
  active : Bool
deriving DecidableEq

/-- A turn of that loop; `none` is the return of the unknown source. -/
def examine (found : Source) (e : Exam) : Option Source :=
  if !e.registered then some found
  else if !e.complete then none
  else if !e.active then some found
  else if e.owned then
    if found.known && found ≠ e.reg.source then none else some e.reg.source
  else some found

def verdict (exams : List Exam) : Option Source :=
  exams.foldl (fun found e => found.bind (examine · e)) (some unknown)

/-- Where the examination of a registration stands: before ownsConnection, before the look whether
it is still registered, and before the three sections of `IsActive`. -/
inductive Check where
  | owns
  | listed (owned complete : Bool)
  | active (owned : Bool)
  | start (owned : Bool) (reg : Registration)
  | again (owned : Bool) (reg : Registration)

inductive Phase where
  | enter (b : Nat)
  | look
  | scan (todo : List Registration) (found : Source) (check : Check)
  | ret (source : Source)

/-- A resolution: the bindings it is inside of, the innermost first, which are also those of
`seen`. -/
structure Thread where
  stack : List Nat
  phase : Phase

/-- The answer of /proc, whichever is asked for. -/
structure Answer where
  owned : Bool
  complete : Bool
  start : Option Nat

/-- The state of the tracker and its bindings; a bridge has its tuple, its token and its binding. -/
structure State (τ : Type) where
  next : Nat
  registrations : GoMap Instance Registration
  bridges : List (τ × Nat × Nat)
  closed : Nat → Bool
  source : Nat → Source
  threads : Nat → Thread

def newTracker (τ : Type) : State τ where
  next := 0
  registrations := ∅
  bridges := []
  closed := fun _ => false
  source := fun _ => unknown
  threads := fun _ => ⟨[], .ret unknown⟩

inductive Act (τ : Type) where
  | register (service : String) (pid start : Nat)
  | unregister (reg : Registration)
  | forward (key : τ) (b : Nat)
  | unforward (key : τ) (token : Nat)
  | close (b : Nat)
  | begin (t b : Nat)
  | turn (t : Nat) (answer : Answer)

section tracker

variable {τ : Type}

def State.move (s : State τ) (t : Nat) (stack : List Nat) (phase : Phase) : State τ :=
  { s with threads := Function.update s.threads t ⟨stack, phase⟩ }

def settle (todo : List Registration) (found : Source) (e : Exam) : Phase :=
  match examine found e with
  | some found => .scan todo found .owns
  | none => .ret unknown

/-- The registration is in the map, with its token. -/
def State.lists (s : State τ) (r : Registration) : Bool :=
  (s.registrations.lookup r.inst).any (·.token = r.token)

/-- A step of the loop over the snapshot, at the registration `r`. -/
def scanStep (s : State τ) (answer : Answer) (r : Registration) (todo : List Registration)
    (found : Source) : Check → Phase
  | .owns => .scan (r :: todo) found (.listed answer.owned answer.complete)
  | .listed owned complete =>
    if s.lists r then
      if complete then .scan (r :: todo) found (.active owned)
      else settle todo found ⟨r, owned, false, true, false⟩
    else settle todo found ⟨r, owned, complete, false, false⟩
  | .active owned =>
    match (s.registrations.lookup r.inst).filter (·.source = r.source) with
    | some reg => .scan (r :: todo) found (.start owned reg)
    | none => settle todo found ⟨r, owned, true, true, false⟩
  | .start owned reg =>
    if answer.start = some reg.start then .scan (r :: todo) found (.again owned reg)
    else settle todo found ⟨r, owned, true, true, false⟩
  | .again owned reg => settle todo found ⟨r, owned, true, true,
      (s.registrations.lookup r.inst).any (·.token = reg.token)⟩

/-- What the return of `source` to the binding leaves there. -/
def State.received (s : State τ) (b : Nat) (source : Source) : Source :=
  if !s.closed b && !(s.source b).known && source.known then source else s.source b

variable [DecidableEq τ] (order : MapOrder) (tupleOf : Nat → τ) (valid : Nat → Bool)

def State.snapshot (s : State τ) : List Registration :=
  order.order ((pairs s.registrations).map (·.2))

/-- A turn of a resolution. -/
def advance (s : State τ) (t : Nat) (answer : Answer) : State τ :=
  match (s.threads t).stack, (s.threads t).phase with
  | stack, .enter b =>
    if (s.source b).known || s.closed b || !valid b then s.move t stack (.ret (s.source b))
    else if b ∈ stack then s.move t stack (.ret unknown)
    else s.move t (b :: stack) .look
  | b :: stack, .look =>
    match s.bridges.filter (·.1 = tupleOf b) with
    | [] => s.move t (b :: stack) (.scan (s.snapshot order) unknown .owns)
    | [bridge] => s.move t (b :: stack) (.enter bridge.2.2)
    | _ => s.move t (b :: stack) (.ret unknown)
  | b :: stack, .scan [] found _ => s.move t (b :: stack) (.ret found)
  | b :: stack, .scan (r :: todo) found check =>
    s.move t (b :: stack) (scanStep s answer r todo found check)
  | b :: stack, .ret source =>
    { s.move t stack (.ret (s.received b source)) with
      source := Function.update s.source b (s.received b source) }
  | [], _ => s

def step (s : State τ) : Act τ → State τ
  | .register service pid start =>
    let reg : Registration := ⟨service, pid, start, s.next + 1⟩
    { s with next := s.next + 1, registrations := s.registrations.insert reg.inst reg }
  | .unregister reg =>
    if (s.registrations.lookup reg.inst).any (·.token = reg.token) then
      { s with registrations := s.registrations.erase reg.inst }
    else s
  | .forward key b => { s with next := s.next + 1, bridges := (key, s.next + 1, b) :: s.bridges }
  | .unforward key token =>
    { s with bridges := s.bridges.filter fun e => ¬ (e.1 = key ∧ e.2.1 = token) }
  | .close b => { s with closed := Function.update s.closed b true }
  | .begin t b => s.move t [] (.enter b)
  | .turn t answer => advance order tupleOf valid s t answer

def after (acts : List (Act τ)) : State τ := acts.foldl (step order tupleOf valid) (newTracker τ)

end tracker

/-! ## Scans -/

/-- The source is that of the one active owner among the registrations that were still there, and
all of these were scanned completely. -/
def Picks (exams : List Exam) (source : Source) : Prop :=
  (∃ e ∈ exams, e.reg.source = source ∧ e.registered = true ∧ e.owned = true ∧ e.active = true) ∧
    ∀ e ∈ exams, e.registered = true →
      e.complete = true ∧ (e.owned = true → e.active = true → e.reg.source = source)

theorem verdict_append (exams : List Exam) (e : Exam) :
    verdict (exams ++ [e]) = (verdict exams).bind (examine · e) := by
  simp [verdict]

theorem source_known (r : Registration) : r.source.known = true := rfl

/-- A registration is passed over, ends the loop, or is an active owner. -/
theorem examine_cases (e : Exam) :
    ((∀ found, examine found e = some found) ∧ (e.registered = true →
      e.complete = true ∧ ¬ (e.owned = true ∧ e.active = true))) ∨
    (∀ found, examine found e = none) ∨
    ((∀ found, examine found e =
        if found.known && found ≠ e.reg.source then none else some e.reg.source) ∧
      e.registered = true ∧ e.complete = true ∧ e.owned = true ∧ e.active = true) := by
  rcases e with ⟨reg, owned, complete, registered, active⟩
  cases registered <;> cases complete <;> cases active <;> cases owned <;> simp [examine]

variable {found : Source} {b : Nat}

theorem verdict_facts {exams : List Exam} (h : verdict exams = some found) :
    (found.known = true → ∃ e ∈ exams, e.reg.source = found ∧ e.registered = true ∧
      e.owned = true ∧ e.active = true) ∧
    ∀ e ∈ exams, e.registered = true →
      e.complete = true ∧ (e.owned = true → e.active = true → e.reg.source = found) := by
  induction exams using List.reverseRecOn generalizing found with
  | nil =>
    cases h
    simp [unknown, Source.known]
  | append_singleton exams e ih =>
    rw [verdict_append] at h
    obtain ⟨past, hp, he⟩ := Option.bind_eq_some_iff.mp h
    obtain ⟨howner, hall⟩ := ih hp
    rcases examine_cases e with ⟨hx, hskip⟩ | hx | ⟨hx, hr, hcomp, hown, hact⟩
    · obtain rfl : past = found := by simpa [hx] using he
      refine ⟨fun hk => ?_, fun e' hm hr => ?_⟩
      · obtain ⟨o, ho, hrest⟩ := howner hk
        exact ⟨o, List.mem_append_left _ ho, hrest⟩
      · rcases List.mem_append.mp hm with hm | hm
        · exact hall e' hm hr
        · obtain rfl := List.mem_singleton.mp hm
          exact ⟨(hskip hr).1, fun h1 h2 => absurd ⟨h1, h2⟩ (hskip hr).2⟩
    · rw [hx] at he
      cases he
    · rw [hx] at he
      split_ifs at he with hconf
      obtain rfl := Option.some.inj he
      refine ⟨fun _ => ⟨e, by simp, rfl, hr, hown, hact⟩, fun e' hm hr' => ?_⟩
      rcases List.mem_append.mp hm with hm | hm
      · refine ⟨(hall e' hm hr').1, fun h1 h2 => ?_⟩
        -- an owner before this one has left its own source
        have hpast := (hall e' hm hr').2 h1 h2
        rw [← hpast, source_known] at hconf
        simpa using hconf
      · obtain rfl := List.mem_singleton.mp hm
        exact ⟨hcomp, fun _ _ => rfl⟩

theorem examine_comm (found : Option Source) (e e' : Exam) :
    (found.bind (examine · e)).bind (examine · e') =
      (found.bind (examine · e')).bind (examine · e) := by
  cases found with
  | none => rfl
  | some found =>
    simp only [Option.bind_some]
    rcases examine_cases e with ⟨hx, -⟩ | hx | ⟨hx, -⟩
    · simp [hx]
    · simp [hx]
    · rcases examine_cases e' with ⟨hy, -⟩ | hy | ⟨hy, -⟩
      · simp [hy]
      · simp [hy]
      · -- two owners end the loop, in either order, unless they have one source
        simp only [hx, hy]
        by_cases hs : e.reg.source = e'.reg.source
        · rw [hs]
        · split_ifs <;> simp [source_known, hs, Ne.symm hs]

/-- The loop comes to the same end in every order of the snapshot. -/
theorem verdict_perm {exams exams' : List Exam} (h : exams.Perm exams') :
    verdict exams = verdict exams' :=
  h.foldl_eq' (fun e _ e' _ found => examine_comm found e e') _

/-! ## Histories -/

section law

variable {τ : Type} [DecidableEq τ]

/-- What was done, and the order, the tuples and the valid bindings of the tracker. -/
structure History (τ : Type) where
  order : MapOrder
  tupleOf : Nat → τ
  valid : Nat → Bool
  acts : List (Act τ)

variable (h : History τ)

namespace History

/-- The state before the act number `i`. -/
def state (i : Nat) : State τ := after h.order h.tupleOf h.valid (h.acts.take i)

/-- The act number `i` is a turn of the resolution `t`. -/
def Turned (t i : Nat) (answer : Answer) : Prop := h.acts[i]? = some (.turn t answer)

/-- What a resolution asks /proc in its next turn. -/
inductive Question (τ : Type) where
  | owns (r : Registration) (key : τ)
  | start (r : Registration)

def asks (t i : Nat) : Option (Question τ) :=
  match (h.state i).threads t with
  | ⟨b :: _, .scan (r :: _) _ .owns⟩ => some (.owns r (h.tupleOf b))
  | ⟨_, .scan (r :: _) _ (.start _ _)⟩ => some (.start r)
  | _ => none

/-- The resolution looks for bridges behind the tuple. -/
def LooksFor (t i : Nat) (key : τ) : Prop :=
  (∃ answer, h.Turned t i answer) ∧
    ∃ b stack, (h.state i).threads t = ⟨b :: stack, .look⟩ ∧ h.tupleOf b = key

/-- A resolution has found `b` alone behind the tuple. -/
def Link (key : τ) (b : Nat) : Prop :=
  ∃ t i bridge, h.LooksFor t i key ∧ (h.state i).bridges.filter (·.1 = key) = [bridge] ∧
    bridge.2.2 = b

/-- A resolution has taken its snapshot, no bridge being there. -/
def TookSnapshot (t i : Nat) (key : τ) (regs : List Registration) : Prop :=
  h.LooksFor t i key ∧ (h.state i).bridges.filter (·.1 = key) = [] ∧
    regs = (h.state i).snapshot h.order

/-- The answer of /proc about the registration, as the loop got it after `since`. -/
def Answered (t since i : Nat) (key : τ) (r : Registration) (owned complete : Bool) : Prop :=
  since < i ∧ h.asks t i = some (.owns r key) ∧
    ∃ answer, h.Turned t i answer ∧ answer.owned = owned ∧ answer.complete = complete

/-- The first two sections of `IsActive`: after `since` the registration is in the map, and then
its process is asked for. -/
def AsksStart (t since i : Nat) (r : Registration) (answer : Answer) : Prop :=
  ∃ first, since < first ∧ first < i ∧ (∃ answer', h.Turned t first answer') ∧
    (h.state first).registrations.lookup r.inst = some r ∧
    h.Turned t i answer ∧ h.asks t i = some (.start r)

/-- `IsActive` says yes: the process has its start time, and the token is still in the map. -/
def FoundActive (t since : Nat) (r : Registration) : Prop :=
  ∃ i answer later answer', h.AsksStart t since i r answer ∧ answer.start = some r.start ∧
    i < later ∧ h.Turned t later answer' ∧ (h.state later).lists r = true

/-- `IsActive` says no: another start time, or the registration is not in the map. -/
def FoundInactive (t since : Nat) (r : Registration) : Prop :=
  ∃ i answer, h.AsksStart t since i r answer ∧ answer.start ≠ some r.start ∨
    since < i ∧ h.Turned t i answer ∧ (h.state i).registrations.lookup r.inst ≠ some r

/-- What the loop says about a registration is what it was told: by /proc, then by the map, and
then by `IsActive`. -/
def Examined (t since : Nat) (key : τ) (e : Exam) : Prop :=
  ∃ asked looked, h.Answered t since asked key e.reg e.owned e.complete ∧ asked < looked ∧
    (∃ answer, h.Turned t looked answer) ∧ e.registered = (h.state looked).lists e.reg ∧
    (e.registered = true → e.complete = true →
      e.active = true ∧ h.FoundActive t looked e.reg ∨
      e.active = false ∧ h.FoundInactive t looked e.reg)

/-- The source was picked by a scan for the tuple that single bridges lead to. -/
inductive Proved : τ → Source → Prop where
  | scan {t since : Nat} {key : τ} {exams : List Exam} {source : Source} :
      h.TookSnapshot t since key (exams.map (·.reg)) →
      (∀ e ∈ exams, h.Examined t since key e) → Picks exams source → Proved key source
  | link {key : τ} {b : Nat} {source : Source} :
      h.Link key b → Proved (h.tupleOf b) source → Proved key source

/-! ## What holds before each act -/

/-- A resolution inside of `stack` has come to `b` through a single bridge. -/
def Linked (stack : List Nat) (b : Nat) : Prop := ∀ outer ∈ stack.head?, h.Link (h.tupleOf outer) b

def Chained : List Nat → Prop
  | [] => True
  | b :: stack => h.Linked stack b ∧ Chained stack

/-- The loop has found the registration in the map, behind a complete answer of /proc. -/
def Looked (t since looked : Nat) (key : τ) (r : Registration) (owned : Bool) : Prop :=
  ∃ asked, h.Answered t since asked key r owned true ∧ asked < looked ∧
    (∃ answer, h.Turned t looked answer) ∧ (h.state looked).lists r = true

/-- What the loop has been told, before the act number `n`, about the registration at which it
stands. -/
def CheckSound (n t since : Nat) (key : τ) (r : Registration) : Check → Prop
  | .owns => True
  | .listed owned complete => ∃ asked < n, h.Answered t since asked key r owned complete
  | .active owned => ∃ looked < n, h.Looked t since looked key r owned
  | .start owned reg => reg = r ∧ ∃ first < n, ∃ looked < first,
      h.Looked t since looked key r owned ∧ (∃ answer, h.Turned t first answer) ∧
      (h.state first).registrations.lookup r.inst = some r
  | .again owned reg => reg = r ∧ ∃ i < n, ∃ looked answer, h.Looked t since looked key r owned ∧
      h.AsksStart t looked i r answer ∧ answer.start = some r.start

def PhaseSound (n t : Nat) (stack : List Nat) : Phase → Prop
  | .enter b => h.Linked stack b
  | .look => True
  | .scan todo found check => ∀ b ∈ stack.head?, ∃ since < n, ∃ done,
      h.TookSnapshot t since (h.tupleOf b) (done.map (·.reg) ++ todo) ∧
      (∀ e ∈ done, h.Examined t since (h.tupleOf b) e) ∧ verdict done = some found ∧
      ∀ r ∈ todo.head?, h.CheckSound n t since (h.tupleOf b) r check
  | .ret source => source.known = true → ∀ b ∈ stack.head?, h.Proved (h.tupleOf b) source

structure Sound (n : Nat) : Prop where
  source : ∀ b, ((h.state n).source b).known = true →
    h.Proved (h.tupleOf b) ((h.state n).source b)
  chain : ∀ t, h.Chained ((h.state n).threads t).stack
  phase : ∀ t, h.PhaseSound n t ((h.state n).threads t).stack ((h.state n).threads t).phase

end History

open History

variable {h} {n t since : Nat} {key : τ} {r : Registration} {stack : List Nat}

theorem History.CheckSound.succ {check : Check} (hc : h.CheckSound n t since key r check) :
    h.CheckSound (n + 1) t since key r check := by
  have hle : ∀ i, i < n → i < n + 1 := fun i hi => Nat.lt_succ_of_lt hi
  cases check with
  | owns => trivial
  | listed | active => exact hc.imp fun i => And.imp_left (hle i)
  | start | again => exact hc.imp_right fun hx => hx.imp fun i => And.imp_left (hle i)

theorem History.PhaseSound.succ {p : Phase} (hp : h.PhaseSound n t stack p) :
    h.PhaseSound (n + 1) t stack p := by
  cases p with
  | scan todo found check =>
    intro b hb
    obtain ⟨since, hs, done, hsnap, he, hv, hc⟩ := hp b hb
    exact ⟨since, Nat.lt_succ_of_lt hs, done, hsnap, he, hv, fun r hr => (hc r hr).succ⟩
  | _ => exact hp

theorem state_succ {a : Act τ} (ha : h.acts[n]? = some a) :
    h.state (n + 1) = step h.order h.tupleOf h.valid (h.state n) a := by
  rw [state, state, after, after, List.take_add_one, ha, List.foldl_append]
  rfl

/-- A step that moves no resolution and gives no source. -/
theorem History.Sound.kept (hs : h.Sound n)
    (hsource : (h.state (n + 1)).source = (h.state n).source)
    (ht : (h.state (n + 1)).threads = (h.state n).threads) : h.Sound (n + 1) := by
  refine ⟨?_, ?_, fun u => ?_⟩
  · rw [hsource]
    exact hs.source
  · rw [ht]
    exact hs.chain
  · rw [ht]
    exact (hs.phase u).succ

/-- A step in which one resolution has moved on. -/
theorem History.Sound.moved (hs : h.Sound n) (t : Nat) (stack : List Nat) (phase : Phase)
    (ht : (h.state (n + 1)).threads = Function.update (h.state n).threads t ⟨stack, phase⟩)
    (hsource : (h.state (n + 1)).source = (h.state n).source ∨
      ∃ b v, (h.state (n + 1)).source = Function.update (h.state n).source b v ∧
        (v.known = true → h.Proved (h.tupleOf b) v))
    (hc : h.Chained stack) (hp : h.PhaseSound (n + 1) t stack phase) : h.Sound (n + 1) := by
  refine ⟨fun b hk => ?_, fun u => ?_, fun u => ?_⟩
  · rcases hsource with he | ⟨c, v, he, hv⟩
    · rw [he] at hk ⊢
      exact hs.source b hk
    · rw [he] at hk ⊢
      by_cases hb : b = c
      · subst hb
        rw [Function.update_self] at hk ⊢
        exact hv hk
      · rw [Function.update_of_ne hb] at hk ⊢
        exact hs.source b hk
  · rw [ht]
    by_cases hu : u = t
    · subst hu
      rwa [Function.update_self]
    · rw [Function.update_of_ne hu]
      exact hs.chain u
  · rw [ht]
    by_cases hu : u = t
    · subst hu
      rwa [Function.update_self]
    · rw [Function.update_of_ne hu]
      exact (hs.phase u).succ

theorem unknown_sound : h.PhaseSound n t stack (.ret unknown) := by
  intro hk
  simp [unknown, Source.known] at hk

theorem settle_sound {todo : List Registration} {done : List Exam} (hlt : since < n)
    (hs : h.TookSnapshot t since (h.tupleOf b) (done.map (·.reg) ++ r :: todo))
    (he : ∀ e ∈ done, h.Examined t since (h.tupleOf b) e) (hv : verdict done = some found)
    {e : Exam} (hr : e.reg = r) (hx : h.Examined t since (h.tupleOf b) e) :
    h.PhaseSound n t (b :: stack) (settle todo found e) := by
  unfold settle
  cases hf : examine found e with
  | none => exact unknown_sound
  | some found' =>
    rintro _ ⟨⟩
    refine ⟨since, hlt, done ++ [e], ?_, ?_, ?_, fun _ _ => trivial⟩
    · simpa [hr] using hs
    · intro e' hm
      rcases List.mem_append.mp hm with hm | hm
      · exact he e' hm
      · obtain rfl := List.mem_singleton.mp hm
        exact hx
    · rw [verdict_append, hv]
      exact hf

/-- What the map gives for the instance and the source is the registration itself. -/
theorem eq_of_source {reg : Registration} (he : reg.source = r.source) : reg = r := by
  obtain ⟨service, pid, start, token⟩ := reg
  obtain ⟨service', pid', start', token'⟩ := r
  simp only [Registration.source, Registration.inst, Source.mk.injEq, Option.some.injEq,
    Instance.mk.injEq] at he
  obtain ⟨rfl, ⟨rfl, rfl, rfl⟩, -⟩ := he
  rfl

theorem scanStep_sound {todo : List Registration} {check : Check} {answer : Answer}
    (hnow : h.Turned t n answer)
    (hth : (h.state n).threads t = ⟨b :: stack, .scan (r :: todo) found check⟩)
    (hp : h.PhaseSound n t (b :: stack) (.scan (r :: todo) found check)) :
    h.PhaseSound (n + 1) t (b :: stack) (scanStep (h.state n) answer r todo found check) := by
  obtain ⟨since, hlt, done, hs, he, hv, hc⟩ := hp b rfl
  replace hc := hc r rfl
  have hlt' : since < n + 1 := Nat.lt_succ_of_lt hlt
  -- The loop stays at the registration.
  have hstay (check' : Check) (hsound : h.CheckSound (n + 1) t since (h.tupleOf b) r check') :
      h.PhaseSound (n + 1) t (b :: stack) (.scan (r :: todo) found check') := by
    rintro _ ⟨⟩
    refine ⟨since, hlt', done, hs, he, hv, ?_⟩
    rintro _ ⟨⟩
    exact hsound
  cases check with
  | owns =>
    refine hstay _ ⟨n, n.lt_succ_self, hlt, ?_, answer, hnow, rfl, rfl⟩
    rw [asks, hth]
  | listed owned complete =>
    obtain ⟨asked, han, ha⟩ := hc
    simp only [scanStep]
    split_ifs with hl hcomp
    · subst hcomp
      exact hstay _ ⟨n, n.lt_succ_self, asked, ha, han, ⟨answer, hnow⟩, hl⟩
    · rw [Bool.not_eq_true] at hcomp
      subst hcomp
      refine settle_sound hlt' hs he hv rfl
        ⟨asked, n, ha, han, ⟨answer, hnow⟩, hl.symm, fun _ h2 => ?_⟩
      cases h2
    · refine settle_sound hlt' hs he hv rfl ⟨asked, n, ha, han, ⟨answer, hnow⟩,
        (Bool.eq_false_of_not_eq_true hl).symm, fun h1 => ?_⟩
      cases h1
  | active owned =>
    obtain ⟨looked, hln, hlook⟩ := hc
    obtain ⟨asked, ha, hal, ht, hlist⟩ := id hlook
    simp only [scanStep]
    split
    · rename_i reg hreg
      obtain ⟨hin, hsrc⟩ := Option.filter_eq_some_iff.mp hreg
      obtain rfl := eq_of_source (of_decide_eq_true hsrc)
      exact hstay _ ⟨rfl, n, n.lt_succ_self, looked, hln, hlook, ⟨answer, hnow⟩, hin⟩
    · rename_i hnone
      refine settle_sound hlt' hs he hv rfl ⟨asked, looked, ha, hal, ht, hlist.symm,
        fun _ _ => .inr ⟨rfl, n, answer, .inr ⟨hln, hnow, fun hin => ?_⟩⟩⟩
      simp [hin] at hnone
  | start owned reg =>
    obtain ⟨rfl, first, hfn, looked, hlf, hlook, ht₁, hin⟩ := hc
    obtain ⟨asked, ha, hal, ht, hlist⟩ := id hlook
    have hasks : h.AsksStart t looked n reg answer :=
      ⟨first, hlf, hfn, ht₁, hin, hnow, by rw [asks, hth]⟩
    simp only [scanStep]
    split_ifs with hstart
    · exact hstay _ ⟨rfl, n, n.lt_succ_self, looked, answer, hlook, hasks, hstart⟩
    · exact settle_sound hlt' hs he hv rfl ⟨asked, looked, ha, hal, ht, hlist.symm,
        fun _ _ => .inr ⟨rfl, n, answer, .inl ⟨hasks, hstart⟩⟩⟩
  | again owned reg =>
    obtain ⟨rfl, i, hin, looked, answer₁, hlook, hasks, hstart⟩ := hc
    obtain ⟨asked, ha, hal, ht, hlist⟩ := id hlook
    refine settle_sound hlt' hs he hv rfl ⟨asked, looked, ha, hal, ht, hlist.symm,
      fun _ _ => ?_⟩
    cases hfin : (h.state n).lists reg with
    | true => exact .inl ⟨hfin, i, answer₁, n, answer, hasks, hstart, hin, hnow, hfin⟩
    | false =>
      obtain ⟨first, hlf, hfi, -⟩ := id hasks
      refine .inr ⟨hfin, n, answer, .inr ⟨hlf.trans (hfi.trans hin), hnow, fun hl => ?_⟩⟩
      simp [State.lists, hl] at hfin

theorem advance_sound (h₀ : h.Sound n) {answer : Answer} (hnow : h.Turned t n answer) :
    h.Sound (n + 1) := by
  have hc := h₀.chain t
  have hp := h₀.phase t
  have hstep : h.state (n + 1) = advance h.order h.tupleOf h.valid (h.state n) t answer :=
    state_succ hnow
  -- A turn that only moves this resolution.
  have hmove (stack : List Nat) (phase : Phase)
      (hadv : advance h.order h.tupleOf h.valid (h.state n) t answer =
        (h.state n).move t stack phase)
      (hc : h.Chained stack) (hp : h.PhaseSound (n + 1) t stack phase) : h.Sound (n + 1) := by
    refine h₀.moved t stack phase ?_ (.inl ?_) hc hp
    · rw [hstep, hadv]
      rfl
    · rw [hstep, hadv]
      rfl
  rcases hth : (h.state n).threads t with ⟨stack, phase⟩
  rw [hth] at hc hp
  unfold advance at hmove hstep
  simp only [hth] at hmove hstep
  cases phase with
  | enter b =>
    dsimp only at hmove
    split_ifs at hmove with h1 h2
    · -- the source that `b` has, or none, goes to the binding in front of the bridge
      refine hmove _ _ rfl hc fun hk outer ho => ?_
      exact .link (hp outer ho) (h₀.source b hk)
    · exact hmove _ _ rfl hc unknown_sound
    · exact hmove _ _ rfl ⟨hp, hc⟩ trivial
  | look =>
    cases stack with
    | nil => exact h₀.kept (by rw [hstep]) (by rw [hstep])
    | cons b stack =>
      have hlook : h.LooksFor t n (h.tupleOf b) := ⟨⟨answer, hnow⟩, b, stack, hth, rfl⟩
      dsimp only at hmove
      split at hmove
      · rename_i hnone
        refine hmove _ _ rfl hc ?_
        rintro _ ⟨⟩
        refine ⟨n, n.lt_succ_self, [], ⟨hlook, hnone, rfl⟩, fun _ he => ?_, rfl,
          fun _ _ => trivial⟩
        cases he
      · rename_i bridge hone
        refine hmove _ _ rfl hc ?_
        rintro _ ⟨⟩
        exact ⟨t, n, bridge, hlook, hone, rfl⟩
      · exact hmove _ _ rfl hc unknown_sound
  | scan todo found check =>
    cases stack with
    | nil => cases todo <;> exact h₀.kept (by rw [hstep]) (by rw [hstep])
    | cons b stack =>
      cases todo with
      | nil =>
        refine hmove _ _ rfl hc fun hk => ?_
        rintro _ ⟨⟩
        obtain ⟨since, -, done, hs, he, hv, -⟩ := hp b rfl
        rw [List.append_nil] at hs
        obtain ⟨howner, hall⟩ := verdict_facts hv
        exact .scan hs he ⟨howner hk, hall⟩
      | cons r todo => exact hmove _ _ rfl hc (scanStep_sound hnow hth hp)
  | ret source =>
    cases stack with
    | nil => exact h₀.kept (by rw [hstep]) (by rw [hstep])
    | cons b stack =>
      have hgot : ((h.state n).received b source).known = true →
          h.Proved (h.tupleOf b) ((h.state n).received b source) := by
        unfold State.received
        split_ifs with hset
        · exact fun hk => hp hk b rfl
        · exact h₀.source b
      refine h₀.moved t stack (.ret ((h.state n).received b source)) ?_
        (.inr ⟨b, _, ?_, hgot⟩) hc.2 fun hk outer ho => ?_
      · rw [hstep]
        rfl
      · rw [hstep]
      · exact .link (hc.1 outer ho) (hgot hk)

theorem step_sound (h₀ : h.Sound n) {a : Act τ} (ha : h.acts[n]? = some a) : h.Sound (n + 1) := by
  cases a with
  | begin t b =>
    refine h₀.moved t [] (.enter b) ?_ (.inl ?_) trivial fun _ ho => ?_
    · rw [state_succ ha]
      rfl
    · rw [state_succ ha]
      rfl
    · cases ho
  | turn t answer => exact advance_sound h₀ ha
  | unregister reg =>
    refine h₀.kept ?_ ?_
    all_goals
      rw [state_succ ha, step]
      split_ifs <;> rfl
  | _ => exact h₀.kept (by rw [state_succ ha]; rfl) (by rw [state_succ ha]; rfl)

theorem history_sound (hn : n ≤ h.acts.length) : h.Sound n := by
  induction n with
  | zero =>
    refine ⟨fun b hk => ?_, fun _ => trivial, fun _ hk => ?_⟩
    all_goals simp [state, after, newTracker, unknown, Source.known] at hk
  | succ n ih => exact step_sound (ih (by omega)) (List.getElem?_eq_getElem (by omega))

/-! ## Sources stay -/

variable (order : MapOrder) (tupleOf : Nat → τ) (valid : Nat → Bool) {s : State τ}

/-- A known source, and that of a closed binding, stay. -/
theorem step_source (a : Act τ) (h : (s.source b).known = true ∨ s.closed b = true) :
    (step order tupleOf valid s a).source b = s.source b ∧
      (s.closed b = true → (step order tupleOf valid s a).closed b = true) := by
  cases a with
  | turn t answer =>
    simp only [step]
    unfold advance
    split
    · split_ifs <;> exact ⟨rfl, id⟩
    · split <;> exact ⟨rfl, id⟩
    · exact ⟨rfl, id⟩
    · exact ⟨rfl, id⟩
    · rename_i c stack source hst hph
      refine ⟨?_, id⟩
      by_cases hb : b = c
      · subst hb
        have hkeep : s.received b source = s.source b :=
          if_neg (by rcases h with h | h <;> simp [h])
        exact (Function.update_self ..).trans hkeep
      · exact Function.update_of_ne hb _ _
    · exact ⟨rfl, id⟩
  | unregister reg =>
    simp only [step]
    split_ifs <;> exact ⟨rfl, id⟩
  | close c =>
    refine ⟨rfl, fun hc => ?_⟩
    by_cases hb : b = c
    · subst hb
      exact Function.update_self ..
    · exact (Function.update_of_ne hb _ _).trans hc
  | _ => exact ⟨rfl, id⟩

theorem foldl_source (more : List (Act τ)) (h : (s.source b).known = true ∨ s.closed b = true) :
    (more.foldl (step order tupleOf valid) s).source b = s.source b := by
  induction more generalizing s with
  | nil => rfl
  | cons a more ih =>
    have hs := step_source order tupleOf valid a h
    rw [List.foldl_cons, ih (h.imp (fun hk => hs.1 ▸ hk) hs.2), hs.1]

end law

/-- A registration that owns the connection becomes its source. -/
example : ((after .asStored (fun _ => 0) (fun _ => true) (.register "api" 7 1 :: .begin 0 0 ::
    List.replicate 9 (.turn 0 ⟨true, true, some 1⟩))).source 0).known = true := by
  decide

end faultbox.conn_owner
